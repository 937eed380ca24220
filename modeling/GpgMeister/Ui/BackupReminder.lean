/-
# The backup reminder

`_check_backup_staleness` of `app.py`, and the tables that it reads: a key has
the time of its first metadata record, if it has one, and a vault the time of
its export; which keys are in a vault is written nowhere.

* `checkBackupStaleness_isSome_iff`: what the reminder asks.
* `shown_of_careful`: in every history in which a private key that is created,
  or imported with armor, has a record that is later than every vault's, and a
  vault leaves out no private key that no vault has, it is shown whenever there
  is such a key.
-/
import GpgMeister.Lib.Json
import GpgMeister.Lib.System
import GpgMeister.World

namespace GpgMeister
namespace BackupReminder

/-! ### The tables -/

/-- A row of `key_metadata`. -/
structure KeyMetadata where
  fingerprint : Str
  label : Str
  purpose : Str
  platform : Str
  notes : Str
  importTimestamp : Str

/-- A row of `vault_record`. -/
structure VaultRow extends VaultRecord where
  creationTimestamp : Str

/-- What the user can say about a key. -/
structure Details where
  label : Option Str := none
  purpose : Option Str := none
  platform : Option Str := none
  notes : Option Str := none

/-- `upsert_key`, at `now`: a row that is there keeps its time. -/
def upsertKey (now fingerprint : Str) (details : Details) (rows : List KeyMetadata) : List KeyMetadata :=
  if rows.any (·.fingerprint = fingerprint) then
    rows.map fun row =>
      if row.fingerprint = fingerprint then
        { row with
          label := details.label.getD row.label
          purpose := details.purpose.getD row.purpose
          platform := details.platform.getD row.platform
          notes := details.notes.getD row.notes }
      else row
  else
    rows ++
      [{ fingerprint
         label := details.label.getD []
         purpose := details.purpose.getD []
         platform := details.platform.getD []
         notes := details.notes.getD []
         importTimestamp := now }]

/-- `delete_key` -/
def deleteKey (fingerprint : Str) (rows : List KeyMetadata) : List KeyMetadata :=
  rows.filter (·.fingerprint ≠ fingerprint)

/-- `_record_new_key` -/
def recordNewKey (fingerprint : Str) (details : Details) (recordedAt : Option Str) (rows : List KeyMetadata) :
    List KeyMetadata :=
  match recordedAt with
  | none => rows
  | some now =>
    if [details.label, details.purpose, details.platform, details.notes].any (·.any (strip · ≠ [])) then
      upsertKey now fingerprint details rows
    else rows

/-- `_on_key_created` -/
def onKeyCreated (fingerprint : Str) (notified : Option (Str × Str)) (rows : List KeyMetadata) : List KeyMetadata :=
  match notified with
  | none => rows
  | some (userId, now) => upsertKey now fingerprint { label := some userId } rows

/-- The records once a key was created. -/
def recordsAfterCreate (fingerprint : Str) (details : Details) (recordedAt : Option Str)
    (notified : Option (Str × Str)) (rows : List KeyMetadata) : List KeyMetadata :=
  onKeyCreated fingerprint notified (recordNewKey fingerprint details recordedAt rows)

/-- `latest_vault_timestamp`: `ORDER BY creation_timestamp DESC LIMIT 1` -/
def latestVaultTimestamp (rows : List VaultRow) : Option Str :=
  ((rows.map (·.creationTimestamp)).insertionSort (· ≥ ·)).head?

/-! ### The reminder -/

/-- A key in the keyring, as far as the reminder looks at it. -/
structure Key where
  fingerprint : Str
  hasPrivateKey : Bool
  isStub : Bool
  deriving DecidableEq

/-- `key_records.get(fingerprint)` -/
def recordTime (records : List KeyMetadata) (fingerprint : Str) : Option Str :=
  (records.find? (·.fingerprint = fingerprint)).map (·.importTimestamp)

/-- The time of a key's record, `"0"` if it has none. -/
def addedAt (records : List KeyMetadata) (fingerprint : Str) : Str :=
  match recordTime records fingerprint with
  | some [] | none => lit "0"
  | some timestamp => timestamp

/-- `_check_backup_staleness`, with what it shows in the status bar -/
def checkBackupStaleness (keys : List Key) (records : List KeyMetadata) (vaults : List VaultRow) : Option Str :=
  let privateKeys := keys.filter (·.hasPrivateKey)
  if privateKeys = [] then none
  else
    match latestVaultTimestamp vaults with
    | none =>
      some (lit "No vault backup exists — " ++ Json.decimal privateKeys.length ++
        lit " private key(s) are not backed up. Go to the Vault tab to create a backup.")
    | some vaultTs =>
      let newer := privateKeys.filter fun key => addedAt records key.fingerprint > vaultTs
      if newer = [] then none
      else
        some (Json.decimal newer.length ++
          lit " private key(s) added since last vault backup. Go to the Vault tab to update your backup.")

/-! ### What the reminder asks -/

theorem latestVaultTimestamp_eq_none {rows : List VaultRow} : latestVaultTimestamp rows = none ↔ rows = [] := by
  unfold latestVaultTimestamp
  rw [List.head?_eq_none_iff, List.eq_nil_iff_length_eq_zero, List.length_insertionSort, List.length_map,
    List.length_eq_zero_iff]

/-- The latest time is one of the rows', and none is later. -/
theorem latestVaultTimestamp_eq_some {rows : List VaultRow} {t : Str} (h : latestVaultTimestamp rows = some t) :
    (∃ row ∈ rows, row.creationTimestamp = t) ∧ ∀ row ∈ rows, row.creationTimestamp ≤ t := by
  unfold latestVaultTimestamp at h
  have hperm := List.perm_insertionSort (· ≥ ·) (rows.map (·.creationTimestamp))
  have hsorted := List.pairwise_insertionSort (· ≥ ·) (rows.map (·.creationTimestamp))
  obtain ⟨rest, hrest⟩ := List.head?_eq_some_iff.mp h
  rw [hrest] at hperm hsorted
  constructor
  · have hmem : t ∈ rows.map (·.creationTimestamp) := hperm.subset List.mem_cons_self
    exact List.mem_map.mp hmem
  · intro row hrow
    have hmem : row.creationTimestamp ∈ t :: rest := hperm.symm.subset (List.mem_map_of_mem hrow)
    rcases List.mem_cons.mp hmem with heq | hmem
    · exact heq.le
    · exact (List.pairwise_cons.mp hsorted).1 _ hmem

/-- **What the reminder asks**: whether there is a private key, and either no
vault or one that was recorded after every vault. -/
theorem checkBackupStaleness_isSome_iff {keys : List Key} {records : List KeyMetadata} {vaults : List VaultRow} :
    (checkBackupStaleness keys records vaults).isSome = true ↔ (∃ key ∈ keys, key.hasPrivateKey = true) ∧
      (vaults = [] ∨ ∃ key ∈ keys, key.hasPrivateKey = true ∧
        ∀ row ∈ vaults, row.creationTimestamp < addedAt records key.fingerprint) := by
  unfold checkBackupStaleness
  have hprivate : keys.filter (·.hasPrivateKey) = [] ↔ ¬ ∃ key ∈ keys, key.hasPrivateKey = true := by
    rw [List.filter_eq_nil_iff]
    push Not
    exact Iff.rfl
  by_cases hnone : keys.filter (·.hasPrivateKey) = []
  · rw [if_pos hnone]
    exact iff_of_false (by simp) fun h => hprivate.mp hnone h.1
  · rw [if_neg hnone]
    have hsome := not_not.mp fun h => hnone (hprivate.mpr h)
    cases hlatest : latestVaultTimestamp vaults with
    | none => exact iff_of_true rfl ⟨hsome, .inl (latestVaultTimestamp_eq_none.mp hlatest)⟩
    | some t =>
      obtain ⟨⟨last, hlast, heq⟩, hle⟩ := latestVaultTimestamp_eq_some hlatest
      have hnewer : ((keys.filter (·.hasPrivateKey)).filter fun key => addedAt records key.fingerprint > t) = [] ↔
          ¬ ∃ key ∈ keys, key.hasPrivateKey = true ∧
            ∀ row ∈ vaults, row.creationTimestamp < addedAt records key.fingerprint := by
        rw [List.filter_eq_nil_iff]
        constructor
        · rintro h ⟨key, hkey, hpriv, hlater⟩
          refine h key (List.mem_filter.mpr ⟨hkey, hpriv⟩) (decide_eq_true ?_)
          exact heq ▸ hlater last hlast
        · intro h key hkey hgt
          obtain ⟨hkey, hpriv⟩ := List.mem_filter.mp hkey
          exact h ⟨key, hkey, hpriv, fun row hrow => lt_of_le_of_lt (hle row hrow) (of_decide_eq_true hgt)⟩
      have hne : vaults ≠ [] := List.ne_nil_of_mem hlast
      dsimp only
      by_cases hempty : ((keys.filter (·.hasPrivateKey)).filter fun key => addedAt records key.fingerprint > t) = []
      · rw [if_pos hempty]
        exact iff_of_false (by simp) fun h => hnewer.mp hempty (h.2.resolve_left hne)
      · rw [if_neg hempty]
        exact iff_of_true rfl ⟨hsome, .inr (not_not.mp fun h => hempty (hnewer.mpr h))⟩

/-! ### The records -/

theorem recordTime_upsertKey (now fp : Str) (details : Details) (rows : List KeyMetadata) (q : Str) :
    recordTime (upsertKey now fp details rows) q = (recordTime rows q).or (if q = fp then some now else none) := by
  unfold upsertKey recordTime
  by_cases hany : rows.any (·.fingerprint = fp) = true
  · rw [if_pos hany, List.find?_map]
    have hsame : ((fun row : KeyMetadata => decide (row.fingerprint = q)) ∘ fun row =>
        if row.fingerprint = fp then
          { row with
            label := details.label.getD row.label
            purpose := details.purpose.getD row.purpose
            platform := details.platform.getD row.platform
            notes := details.notes.getD row.notes }
        else row) = fun row => decide (row.fingerprint = q) := by
      funext row
      simp only [Function.comp]
      split_ifs <;> rfl
    rw [hsame, Option.map_map]
    cases hfind : rows.find? (·.fingerprint = q) with
    | some row =>
      simp only [Option.map_some, Option.some_or, Function.comp]
      split_ifs <;> rfl
    | none =>
      rw [if_neg]
      · rfl
      · rintro rfl
        obtain ⟨row, hrow, heq⟩ := List.any_eq_true.mp hany
        exact List.find?_eq_none.mp hfind row hrow heq
  · rw [if_neg hany, List.find?_append, Option.map_or]
    congr 1
    by_cases hq : q = fp
    · subst hq
      simp
    · rw [if_neg hq, List.find?_cons_of_neg (by simpa using Ne.symm hq)]
      rfl

/-- A time that is there stays. -/
theorem recordTime_upsertKey_of_some {now fp q t : Str} {details : Details} {rows : List KeyMetadata}
    (h : recordTime rows q = some t) : recordTime (upsertKey now fp details rows) q = some t := by
  rw [recordTime_upsertKey, h, Option.some_or]

theorem recordTime_upsertKey_of_ne {now fp q : Str} {details : Details} {rows : List KeyMetadata} (h : q ≠ fp) :
    recordTime (upsertKey now fp details rows) q = recordTime rows q := by
  rw [recordTime_upsertKey, if_neg h, Option.or_none]

theorem recordTime_recordsAfterCreate {fp q : Str} (h : q ≠ fp) (details : Details) (recordedAt : Option Str)
    (notified : Option (Str × Str)) (rows : List KeyMetadata) :
    recordTime (recordsAfterCreate fp details recordedAt notified rows) q = recordTime rows q := by
  have hrecord : recordTime (recordNewKey fp details recordedAt rows) q = recordTime rows q := by
    unfold recordNewKey
    cases recordedAt with
    | none => rfl
    | some now =>
      dsimp only
      split_ifs
      · exact recordTime_upsertKey_of_ne h
      · rfl
  unfold recordsAfterCreate onKeyCreated
  cases notified with
  | none => exact hrecord
  | some pair => exact (recordTime_upsertKey_of_ne h).trans hrecord

theorem recordTime_deleteKey {fp q : Str} (h : q ≠ fp) (rows : List KeyMetadata) :
    recordTime (deleteKey fp rows) q = recordTime rows q := by
  unfold recordTime deleteKey
  rw [List.find?_filter]
  congr 2
  funext row
  by_cases hq : row.fingerprint = q
  · simp [hq, h]
  · simp [hq]

/-! ### Histories -/

/-- The keyring, the tables, and the keys whose private part some vault has that
was exported. -/
structure Backups where
  keyring : List Key := []
  records : List KeyMetadata := []
  vaults : List VaultRow := []
  contained : List Str := []

def Backups.reminder (s : Backups) : Option Str := checkBackupStaleness s.keyring s.records s.vaults

/-- A private key in the keyring; that of a stub is on a card. -/
def Key.Private (key : Key) : Prop := key.hasPrivateKey = true ∧ key.isStub = false

instance (key : Key) : Decidable key.Private := inferInstanceAs (Decidable (_ ∧ _))

inductive Event
  /-- A key is created. Its details are recorded, unless that fails; and the
  main window learns of it, with its user ID, unless that fails. -/
  | create (fingerprint : Str) (details : Details) (recordedAt : Option Str) (notified : Option (Str × Str))
  /-- `import_armored`, which is for public keys, but does not look at what the
  armor is around: a secret key is imported with it, and nothing is recorded. -/
  | importArmored (fingerprint : Str) (secret : Bool)
  /-- Private keys from a vault. -/
  | importVault (fingerprints : List Str)
  /-- `update_context` and `set_favorite` -/
  | annotate (fingerprint : Str) (details : Details) (now : Str)
  | delete (fingerprint : Str)
  | moveToCard (fingerprint : Str)
  /-- `VaultService.create`, where GnuPG refuses to export the private keys
  `refused`; the vault is recorded, unless that fails. -/
  | exportVault (fingerprints refused : List Str) (row : Option VaultRow)

/-- The keyring with a private key that was imported. -/
def importKey (keyring : List Key) (fingerprint : Str) : List Key :=
  keyring.filter (·.fingerprint ≠ fingerprint) ++ [{ fingerprint, hasPrivateKey := true, isStub := false }]

/-- The private keys that a vault gets. -/
def vaultContents (keyring : List Key) (fingerprints refused : List Str) : List Str :=
  fingerprints.filter fun fp => fp ∉ refused ∧ ∃ key ∈ keyring, key.fingerprint = fp ∧ key.Private

def step (s : Backups) : Event → Option Backups
  | .create fp details recordedAt notified =>
    if s.keyring.any (·.fingerprint = fp) then none
    else
      some
        { s with
          keyring := s.keyring ++ [{ fingerprint := fp, hasPrivateKey := true, isStub := false }]
          records := recordsAfterCreate fp details recordedAt notified s.records }
  | .importArmored fp true => some { s with keyring := importKey s.keyring fp }
  | .importArmored fp false =>
    if s.keyring.any (·.fingerprint = fp) then some s
    else some { s with keyring := s.keyring ++ [{ fingerprint := fp, hasPrivateKey := false, isStub := false }] }
  | .importVault fps => some { s with keyring := fps.foldl importKey s.keyring, contained := s.contained ++ fps }
  | .annotate fp details now =>
    if s.keyring.any (·.fingerprint = fp) then some { s with records := upsertKey now fp details s.records } else none
  | .delete fp =>
    if s.keyring.any (·.fingerprint = fp) then
      some { s with keyring := s.keyring.filter (·.fingerprint ≠ fp), records := deleteKey fp s.records }
    else none
  | .moveToCard fp =>
    some { s with keyring := s.keyring.map fun key => if key.fingerprint = fp then { key with isStub := true } else key }
  | .exportVault fps refused row =>
    if fps ≠ [] ∧ fps.all fun fp => s.keyring.any (·.fingerprint = fp) then
      some
        { s with
          vaults := s.vaults ++ row.toList
          contained := s.contained ++ vaultContents s.keyring fps refused }
    else none

/-- The histories of an installation: at first nothing was exported. -/
def histories : System Backups Event := .ofStep (fun s => s.vaults = [] ∧ s.contained = []) step

/-- Some private key is in no vault. -/
def Unsaved (s : Backups) : Prop := ∃ key ∈ s.keyring, key.Private ∧ key.fingerprint ∉ s.contained

instance (s : Backups) : Decidable (Unsaved s) :=
  inferInstanceAs (Decidable (∃ key ∈ s.keyring, key.Private ∧ key.fingerprint ∉ s.contained))

/-! ### Careful histories -/

/-- The key has a record that is later than each of these vaults. -/
def RecordedAfter (records : List KeyMetadata) (fingerprint : Str) (vaults : List VaultRow) : Prop :=
  ∀ row ∈ vaults, ∃ t, recordTime records fingerprint = some t ∧ row.creationTimestamp < t

theorem recordedAfter_iff {records : List KeyMetadata} {fp : Str} {vaults : List VaultRow} :
    RecordedAfter records fp vaults ↔
      ∀ row ∈ vaults, (recordTime records fp).any (row.creationTimestamp < ·) = true := by
  simp [RecordedAfter, Option.any_eq_true]

instance (records : List KeyMetadata) (fp : Str) (vaults : List VaultRow) :
    Decidable (RecordedAfter records fp vaults) := decidable_of_iff' _ recordedAfter_iff

/-- A created key gets a record that is later than every vault, and so has a
secret key that is imported with armor, if it is new and in no vault; and every
private key that no vault has gets into an exported one, or has a record that
is later. -/
def Careful (s : Backups) : Event → Prop
  | .create fp details recordedAt notified =>
    fp ∈ s.contained ∨ RecordedAfter (recordsAfterCreate fp details recordedAt notified s.records) fp s.vaults
  | .importArmored fp true => (∃ key ∈ s.keyring, key.fingerprint = fp ∧ key.Private) ∨ fp ∈ s.contained ∨
      RecordedAfter s.records fp s.vaults
  | .exportVault fps refused row => ∀ key ∈ s.keyring, key.Private → key.fingerprint ∈ s.contained ∨
      key.fingerprint ∈ vaultContents s.keyring fps refused ∨ RecordedAfter s.records key.fingerprint row.toList
  | _ => True

instance (s : Backups) : (e : Event) → Decidable (Careful s e)
  | .create .. => inferInstanceAs (Decidable (_ ∨ _))
  | .exportVault fps refused row =>
    inferInstanceAs (Decidable (∀ key ∈ s.keyring, key.Private → key.fingerprint ∈ s.contained ∨
      key.fingerprint ∈ vaultContents s.keyring fps refused ∨ RecordedAfter s.records key.fingerprint row.toList))
  | .importArmored fp true =>
    inferInstanceAs (Decidable ((∃ key ∈ s.keyring, key.fingerprint = fp ∧ key.Private) ∨ fp ∈ s.contained ∨
      RecordedAfter s.records fp s.vaults))
  | .importArmored _ false => isTrue trivial
  | .importVault _ => isTrue trivial
  | .annotate .. => isTrue trivial
  | .delete _ => isTrue trivial
  | .moveToCard _ => isTrue trivial

/-- Every private key is in a vault, or has a record that is later than each. -/
def Remembered (s : Backups) : Prop :=
  ∀ key ∈ s.keyring, key.Private → key.fingerprint ∈ s.contained ∨ RecordedAfter s.records key.fingerprint s.vaults

theorem addedAt_of_recordTime {records : List KeyMetadata} {fp t v : Str} (h : recordTime records fp = some t)
    (hlt : v < t) : addedAt records fp = t := by
  unfold addedAt
  rw [h]
  cases t with
  | nil => exact absurd hlt (List.not_lt_nil v)
  | cons c rest => rfl

/-- What is remembered is shown. -/
theorem Remembered.reminder {s : Backups} (h : Remembered s) (hunsaved : Unsaved s) : s.reminder.isSome = true := by
  obtain ⟨key, hkey, hprivate, hnot⟩ := hunsaved
  have hrecorded := (h key hkey hprivate).resolve_left hnot
  refine checkBackupStaleness_isSome_iff.mpr ⟨⟨key, hkey, hprivate.1⟩, .inr ⟨key, hkey, hprivate.1, fun row hrow => ?_⟩⟩
  obtain ⟨t, ht, hlt⟩ := hrecorded row hrow
  rw [addedAt_of_recordTime ht hlt]
  exact hlt

theorem RecordedAfter.upsertKey {records : List KeyMetadata} {fp : Str} {vaults : List VaultRow}
    (h : RecordedAfter records fp vaults) (now q : Str) (details : Details) :
    RecordedAfter (upsertKey now q details records) fp vaults := by
  intro row hrow
  obtain ⟨t, ht, hlt⟩ := h row hrow
  exact ⟨t, recordTime_upsertKey_of_some ht, hlt⟩

theorem RecordedAfter.of_recordTime {records records' : List KeyMetadata} {fp : Str} {vaults : List VaultRow}
    (h : RecordedAfter records fp vaults) (htime : recordTime records' fp = recordTime records fp) :
    RecordedAfter records' fp vaults := by
  unfold RecordedAfter
  rw [htime]
  exact h

/-- A key that was there before, or one that was imported. -/
theorem mem_foldl_importKey : ∀ {fps : List Str} {keyring : List Key} {key : Key},
    key ∈ fps.foldl importKey keyring → key ∈ keyring ∨ key.fingerprint ∈ fps
  | [], _, _, h => .inl h
  | fp :: fps, keyring, key, h => by
    have ih : key ∈ importKey keyring fp ∨ key.fingerprint ∈ fps := mem_foldl_importKey h
    rcases ih with h | h
    · rcases List.mem_append.mp h with h | h
      · exact .inl (List.mem_filter.mp h).1
      · rw [List.mem_singleton] at h
        subst h
        exact .inr List.mem_cons_self
    · exact .inr (List.mem_cons_of_mem fp h)

/-- **The step lemma.** -/
theorem remembered_step {s s' : Backups} {e : Event} (h : Remembered s) (hcareful : Careful s e)
    (hstep : step s e = some s') : Remembered s' := by
  cases e with
  | create fp details recordedAt notified =>
    rw [step] at hstep
    split at hstep
    · cases hstep
    rename_i hnew
    obtain rfl := Option.some.inj hstep
    intro key hkey hprivate
    rcases List.mem_append.mp hkey with hkey | hkey
    · have hne : key.fingerprint ≠ fp := fun he => hnew (List.any_eq_true.mpr ⟨key, hkey, by simpa using he⟩)
      exact (h key hkey hprivate).imp_right fun hafter =>
        hafter.of_recordTime (recordTime_recordsAfterCreate hne details recordedAt notified s.records)
    · rw [List.mem_singleton] at hkey
      subst hkey
      exact hcareful
  | importArmored fp secret =>
    cases secret with
    | true =>
      obtain rfl := Option.some.inj hstep
      intro key hkey hprivate
      rcases List.mem_append.mp hkey with hkey | hkey
      · exact h key (List.mem_filter.mp hkey).1 hprivate
      · rw [List.mem_singleton] at hkey
        subst hkey
        rcases hcareful with hbefore | hsaved
        · obtain ⟨before, hbefore, rfl, hbeforePrivate⟩ := hbefore
          exact h before hbefore hbeforePrivate
        · exact hsaved
    | false =>
      rw [step] at hstep
      split at hstep
      · obtain rfl := Option.some.inj hstep
        exact h
      · obtain rfl := Option.some.inj hstep
        intro key hkey hprivate
        rcases List.mem_append.mp hkey with hkey | hkey
        · exact h key hkey hprivate
        · rw [List.mem_singleton] at hkey
          subst hkey
          exact absurd hprivate.1 (by simp)
  | importVault fps =>
    obtain rfl := Option.some.inj hstep
    intro key hkey hprivate
    rcases mem_foldl_importKey hkey with hkey | hkey
    · exact (h key hkey hprivate).imp_left (List.mem_append_left fps)
    · exact .inl (List.mem_append_right s.contained hkey)
  | annotate fp details now =>
    rw [step] at hstep
    split at hstep
    · obtain rfl := Option.some.inj hstep
      intro key hkey hprivate
      exact (h key hkey hprivate).imp_right fun hafter => hafter.upsertKey now fp details
    · cases hstep
  | delete fp =>
    rw [step] at hstep
    split at hstep
    · obtain rfl := Option.some.inj hstep
      intro key hkey hprivate
      obtain ⟨hkey, hne⟩ := List.mem_filter.mp hkey
      have hne : key.fingerprint ≠ fp := by simpa using hne
      exact (h key hkey hprivate).imp_right fun hafter => hafter.of_recordTime (recordTime_deleteKey hne s.records)
    · cases hstep
  | moveToCard fp =>
    obtain rfl := Option.some.inj hstep
    intro key hkey hprivate
    obtain ⟨before, hbefore, rfl⟩ := List.mem_map.mp hkey
    by_cases hfp : before.fingerprint = fp
    · rw [if_pos hfp] at hprivate
      cases hprivate.2
    · rw [if_neg hfp] at hprivate ⊢
      exact h before hbefore hprivate
  | exportVault fps refused row =>
    rw [step] at hstep
    split at hstep
    · obtain rfl := Option.some.inj hstep
      intro key hkey hprivate
      rcases h key hkey hprivate with hin | hafter
      · exact .inl (List.mem_append_left _ hin)
      · rcases hcareful key hkey hprivate with hin | hin | hlater
        · exact .inl (List.mem_append_left _ hin)
        · exact .inl (List.mem_append_right _ hin)
        · refine .inr fun r hr => ?_
          rcases List.mem_append.mp hr with hr | hr
          · exact hafter r hr
          · exact hlater r hr
    · cases hstep

/-- **In every careful history the reminder is shown whenever a private key is
in no vault.** -/
theorem shown_of_careful {s : Backups} (h : (histories.restrict Careful).Reachable s) :
    Unsaved s → s.reminder.isSome = true := by
  intro hunsaved
  have hinv : Remembered s := by
    refine h.inv (P := Remembered) ?_ ?_
    · rintro s ⟨hvaults, -⟩ key - -
      rw [hvaults]
      exact .inr fun row hrow => absurd hrow List.not_mem_nil
    · intro s e s' hs hstep
      exact remembered_step hs hstep.1 hstep.2
  exact hinv.reminder hunsaved

/-! ### Two histories -/

def sampleRow (timestamp : Str) : VaultRow where
  filename := lit "a.vault"
  keyCount := 1
  description := []
  creationTimestamp := timestamp

/-- A key is created and another one imported, both are exported, and then a
third one is created. -/
def savedThenCreated : List Event :=
  [.create (lit "A") {} none (some (lit "a", lit "2026-01-01T00:00:00Z")),
    .importArmored (lit "C") true,
    .exportVault [lit "A", lit "C"] [] (sampleRow (lit "2026-01-02T00:00:00Z")),
    .create (lit "B") {} none (some (lit "b", lit "2026-01-03T00:00:00Z"))]

/-- Two keys are created, and one of them is exported. -/
def halfSaved : List Event :=
  [.create (lit "A") {} none (some (lit "a", lit "2026-01-01T00:00:00Z")),
    .create (lit "B") {} none (some (lit "b", lit "2026-01-01T00:00:00Z")),
    .exportVault [lit "A"] [] (sampleRow (lit "2026-01-02T00:00:00Z"))]

/-- The last key is in no vault, and later than the one there is. -/
theorem shown_savedThenCreated : ∃ s, Unsaved s ∧ s.reminder.isSome = true := by
  have hrun : ((System.runLabels (System.guarded Careful step) {} savedThenCreated).any fun s => Unsaved s) = true := by
    decide +kernel
  obtain ⟨s, hs, hunsaved⟩ := (Option.any_eq_true _ _).mp hrun
  have hempty : (histories.restrict Careful).Reachable {} := .init ⟨rfl, rfl⟩
  have hreachable := System.reachable_restrict_of_runLabels _ hempty hs
  have hunsaved := of_decide_eq_true hunsaved
  exact ⟨s, hunsaved, shown_of_careful hreachable hunsaved⟩

/-- The second key is in no vault, but not later than the first one's. -/
theorem not_shown_halfSaved : ¬ ∀ s, histories.Reachable s → Unsaved s → s.reminder.isSome = true := by
  intro h
  have hrun : ((System.runLabels step {} halfSaved).any fun s => Unsaved s ∧ s.reminder.isSome = false) = true := by
    decide +kernel
  obtain ⟨s, hs, hlast⟩ := (Option.any_eq_true _ _).mp hrun
  obtain ⟨hunsaved, hnone⟩ := of_decide_eq_true hlast
  have hshown := h s (System.reachable_of_runLabels _ (.init ⟨rfl, rfl⟩) hs) hunsaved
  rw [hnone] at hshown
  cases hshown

end BackupReminder
end GpgMeister
