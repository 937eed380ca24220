/-
# The two listings of a keyring

`_to_key_info`, `_secret_storage` and `list_keys` of `services/gpg_service.py`,
over what GnuPG writes. The public listing does not say where a private half
is; that is taken from the secret listing, by the fingerprint.

* `agree_listKeys`: the public and the secret list agree on every key in both,
  and a key in the public list only is public only. User IDs may be any text:
  a line of one that is read as a record is read so in both listings.
-/
import GpgMeister.Lib.MapM
import GpgMeister.Services.Keyring
import GpgMeister.Services.ListingRows

namespace GpgMeister
namespace GPGService

open Program

variable {γ Time : Type}

namespace Inventory

/-! ### Rows -/

/-- `_trust_from_gpg` -/
def trustFromGpg (letter : Str) : TrustLevel :=
  ([(lit "u", .ultimate), (lit "f", .full), (lit "m", .marginal), (lit "n", .never), (lit "-", .unknown),
    (lit "q", .unknown), (lit "e", .unknown), (lit "r", .never)].lookup letter).getD .unknown

section Platform

variable (env : Platform γ Time)
/- `datetime.fromtimestamp(seconds, tz=UTC)` -/
variable (fromSeconds : ℤ → Except Exc Time)

/-- `int(text or 0)` -/
def intOrZero (text : Str) : Except Exc ℤ := if text = [] then .ok 0 else env.digits.int text

/-- `KeyInfo.fingerprint`: stripped, of this length, and then in upper case. -/
def keyFingerprint (raw : Str) : Except Exc Str :=
  let fingerprint := strip raw
  if fingerprint.length ≠ fingerprintLength then
    .error { cls := .validationError, message := lit "String should have 40 characters" }
  else
    match normaliseFingerprint fingerprint with
    | some fp => .ok fp
    | none => .error { cls := .validationError, message := lit "fingerprint must be 40 uppercase hex characters" }

/-- `KeyInfo.length` -/
def keyLength (length : ℤ) : Except Exc Unit :=
  if 0 < length then .ok ()
  else .error { cls := .validationError, message := lit "Input should be greater than 0" }

/-- `KeyInfo.created_at` -/
def keyCreated (created : ℤ) : Program (World γ Time) Exc Time :=
  if created ≠ 0 then Program.ofExcept (fromSeconds created) else utcNow

/-- `_to_key_info`. The model strips its texts. -/
def toKeyInfo (row : ColonsRow) : Program (World γ Time) Exc (KeyInfo Time) := do
  let created ← Program.ofExcept (intOrZero env row.date)
  let expires ← Program.ofExcept
    (if row.expires ≠ [] ∧ env.digits.isdigit row.expires = true then env.digits.int row.expires else .ok 0)
  let primary := tokenState row.tokenSn
  let length ← Program.ofExcept (intOrZero env row.length)
  let createdAt ← keyCreated fromSeconds created
  let expiresAt ← Program.ofExcept (if expires ≠ 0 then some <$> fromSeconds expires else .ok none)
  let fingerprint ← Program.ofExcept (keyFingerprint (row.fingerprint.getD []))
  Program.ofExcept (keyLength (if length = 0 then 2048 else length))
  return {
    fingerprint
    userIds := row.uids.map strip
    createdAt
    expiresAt
    isRevoked := row.trust = lit "r"
    hasPrivateKey := contains row.type (lit "sec")
    isStub := primary.2
    cardSerial := strip (orElse primary.1 row.cardSn)
    subkeyFingerprints := (row.subkeys.filter (· ≠ [])).map fun fpr => strip (env.upper fpr)
    trust := trustFromGpg (orElse (row.trust.take 1) (lit "-")) }

/-! ### Lists -/

/-- The command line of `list_keys` -/
def listArgs (secret : Bool) : List Str :=
  [lit "--with-colons", lit "--fingerprint", if secret then lit "--list-secret-keys" else lit "--list-keys"]

/-- The rows of a run. -/
def listRows (secret : Bool) (message : Str) : Program (World γ Time) Exc (List ColonsRow) := do
  let proc ← runGpg env (listArgs secret) none none false
  Program.ofExcept (requireOk proc message [0])
  return parseColonsKeys proc.stdout

/-- `_secret_storage`, without the fingerprints that are its keys; of two with
one fingerprint the last counts. -/
def secretStorage : Program (World γ Time) Exc (List (KeyInfo Time)) := do
  let rows ← listRows env true (lit "failed to list secret keys")
  rows.mapM (toKeyInfo env fromSeconds)

/-- `secret_keys.get(fingerprint)` -/
def storedSecret (secretKeys : List (KeyInfo Time)) (fingerprint : Str) : Option (KeyInfo Time) :=
  secretKeys.reverse.find? (·.fingerprint = fingerprint)

/-- What the secret listing says about a key of the public one. -/
def withSecret (secretKeys : List (KeyInfo Time)) (info : KeyInfo Time) : KeyInfo Time :=
  match storedSecret secretKeys info.fingerprint with
  | some secretInfo =>
    { info with hasPrivateKey := true, isStub := secretInfo.isStub, cardSerial := secretInfo.cardSerial }
  | none => info

/-- `list_keys` -/
def listKeys (secret : Bool) : Program (World γ Time) Exc (List (KeyInfo Time)) := do
  let rows ← listRows env secret (if secret then lit "failed to list secret keys" else lit "failed to list keys")
  if secret then
    rows.mapM fun row => do
      let info ← toKeyInfo env fromSeconds row
      return { info with hasPrivateKey := true }
  else do
    let secretKeys ← secretStorage env fromSeconds
    rows.mapM fun row => do
      let info ← toKeyInfo env fromSeconds row
      return withSecret secretKeys info

end Platform

/-! ### The key of a row -/

theorem forall₂_exists {α β β' : Type} {R : α → β → Prop} {R' : β → β' → Prop} : ∀ {l : List α} {l' : List β'},
    List.Forall₂ (fun a c => ∃ b, R a b ∧ R' b c) l l' → ∃ m, List.Forall₂ R l m ∧ List.Forall₂ R' m l'
  | _, _, .nil => ⟨[], .nil, .nil⟩
  | _, _, .cons ⟨b, hb, hb'⟩ hs => by
    obtain ⟨m, hm, hm'⟩ := forall₂_exists hs
    exact ⟨b :: m, .cons hb hm, .cons hb' hm'⟩

theorem forall₂_trans {α β β' : Type} {R : α → β → Prop} {R' : β → β' → Prop} : ∀ {l : List α} {m : List β}
    {l' : List β'}, List.Forall₂ R l m → List.Forall₂ R' m l' → List.Forall₂ (fun a c => ∃ b, R a b ∧ R' b c) l l'
  | _, _, _, .nil, .nil => .nil
  | _, _, _, .cons h hs, .cons h' hs' => .cons ⟨_, h, h'⟩ (forall₂_trans hs hs')

section Made

variable {env : Platform γ Time} {fromSeconds : ℤ → Except Exc Time} {s : Stores γ}

/-- What `_to_key_info` takes from a row. -/
structure Made (env : Platform γ Time) (row : ColonsRow) (info : KeyInfo Time) : Prop where
  fingerprint : keyFingerprint (row.fingerprint.getD []) = .ok info.fingerprint
  hasPrivateKey : info.hasPrivateKey = contains row.type (lit "sec")
  isStub : info.isStub = (tokenState row.tokenSn).2
  cardSerial : info.cardSerial = strip (orElse (tokenState row.tokenSn).1 row.cardSn)
  subkeys : info.subkeyFingerprints = (row.subkeys.filter (· ≠ [])).map fun fpr => strip (env.upper fpr)

theorem ensures_toKeyInfo (row : ColonsRow) :
    Ensures (toKeyInfo env fromSeconds row) s (fun info s' => s = s' ∧ Made env row info) fun _ _ => True := by
  have hstep {α : Type} (r : Except Exc α) : Ensures (Program.ofExcept r : Program (World γ Time) Exc α) s
      (fun a s' => s = s' ∧ r = .ok a) fun _ _ => True := .ofExcept (fun _ h => ⟨rfl, h⟩) fun _ _ => trivial
  unfold toKeyInfo
  dsimp only
  apply (hstep _).bind
  rintro created s' ⟨rfl, -⟩
  apply (hstep _).bind
  rintro expires s' ⟨rfl, -⟩
  apply (hstep _).bind
  rintro length s' ⟨rfl, -⟩
  have hcreated : Ensures (keyCreated fromSeconds created) s (fun _ s' => s = s') fun _ _ => True := by
    unfold keyCreated
    split_ifs
    · exact (hstep _).mono (fun _ _ h => h.1) fun _ _ h => h
    · exact .of_keeps steady_stores.utcNow (fun _ => rfl) fun _ => trivial
  apply hcreated.bind
  rintro createdAt s' rfl
  apply (hstep _).bind
  rintro expiresAt s' ⟨rfl, -⟩
  apply (hstep _).bind
  rintro fingerprint s' ⟨rfl, hfingerprint⟩
  apply (hstep _).bind
  rintro _ s' ⟨rfl, -⟩
  exact .pure ⟨rfl, hfingerprint, rfl, rfl, rfl, rfl⟩

theorem ensures_mapM {α β : Type} {g : α → Program (World γ Time) Exc β} {R : α → β → Prop}
    (hg : ∀ a, Ensures (g a) s (fun b s' => s = s' ∧ R a b) fun _ _ => True) :
    ∀ l : List α, Ensures (l.mapM g) s (fun bs s' => s = s' ∧ List.Forall₂ R l bs) fun _ _ => True
  | [] => by
    rw [List.mapM_nil]
    exact .pure ⟨rfl, .nil⟩
  | a :: l => by
    rw [List.mapM_cons]
    apply (hg a).bind
    rintro b s' ⟨rfl, hb⟩
    apply (ensures_mapM hg l).bind
    rintro bs s' ⟨rfl, hbs⟩
    exact .pure ⟨rfl, .cons hb hbs⟩

end Made

/-! ### The key of a block -/

/-- What is made of the row of a block. -/
def KeyOf (env : Platform γ Time) (b : KeyBlock) (info : KeyInfo Time) : Prop :=
  ∃ row rest, b.rows = row :: rest ∧ b.First row ∧ Made env row info

section KeyOf

variable {env : Platform γ Time}

theorem length_strip_le (s : Str) : (strip s).length ≤ s.length := by
  have h1 := (List.rdropWhile_prefix isSpace (l := s.dropWhile isSpace)).length_le
  have h2 := (List.dropWhile_suffix isSpace (l := s)).length_le
  exact h1.trans h2

/-- What is shorter than a fingerprint is refused. -/
theorem keyFingerprint_ne_ok_of_isUpdate {v fp : Str} (h : IsUpdate v) : keyFingerprint v ≠ .ok fp := by
  have hlen : (strip v).length ≠ fingerprintLength := by
    have hle := length_strip_le v
    have hlt : v.length < fingerprintLength := h
    omega
  rw [keyFingerprint, if_pos hlen]
  simp

/-- Digits and upper-case letters are stored as they are. -/
theorem eq_of_keyFingerprint {v fp : Str} (hv : v.all (· ∈ fingerprintChars) = true) (h : keyFingerprint v = .ok fp) :
    fp = v := by
  have hspace : ∀ c ∈ v, isSpace c = false := by
    have hall : fingerprintChars.all (fun c => ! isSpace c) = true := by decide
    intro c hc
    have hmem := of_decide_eq_true (List.all_eq_true.mp hv c hc)
    simpa using List.all_eq_true.mp hall c hmem
  rw [keyFingerprint, strip_of_noSpace hspace] at h
  split_ifs at h with hlen
  rw [normalise_of_isFingerprint ⟨not_not.mp hlen, hv⟩] at h
  exact (Except.ok.inj h).symm

/-- In a listing in which every row is a key, the rows are those of the keys. -/
theorem forall₂_keyOf : ∀ {blocks : List KeyBlock} {infos : List (KeyInfo Time)}, (∀ b ∈ blocks, b.IsListed) →
    List.Forall₂ (Made env) ((blocks.flatMap KeyBlock.rows).filter fun row => row.fingerprint.getD [] ≠ []) infos →
      List.Forall₂ (KeyOf env) blocks infos
  | [], infos, _, h => by
    rw [List.flatMap_nil, List.filter_nil] at h
    cases h
    exact .nil
  | b :: blocks, infos, hblocks, h => by
    obtain ⟨hb, hblocks⟩ := List.forall_mem_cons.mp hblocks
    obtain ⟨-, first, rest, hrows, hfirst, hjunk⟩ := inBlock_lines hb
    have hrows : b.rows = first :: rest := hrows
    have hkept : (decide (first.fingerprint.getD [] ≠ [])) = true := by
      rw [hfirst.fingerprint]
      exact decide_eq_true b.fingerprint_ne
    -- A row of nothing would have been refused.
    have hnone : rest.filter (fun row => row.fingerprint.getD [] ≠ []) = [] := by
      refine List.filter_eq_nil_iff.mpr fun row hrow hne => ?_
      have hmem : row ∈ ((b :: blocks).flatMap KeyBlock.rows).filter fun row => row.fingerprint.getD [] ≠ [] := by
        refine List.mem_filter.mpr ⟨?_, hne⟩
        rw [List.flatMap_cons, hrows]
        exact List.mem_append_left _ (List.mem_cons_of_mem first hrow)
      obtain ⟨info, -, hmade⟩ := exists_of_mem_left h hmem
      cases hv : row.fingerprint with
      | none => simp [hv] at hne
      | some v =>
        have hok := hmade.fingerprint
        rw [hv] at hok
        exact keyFingerprint_ne_ok_of_isUpdate (hjunk row hrow v hv) hok
    rw [List.flatMap_cons, hrows, List.filter_append, List.filter_cons, if_pos hkept, hnone, List.singleton_append] at h
    cases h with
    | cons hmade h => exact .cons ⟨first, rest, hrows, hfirst, hmade⟩ (forall₂_keyOf hblocks h)

namespace KeyOf

variable {b q : KeyBlock} {info info' : KeyInfo Time}

theorem fingerprint (h : KeyOf env b info) (hb : b.fpr.value.all (· ∈ fingerprintChars) = true) :
    info.fingerprint = b.fpr.value := by
  obtain ⟨row, rest, -, hfirst, hmade⟩ := h
  have hok := hmade.fingerprint
  rw [hfirst.fingerprint] at hok
  exact eq_of_keyFingerprint hb hok

/-- The blocks of one key in two listings have the same subkeys. -/
theorem subkeys (h : KeyOf env b info) (h' : KeyOf env q info') (hbq : b.Twin q) :
    info.subkeyFingerprints = info'.subkeyFingerprints := by
  obtain ⟨row, rest, hrows, -, hmade⟩ := h
  obtain ⟨row', rest', hrows', -, hmade'⟩ := h'
  have hview := map_view_rows hbq.view
  rw [← KeyBlock.rows, ← KeyBlock.rows, hrows, hrows', List.map_cons, List.map_cons] at hview
  have hsub : row.subkeys = row'.subkeys := congrArg Prod.snd (List.cons.inj hview).1
  rw [hmade.subkeys, hmade'.subkeys, hsub]

/-- Where the private half is, is said by the block. -/
theorem token (h : KeyOf env b info) (h' : KeyOf env b info') :
    info.isStub = info'.isStub ∧ info.cardSerial = info'.cardSerial := by
  obtain ⟨row, rest, hrows, -, hmade⟩ := h
  obtain ⟨row', rest', hrows', -, hmade'⟩ := h'
  obtain ⟨rfl, -⟩ := List.cons.inj (hrows.symm.trans hrows')
  exact ⟨hmade.isStub.trans hmade'.isStub.symm, hmade.cardSerial.trans hmade'.cardSerial.symm⟩

/-- A block of the public listing does not know a private half. -/
theorem isPublic (h : KeyOf env b info) (hb : b.IsPublic) :
    info.hasPrivateKey = false ∧ info.isStub = false ∧ info.cardSerial = [] := by
  obtain ⟨row, rest, -, hfirst, hmade⟩ := h
  refine ⟨?_, ?_, ?_⟩
  · rw [hmade.hasPrivateKey, hfirst.type, hb.tag]
    decide
  · rw [hmade.isStub, hfirst.tokenSn, hb.token, tokenState_nil]
  · rw [hmade.cardSerial, hfirst.tokenSn, hb.token, tokenState_nil, hfirst.cardSn hb]
    decide

end KeyOf
end KeyOf

/-! ### The lists -/

/-- The public and the secret listing of one keyring: the blocks of a key in
both differ in their tags, and in what they say about tokens. -/
structure Listings (P S : KeyListing) : Prop where
  isListed : ∀ b ∈ P.blocks ++ S.blocks, b.IsListed
  isHex : ∀ b ∈ P.blocks ++ S.blocks, b.fpr.value.all (· ∈ fingerprintChars) = true
  isPublic : ∀ b ∈ P.blocks, b.IsPublic
  isSecret : ∀ b ∈ S.blocks, b.tag = lit "sec"
  distinct : (S.blocks.map fun b => b.fpr.value).Nodup
  twins : ∀ b ∈ P.blocks, ∀ q ∈ S.blocks, b.fpr.value = q.fpr.value → b.Twin q

end Inventory
end GPGService

/-- GnuPG lists its keyring, and does not change it. -/
structure GnuPG.ShowsListings {γ Time : Type} (gpg : GnuPG γ Time) (P S : γ → GPGService.KeyListing) : Prop where
  listings : ∀ g, GPGService.Inventory.Listings (P g) (S g)
  shows : ∀ secret g out g', gpg.popen (GPGService.Inventory.listArgs secret) none none g = (.ok out, g') →
    out.returncode = 0 → Gpg.decodeOutput out.stdout = (if secret then S g else P g).text ∧ P g' = P g ∧ S g' = S g

namespace GPGService
namespace Inventory

section Lists

variable {env : Platform γ Time} {fromSeconds : ℤ → Except Exc Time} {s : Stores γ} {P S : γ → KeyListing}

theorem ensures_listRows (hgpg : env.gpg.ShowsListings P S) (secret : Bool) (message : Str) :
    Ensures (listRows env secret message) s
      (fun rows s' => P s'.gnupg = P s.gnupg ∧ S s'.gnupg = S s.gnupg ∧
        ∃ data, Gpg.decodeOutput data = (if secret then S s.gnupg else P s.gnupg).text ∧ rows = parseColonsKeys data)
      fun _ _ => True := by
  unfold listRows
  apply Ensures.bind (ensures_runGpg (Q := fun proc s' => ∃ out g',
    env.gpg.popen (listArgs secret) none none s.gnupg = (.ok out, g') ∧ s' = { s with gnupg := g' } ∧
      proc.returncode = out.returncode ∧ proc.stdout = out.stdout) (fun _ => trivial) ?_ fun _ _ _ => trivial)
  · rintro proc _ ⟨out, g', hpopen, rfl, hcode, hout⟩
    apply Ensures.bind (Q := fun _ s' => s' = { s with gnupg := g' } ∧ out.returncode = 0)
      (.ofExcept (fun _ hok => ⟨rfl, ?_⟩) fun _ _ => trivial)
    · rintro _ _ ⟨rfl, hzero⟩
      obtain ⟨htext, hP, hS⟩ := hgpg.shows secret _ out g' hpopen hzero
      exact .pure ⟨hP, hS, proc.stdout, by rw [hout, htext], rfl⟩
    · by_contra hne
      rw [requireOk, hcode, if_pos (by simpa using hne)] at hok
      cases hok
  · intro out g' hpopen
    exact ⟨out, g', hpopen, rfl, rfl, rfl⟩

/-- The keys of a listing. -/
theorem ensures_keys {L : KeyListing} (hL : ∀ b ∈ L.blocks, b.IsListed) {data : Bytes}
    (hdata : Gpg.decodeOutput data = L.text) {R : KeyInfo Time → KeyInfo Time → Prop}
    {g : ColonsRow → Program (World γ Time) Exc (KeyInfo Time)}
    (hg : ∀ row, Ensures (g row) s (fun info s' => s = s' ∧ ∃ made, Made env row made ∧ R made info) fun _ _ => True) :
    Ensures ((parseColonsKeys data).mapM g) s
      (fun infos s' => s = s' ∧ List.Forall₂ (fun b info => ∃ made, KeyOf env b made ∧ R made info) L.blocks infos)
      fun _ _ => True := by
  refine (ensures_mapM hg _).mono (fun infos s' h => ⟨h.1, ?_⟩) fun _ _ h => h
  obtain ⟨mades, hmades, hR⟩ := forall₂_exists h.2
  rw [parseColonsKeys_eq hdata] at hmades
  exact forall₂_trans (forall₂_keyOf hL hmades) hR

/-- A row, and what is done with its key. -/
theorem ensures_toKeyInfo_then (f : KeyInfo Time → KeyInfo Time) (row : ColonsRow) :
    Ensures (do
      let info ← toKeyInfo env fromSeconds row
      return f info) s (fun info s' => s = s' ∧ ∃ made, Made env row made ∧ info = f made) fun _ _ => True := by
  apply (ensures_toKeyInfo row).bind
  rintro made s' ⟨rfl, hmade⟩
  exact .pure ⟨rfl, made, hmade, rfl⟩

theorem ensures_secretStorage (hgpg : env.gpg.ShowsListings P S) :
    Ensures (secretStorage env fromSeconds) s (fun stored _ => List.Forall₂ (KeyOf env) (S s.gnupg).blocks stored)
      fun _ _ => True := by
  have hL := (hgpg.listings s.gnupg).isListed
  apply (ensures_listRows hgpg true _).bind
  rintro rows s' ⟨-, -, data, hdata, rfl⟩
  refine (ensures_mapM ensures_toKeyInfo _).mono (fun stored _ h => ?_) fun _ _ h => h
  rw [parseColonsKeys_eq hdata] at h
  exact forall₂_keyOf (fun b hb => hL b (List.mem_append_right _ hb)) h.2

theorem ensures_listKeys_secret (hgpg : env.gpg.ShowsListings P S) :
    Ensures (listKeys env fromSeconds true) s
      (fun infos _ => List.Forall₂ (fun b info => ∃ made, KeyOf env b made ∧ info = { made with hasPrivateKey := true })
        (S s.gnupg).blocks infos) fun _ _ => True := by
  have hL := (hgpg.listings s.gnupg).isListed
  apply (ensures_listRows hgpg true _).bind
  rintro rows s' ⟨-, -, data, hdata, rfl⟩
  refine (ensures_keys (fun b hb => hL b (List.mem_append_right _ hb)) hdata
    (ensures_toKeyInfo_then fun info => { info with hasPrivateKey := true })).mono (fun infos _ h => h.2) fun _ _ h => h

theorem ensures_listKeys_public (hgpg : env.gpg.ShowsListings P S) :
    Ensures (listKeys env fromSeconds false) s
      (fun infos _ => ∃ stored, List.Forall₂ (KeyOf env) (S s.gnupg).blocks stored ∧
        List.Forall₂ (fun b info => ∃ made, KeyOf env b made ∧ info = withSecret stored made) (P s.gnupg).blocks infos)
      fun _ _ => True := by
  have hL := (hgpg.listings s.gnupg).isListed
  apply (ensures_listRows hgpg false _).bind
  rintro rows s' ⟨-, hS, data, hdata, rfl⟩
  apply (ensures_secretStorage hgpg).bind
  rintro stored s'' hstored
  rw [hS] at hstored
  refine (ensures_keys (fun b hb => hL b (List.mem_append_left _ hb)) hdata
    (ensures_toKeyInfo_then (withSecret stored))).mono (fun infos _ h => ⟨stored, hstored, h.2⟩) fun _ _ h => h

/-- The lists agree on the keys in both, and say of the others that they are
public only. -/
structure Agree (publicKeys secretKeys : List (KeyInfo Time)) : Prop where
  both : ∀ key ∈ publicKeys, ∀ key' ∈ secretKeys, key.fingerprint = key'.fingerprint →
    key.subkeyFingerprints = key'.subkeyFingerprints ∧ key.hasPrivateKey = key'.hasPrivateKey ∧
      key.isStub = key'.isStub ∧ key.cardSerial = key'.cardSerial ∧ key.storage = key'.storage
  publicOnly : ∀ key ∈ publicKeys, (∀ key' ∈ secretKeys, key'.fingerprint ≠ key.fingerprint) →
    key.hasPrivateKey = false ∧ key.isStub = false ∧ key.storage = .publicOnly

theorem storage_congr {key key' : KeyInfo Time} (h1 : key.hasPrivateKey = key'.hasPrivateKey)
    (h2 : key.isStub = key'.isStub) (h3 : key.cardSerial = key'.cardSerial) : key.storage = key'.storage := by
  rw [KeyInfo.storage, KeyInfo.storage, h1, h2, h3]

theorem fingerprint_withSecret (stored : List (KeyInfo Time)) (info : KeyInfo Time) :
    (withSecret stored info).fingerprint = info.fingerprint := by
  unfold withSecret
  split <;> rfl

/-- Where a key is stored is said by its block, and by no other. -/
theorem storedSecret_eq_some {S : KeyListing} (hdistinct : (S.blocks.map fun b => b.fpr.value).Nodup)
    (hhex : ∀ b ∈ S.blocks, b.fpr.value.all (· ∈ fingerprintChars) = true) {stored : List (KeyInfo Time)}
    (hstored : List.Forall₂ (KeyOf env) S.blocks stored) {q : KeyBlock} (hq : q ∈ S.blocks) :
    ∃ info, storedSecret stored q.fpr.value = some info ∧ KeyOf env q info := by
  obtain ⟨x, hx, hxq⟩ := exists_of_mem_left hstored hq
  have hsome : (storedSecret stored q.fpr.value).isSome = true := by
    rw [storedSecret, List.find?_isSome]
    exact ⟨x, List.mem_reverse.mpr hx, decide_eq_true (hxq.fingerprint (hhex q hq))⟩
  obtain ⟨info, hinfo⟩ := Option.isSome_iff_exists.mp hsome
  have hfind := hinfo
  rw [storedSecret] at hfind
  have hfp := List.find?_some hfind
  rw [decide_eq_true_eq] at hfp
  obtain ⟨q', hq', hkey⟩ := exists_of_mem_right hstored (List.mem_reverse.mp (List.mem_of_find?_eq_some hfind))
  have hvalue : q'.fpr.value = q.fpr.value := (hkey.fingerprint (hhex q' hq')).symm.trans hfp
  obtain rfl := List.inj_on_of_nodup_map hdistinct hq' hq hvalue
  exact ⟨info, hinfo, hkey⟩

/-- A key that is not in the secret listing is stored nowhere. -/
theorem storedSecret_eq_none {S : KeyListing} (hhex : ∀ b ∈ S.blocks, b.fpr.value.all (· ∈ fingerprintChars) = true)
    {stored : List (KeyInfo Time)} (hstored : List.Forall₂ (KeyOf env) S.blocks stored) {fp : Str}
    (h : ∀ q ∈ S.blocks, q.fpr.value ≠ fp) : storedSecret stored fp = none := by
  rw [storedSecret, List.find?_eq_none]
  intro info hinfo hfp
  obtain ⟨q, hq, hkey⟩ := exists_of_mem_right hstored (List.mem_reverse.mp hinfo)
  exact h q hq ((hkey.fingerprint (hhex q hq)).symm.trans (of_decide_eq_true hfp))

/-- **The public and the secret list of a keyring agree**, whatever the text of
the user IDs. -/
theorem agree_listKeys (hgpg : env.gpg.ShowsListings P S) {w w' w1 w2 : World γ Time}
    {publicKeys secretKeys : List (KeyInfo Time)} (hS : S w'.gnupg = S w.gnupg)
    (hpublic : (listKeys env fromSeconds false).run w = .ok publicKeys w1)
    (hsecret : (listKeys env fromSeconds true).run w' = .ok secretKeys w2) : Agree publicKeys secretKeys := by
  have hL := hgpg.listings w.gnupg
  have hhexP : ∀ b ∈ (P w.gnupg).blocks, b.fpr.value.all (· ∈ fingerprintChars) = true := fun b hb =>
    hL.isHex b (List.mem_append_left _ hb)
  have hhexS : ∀ b ∈ (S w.gnupg).blocks, b.fpr.value.all (· ∈ fingerprintChars) = true := fun b hb =>
    hL.isHex b (List.mem_append_right _ hb)
  obtain ⟨stored, hstored, hinfos⟩ := (ensures_listKeys_public hgpg).of_run_eq_ok hpublic
  have hsecrets := (ensures_listKeys_secret hgpg).of_run_eq_ok hsecret
  rw [show S w'.stores.gnupg = S w.gnupg from hS] at hsecrets
  constructor
  · intro key hkey key' hkey' hfp
    obtain ⟨b, hb, made, hmade, rfl⟩ := exists_of_mem_right hinfos hkey
    obtain ⟨q, hq, made', hmade', rfl⟩ := exists_of_mem_right hsecrets hkey'
    rw [fingerprint_withSecret] at hfp
    have hq' : made'.fingerprint = q.fpr.value := hmade'.fingerprint (hhexS q hq)
    have hbq : b.fpr.value = q.fpr.value := ((hmade.fingerprint (hhexP b hb)).symm.trans hfp).trans hq'
    obtain ⟨info, hinfo, hkey⟩ := storedSecret_eq_some hL.distinct hhexS hstored hq
    rw [← hq', ← hfp] at hinfo
    obtain ⟨hstub, hserial⟩ := hkey.token hmade'
    have hsubkeys := hmade.subkeys hmade' (hL.twins b hb q hq hbq)
    rw [withSecret, hinfo]
    exact ⟨hsubkeys, rfl, hstub, hserial, storage_congr rfl hstub hserial⟩
  · intro key hkey hnone
    obtain ⟨b, hb, made, hmade, rfl⟩ := exists_of_mem_right hinfos hkey
    rw [fingerprint_withSecret] at hnone
    have hstored : storedSecret stored made.fingerprint = none := by
      refine storedSecret_eq_none hhexS hstored fun q hq he => ?_
      obtain ⟨key', hkey', made', hmade', rfl⟩ := exists_of_mem_left hsecrets hq
      exact hnone _ hkey' ((hmade'.fingerprint (hhexS q hq)).trans he)
    obtain ⟨hprivate, hstub, hserial⟩ := hmade.isPublic (hL.isPublic b hb)
    rw [withSecret, hstored]
    refine ⟨hprivate, hstub, ?_⟩
    rw [KeyInfo.storage, hserial, hstub, hprivate]
    rfl

end Lists

/-! ### A key on disk with a subkey on a card -/

theorem isField_subkey : IsField (bareRecord (lit "BB")).value := isField_of_all (by decide)

/-- The block of the key, in either listing. -/
def sampleBlock (secret : Bool) : KeyBlock where
  tag := if secret then lit "sec" else lit "pub"
  fields := if secret then List.replicate 13 [] ++ [lit "+"] else []
  fpr := bareRecord (List.replicate 40 (codePoint 'A'))
  items :=
    [.uid (bareRecord (lit "Ann")) (isUidText_of_all (by decide)),
      .subkey
        { tag := if secret then lit "ssb" else lit "sub"
          fields := if secret then List.replicate 13 [] ++ [lit "0006"] else []
          fpr := bareRecord (lit "BB")
          tag_mem := by cases secret <;> decide
          isField := by
            have htoken : IsField (lit "0006") := isField_of_all (by decide)
            have hnil : IsField [] := isField_of_all rfl
            cases secret <;> simp [htoken, hnil]
          isFingerprint := isField_subkey }]
  tag_mem := by cases secret <;> decide
  isField := by
    have htoken : IsField (lit "+") := isField_of_all (by decide)
    have hnil : IsField [] := isField_of_all rfl
    cases secret <;> simp [htoken, hnil]
  isFingerprint := isField_of_all (by decide)
  fingerprint_ne := by decide

def sampleListing (secret : Bool) : KeyListing := { preamble := [], blocks := [sampleBlock secret] }

def sampleOutput (secret : Bool) : Bytes :=
  ascii (if secret then "sec::::::::::::::+\nfpr:::::::::" else "pub\nfpr:::::::::") ++ List.replicate 40 0x41 ++
    ascii "\nuid:::::::::Ann\n" ++ ascii (if secret then "ssb::::::::::::::0006" else "sub") ++
    ascii "\nfpr:::::::::BB\n"

def listingGnuPG : GnuPG Unit Unit where
  baseCmd := [lit "gpg"]
  pipes _ := (lit "3", lit "4")
  popen args _ _ g := (.ok { returncode := 0, stdout := sampleOutput (args = listArgs true) }, g)
  listKeys _ g := (.ok [], g)
  editor _ g := (.error { cls := .osError, message := [] }, g)

theorem listings_sample : Listings (sampleListing false) (sampleListing true) where
  isListed b hb r h hr := by
    have hblock : b = sampleBlock false ∨ b = sampleBlock true := by simpa [sampleListing] using hb
    have hr : r = bareRecord (lit "Ann") := by
      rcases hblock with rfl | rfl <;> simpa [sampleBlock] using hr
    subst hr
    exact ⟨Nat.zero_le 11, Nat.zero_lt_succ 39⟩
  isHex b hb := by
    have hblock : b = sampleBlock false ∨ b = sampleBlock true := by simpa [sampleListing] using hb
    rcases hblock with rfl | rfl <;> decide
  isPublic b hb := by
    obtain rfl : b = sampleBlock false := by simpa [sampleListing] using hb
    refine ⟨rfl, rfl, fun k hk => ?_⟩
    have hk := (List.mem_cons.mp hk).resolve_left (by simp)
    rw [KeyItem.subkey.inj (List.mem_singleton.mp hk)]
    rfl
  isSecret b hb := by
    obtain rfl : b = sampleBlock true := by simpa [sampleListing] using hb
    rfl
  distinct := by simp [sampleListing]
  twins b hb q hq _ := by
    obtain rfl : b = sampleBlock false := by simpa [sampleListing] using hb
    obtain rfl : q = sampleBlock true := by simpa [sampleListing] using hq
    exact ⟨rfl, rfl⟩

theorem showsListings_sample : listingGnuPG.ShowsListings (fun _ => sampleListing false) fun _ => sampleListing true where
  listings _ := listings_sample
  shows secret g out g' h _ := by
    obtain rfl := Except.ok.inj (Prod.mk.inj h).1
    refine ⟨?_, rfl, rfl⟩
    cases secret <;> decide +kernel

theorem agree_listKeys_sample : ∃ publicKeys secretKeys : List (KeyInfo Unit), Agree publicKeys secretKeys ∧
    publicKeys.map KeyInfo.storage = [.smartcard] := by
  have hpublic : Program.returns (fun keys _ => keys.map KeyInfo.storage = [.smartcard])
      (listKeys (samplePlatform listingGnuPG) (fun _ => .ok ()) false) (sampleWorld () fun _ => none) = true := by
    decide +kernel
  have hsecret : Program.returns (fun _ _ => true) (listKeys (samplePlatform listingGnuPG) (fun _ => .ok ()) true)
      (sampleWorld () fun _ => none) = true := by
    decide +kernel
  obtain ⟨publicKeys, w1, h1, hstorage⟩ := Program.returns_eq_true.mp hpublic
  obtain ⟨secretKeys, w2, h2, -⟩ := Program.returns_eq_true.mp hsecret
  exact ⟨publicKeys, secretKeys, agree_listKeys showsListings_sample rfl h1 h2, of_decide_eq_true hstorage⟩

end Inventory
end GPGService
end GpgMeister
