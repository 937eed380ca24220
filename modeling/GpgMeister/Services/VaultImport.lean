/-
# Importing the keys of a vault

`import_keys` imports the blob of every selected entry and removes what the
blob has brought besides the entry's own key, whether that key was there
before, or came with an entry of its own.

* `ensures_importOpened`: what an import makes of the keyring.
* `safe_iff_putBack`: exactly when an import loses no key.
-/
import GpgMeister.Lib.Latch
import GpgMeister.Services.Keyring

namespace GpgMeister

/-! ### The keyring along the entries -/

namespace Keyring

/- The keys in the blob of each entry. -/
variable (contents : Str → Keyring)

/-- An entry is imported, and what came besides its key is removed. -/
def importEntry (K : Keyring) (fp : Str) : Keyring := fun k =>
  if k = fp then K.add (contents fp) k else if contents fp k = none then K k else none

def importEntries (K : Keyring) (fps : List Str) : Keyring := fps.foldl (importEntry contents) K

/-- The key is there, with its secret half if that is asked for. -/
def covers (secret : Bool) (o : Option Bool) : Bool := o.any fun b => ! secret || b

/-- The entry brings the key. -/
def brings (k : Str) (secret : Bool) (fp : Str) : Bool := fp = k && covers secret (contents k k)

/-- The entry removes the key. -/
def removes (k fp : Str) : Bool := fp ≠ k && (contents fp k).isSome

theorem covers_importEntry (K : Keyring) (fp k : Str) (secret : Bool) :
    covers secret (importEntry contents K fp k) =
      if brings contents k secret fp then true
      else if removes contents k fp then false
      else covers secret (K k) := by
  unfold importEntry brings removes
  by_cases hk : k = fp
  · subst hk
    cases hc : contents k k with
    | none => simp [add, hc, covers]
    | some b =>
      cases hK : K k with
      | none => cases b <;> cases secret <;> simp [add, hc, hK, covers]
      | some c => cases b <;> cases c <;> cases secret <;> simp [add, hc, hK, covers]
  · have hk' : fp ≠ k := fun h => hk h.symm
    cases hc : contents fp k with
    | none => simp [hk, hk']
    | some b => simp [hk, hk', covers]

/-- Whether a key is there is a latch. -/
theorem covers_importEntries (k : Str) (secret : Bool) : ∀ (fps : List Str) (K : Keyring),
    covers secret (importEntries contents K fps k) =
      latch (brings contents k secret) (removes contents k) (covers secret (K k)) fps
  | [], _ => rfl
  | fp :: fps, K => by
    have ih := covers_importEntries k secret fps (importEntry contents K fp)
    rw [covers_importEntry] at ih
    exact ih

/-- Nothing new is there but keys of the entries. -/
theorem mem_of_importEntries {k : Str} : ∀ {fps : List Str} {K : Keyring}, K k = none →
    importEntries contents K fps k ≠ none → k ∈ fps
  | [], _, h, h' => absurd h h'
  | fp :: fps, K, h, h' => by
    by_cases hk : k = fp
    · simp [hk]
    · have hnone : importEntry contents K fp k = none := by simp [importEntry, hk, h]
      exact List.mem_cons_of_mem _ (mem_of_importEntries hnone h')

theorem covers_false {o : Option Bool} : covers false o = true ↔ o ≠ none := by
  cases o <;> simp [covers]

theorem covers_self {b : Bool} : covers b (some b) = true := by
  cases b <;> rfl

/-! ### What an import should do -/

/-- No key is lost, none is there that was not selected, and what is reported
is there. -/
structure Safe (before after : Keyring) (selection imported : List Str) : Prop where
  kept : ∀ k secret, before k = some secret → covers secret (after k) = true
  wanted : ∀ k, before k = none → after k ≠ none → k ∈ selection
  landed : ∀ k ∈ imported, after k ≠ none

/-- A key that comes with the entry of another is put back by a later entry of
its own: if it was there before, with the half that was there; if it has been
or will be reported, at all. -/
structure PutBack (before : Keyring) (selection : List Str) : Prop where
  kept : ∀ earlier fp later k secret, selection = earlier ++ fp :: later → k ≠ fp → contents fp k ≠ none →
    before k = some secret → k ∈ later ∧ covers secret (contents k k) = true
  landed : ∀ earlier fp later k, selection = earlier ++ fp :: later → k ≠ fp → contents fp k ≠ none →
    k ∈ selection → contents k k ≠ none → k ∈ later

theorem madeGood_iff {k : Str} {secret : Bool} {fps : List Str} :
    MadeGood (brings contents k secret) (removes contents k) fps ↔
      ∀ earlier fp later, fps = earlier ++ fp :: later → k ≠ fp → contents fp k ≠ none →
        k ∈ later ∧ covers secret (contents k k) = true := by
  have hbrings (later : List Str) : (∃ y ∈ later, brings contents k secret y = true) ↔
      k ∈ later ∧ covers secret (contents k k) = true := by
    simp [brings]
  unfold MadeGood
  refine forall_congr' fun earlier => forall_congr' fun fp => forall_congr' fun later => imp_congr_right fun _ => ?_
  rw [hbrings]
  constructor
  · intro h hk hc
    have hr : removes contents k fp = true := by
      simpa [removes, Option.isSome_iff_ne_none, hc] using fun he => hk he.symm
    rcases h hr with hb | hb
    · simp only [brings, Bool.and_eq_true, decide_eq_true_eq] at hb
      exact absurd hb.1.symm hk
    · exact hb
  · intro h hr
    simp only [removes, Bool.and_eq_true, decide_eq_true_eq, Option.isSome_iff_ne_none] at hr
    exact .inr (h (fun he => hr.1 he.symm) hr.2)

theorem safe_importEntries_iff {before : Keyring} {selection imported : List Str}
    (himported : ∀ k, k ∈ imported ↔ k ∈ selection ∧ contents k k ≠ none) :
    Safe before (importEntries contents before selection) selection imported ↔
      PutBack contents before selection := by
  have hlatch (k : Str) (secret : Bool)
      (h : covers secret (before k) = true ∨ ∃ y ∈ selection, brings contents k secret y = true) :
      covers secret (importEntries contents before selection k) = true ↔
        MadeGood (brings contents k secret) (removes contents k) selection := by
    rw [covers_importEntries, latch_eq_true_iff]
    exact and_iff_right h
  have hkept {k : Str} {secret : Bool} (hk : before k = some secret) :=
    (hlatch k secret (.inl (by rw [hk]; exact covers_self))).trans (madeGood_iff contents)
  have hlanded {k : Str} (hk : k ∈ selection) (hc : contents k k ≠ none) :=
    (hlatch k false (.inr ⟨k, hk, by simpa [brings] using covers_false.mpr hc⟩)).trans (madeGood_iff contents)
  constructor
  · intro h
    refine ⟨?_, ?_⟩
    · intro earlier fp later k secret hs hk hc hb
      exact (hkept hb).mp (h.kept k secret hb) earlier fp later hs hk hc
    · intro earlier fp later k hs hk hc hsel hown
      have hthere := h.landed k ((himported k).mpr ⟨hsel, hown⟩)
      exact ((hlanded hsel hown).mp (covers_false.mpr hthere) earlier fp later hs hk hc).1
  · intro h
    refine ⟨?_, ?_, ?_⟩
    · intro k secret hb
      exact (hkept hb).mpr fun earlier fp later hs hk hc => h.kept earlier fp later k secret hs hk hc hb
    · intro k hb ha
      exact mem_of_importEntries contents hb ha
    · intro k hi
      obtain ⟨hsel, hown⟩ := (himported k).mp hi
      refine covers_false.mp ((hlanded hsel hown).mpr fun earlier fp later hs hk hc => ?_)
      exact ⟨h.landed earlier fp later k hs hk hc hsel hown, covers_false.mpr hown⟩

end Keyring

/-! ### The entries of a vault -/

namespace VaultService

open Program GPGService

variable {γ Time : Type} {env : Platform γ Time} {keyring : γ → Keyring} {bundle : Bytes → Keyring} {s : Stores γ}

/-- The keys in the blob of an entry. -/
def contents (bundle : Bytes → Keyring) (opened : OpenedVault Time) (fp : Str) : Keyring :=
  match opened.keyMaterial fp with
  | .ok blob => bundle blob
  | .error _ => fun _ => none

/-- The keys that are selected, in the order of the manifest. -/
def selection (opened : OpenedVault Time) (fingerprints : Option (List Str)) : List Str :=
  match fingerprints.mapM (·.mapM validateFingerprint) with
  | .ok wanted => (selected opened wanted).map (·.fingerprint)
  | .error _ => []

theorem ensures_emit (event outcome : Str) (payload : Dict) {Q : Unit → Stores γ → Prop} {E : Exc → Stores γ → Prop}
    (hQ : Q () s) (hE : ∀ e, E e s) :
    Ensures (emit env.toEnv event outcome payload : Program (World γ Time) Exc Unit) s Q E :=
  .of_keeps (steady_stores.emit env.toEnv event outcome payload) (fun _ => hQ) hE

theorem ensures_removeSmuggledKey (hl : env.gpg.Lists keyring) (hd : env.gpg.Deletes keyring) {fp : Str}
    (hfp : validateFingerprint fp = .ok fp) :
    Ensures (removeSmuggledKey env fp true) s (fun _ s' => keyring s'.gnupg = (keyring s.gnupg).erase fp)
      (fun _ _ => True) := by
  apply Ensures.catching (E := fun _ _ => True)
  · apply ((ensures_deleteKey hl hd hfp none).mono (fun _ _ h => h.1) fun _ _ _ => trivial).bind
    intro _ s' h
    exact ensures_emit _ _ _ h fun _ => trivial
  · intro e s' _
    apply (ensures_emit (Q := fun _ _ => True) _ _ _ trivial fun _ => trivial).bind
    intro _ _ _
    exact .raise trivial

/-- The keys of a list are removed. -/
theorem ensures_removeAll (hl : env.gpg.Lists keyring) (hd : env.gpg.Deletes keyring) : ∀ {fps : List Str}
    {s : Stores γ}, (∀ fp ∈ fps, validateFingerprint fp = .ok fp) →
      Ensures (fps.forM fun fp => removeSmuggledKey env fp true) s
        (fun _ s' => ∀ k, keyring s'.gnupg k = if k ∈ fps then none else keyring s.gnupg k) (fun _ _ => True)
  | [], s, _ => .pure fun k => by simp
  | fp :: fps, s, h => by
    rw [List.forall_mem_cons] at h
    apply (ensures_removeSmuggledKey hl hd h.1).bind
    intro _ s1 h1
    refine (ensures_removeAll hl hd h.2).mono (fun _ s2 h2 k => ?_) fun _ _ h => h
    rw [h2 k, h1, Keyring.erase, Function.update_apply]
    by_cases hk : k = fp
    · simp [hk]
    · simp [hk]

theorem ensures_importEntry (hl : env.gpg.Lists keyring) (hd : env.gpg.Deletes keyring)
    (hi : env.gpg.Imports keyring bundle) (opened : OpenedVault Time) (entry : VaultKeyEntry Time) :
    Ensures (importEntry env opened entry) s
      (fun landed s' =>
        keyring s'.gnupg = Keyring.importEntry (contents bundle opened) (keyring s.gnupg) entry.fingerprint ∧
          (landed = true ↔ contents bundle opened entry.fingerprint entry.fingerprint ≠ none))
      (fun _ _ => True) := by
  unfold importEntry
  apply Ensures.bind (Q := fun armored s' => opened.keyMaterial entry.fingerprint = .ok armored ∧ s = s')
  · exact .ofExcept (fun _ h => ⟨h, rfl⟩) fun _ _ => trivial
  rintro armored _ ⟨harm, rfl⟩
  have hcontents : contents bundle opened entry.fingerprint = bundle armored := by
    rw [contents, harm]
  rw [hcontents]
  apply Ensures.bind
  · apply (ensures_importKey hi armored).catching
    intro e s' _
    apply (ensures_emit (Q := fun _ _ => True) _ _ _ trivial fun _ => trivial).bind
    intro _ _ _
    exact .raise trivial
  rintro results s1 ⟨hadd, hresults, hvalid⟩
  have hstrangers (k : Str) : k ∈ strangers env results entry.fingerprint ↔
      bundle armored k ≠ none ∧ k ≠ entry.fingerprint := by
    rw [strangers, List.mem_filter, (env.setOrder_perm results).mem_iff, List.mem_dedup, hresults, decide_eq_true_eq]
  apply (ensures_removeAll hl hd fun fp hfp => hvalid fp ((hresults fp).mpr ((hstrangers fp).mp hfp).1)).bind
  intro _ s2 h2
  apply (ensures_emit (Q := fun _ s' => s2 = s') _ _ _ rfl fun _ => trivial).bind
  rintro _ _ rfl
  refine .pure ⟨?_, by rw [decide_eq_true_eq, hresults]⟩
  funext k
  rw [h2 k, hadd, Keyring.importEntry, hcontents]
  by_cases hk : k = entry.fingerprint
  · have hno : k ∉ strangers env results entry.fingerprint := fun h => ((hstrangers k).mp h).2 hk
    rw [if_pos hk, if_neg hno]
  · by_cases hb : bundle armored k = none
    · have hno : k ∉ strangers env results entry.fingerprint := fun h => ((hstrangers k).mp h).1 hb
      rw [if_neg hk, if_neg hno, if_pos hb, Keyring.add, hb]
    · rw [if_neg hk, if_pos ((hstrangers k).mpr ⟨hb, hk⟩), if_neg hb]

theorem ensures_importEntries (hl : env.gpg.Lists keyring) (hd : env.gpg.Deletes keyring)
    (hi : env.gpg.Imports keyring bundle) (opened : OpenedVault Time) : ∀ (entries : List (VaultKeyEntry Time))
    {s : Stores γ}, Ensures (importEntries env opened entries) s
      (fun imported s' =>
        keyring s'.gnupg =
            Keyring.importEntries (contents bundle opened) (keyring s.gnupg) (entries.map (·.fingerprint)) ∧
          ∀ k, k ∈ imported ↔ k ∈ entries.map (·.fingerprint) ∧ contents bundle opened k k ≠ none)
      (fun _ _ => True)
  | [], s => .pure ⟨rfl, by simp⟩
  | entry :: entries, s => by
    apply (ensures_importEntry hl hd hi opened entry).bind
    rintro landed s1 ⟨h1, hlanded⟩
    apply (ensures_importEntries hl hd hi opened entries).bind
    rintro imported s2 ⟨h2, himported⟩
    refine .pure ⟨by rw [h2, h1]; rfl, fun k => ?_⟩
    have hmem : k ∈ (if landed = true then entry.fingerprint :: imported else imported) ↔
        (k = entry.fingerprint ∧ landed = true) ∨ k ∈ imported := by
      by_cases hl : landed = true
      · simp [hl]
      · simp [hl]
    rw [hmem, hlanded, himported, List.map_cons, List.mem_cons, or_and_right]
    refine or_congr_left (and_congr_right fun hk => ?_)
    rw [hk]

theorem ensures_importOpened (hl : env.gpg.Lists keyring) (hd : env.gpg.Deletes keyring)
    (hi : env.gpg.Imports keyring bundle) (opened : OpenedVault Time) (fingerprints : Option (List Str)) :
    Ensures (importOpened env opened fingerprints) s
      (fun imported s' =>
        keyring s'.gnupg =
            Keyring.importEntries (contents bundle opened) (keyring s.gnupg) (selection opened fingerprints) ∧
          ∀ k, k ∈ imported ↔ k ∈ selection opened fingerprints ∧ contents bundle opened k k ≠ none)
      (fun _ _ => True) := by
  unfold importOpened
  apply Ensures.bind (Q := fun wanted s' => fingerprints.mapM (·.mapM validateFingerprint) = .ok wanted ∧ s = s')
  · exact .ofExcept (fun _ h => ⟨h, rfl⟩) fun _ _ => trivial
  rintro wanted _ ⟨hwanted, rfl⟩
  have hsel : selection opened fingerprints = (selected opened wanted).map (·.fingerprint) := by
    rw [selection, hwanted]
  rw [hsel]
  apply (ensures_importEntries hl hd hi opened (selected opened wanted)).bind
  intro imported s1 h1
  apply (ensures_emit (Q := fun _ s' => s1 = s') _ _ _ rfl fun _ => trivial).bind
  rintro _ _ rfl
  exact .pure h1

/-- **An import loses no key** exactly if every key that comes with the entry
of another is put back by a later entry of its own. -/
theorem safe_iff_putBack (hl : env.gpg.Lists keyring) (hd : env.gpg.Deletes keyring)
    (hi : env.gpg.Imports keyring bundle) {opened : OpenedVault Time} {fingerprints : Option (List Str)}
    {w w' : World γ Time} {imported : List Str} (h : (importOpened env opened fingerprints).run w = .ok imported w') :
    Keyring.Safe (keyring w.gnupg) (keyring w'.gnupg) (selection opened fingerprints) imported ↔
      Keyring.PutBack (contents bundle opened) (keyring w.gnupg) (selection opened fingerprints) := by
  obtain ⟨hk, himported⟩ := (ensures_importOpened hl hd hi opened fingerprints).of_run_eq_ok h
  have hk' : keyring w'.gnupg = Keyring.importEntries (contents bundle opened) (keyring w.gnupg)
      (selection opened fingerprints) := hk
  rw [hk']
  exact Keyring.safe_importEntries_iff (contents bundle opened) himported

/-! ### A small keyring

A GnuPG whose state is the list of its keys. It knows two blobs, one with a
key, and one that bundles another key with it. -/

def alice : Str := lit "0123456789ABCDEF0123456789ABCDEF01234567"
def bob : Str := lit "89ABCDEF0123456789ABCDEF0123456789ABCDEF"

def aliceBlob : Bytes := ascii "alice"
def bundleBlob : Bytes := ascii "alice and bob"

def keysOf (blob : Bytes) : List (Str × Bool) :=
  if blob = aliceBlob then [(alice, true)]
  else if blob = bundleBlob then [(alice, true), (bob, false)]
  else []

def aliceReport : Gpg.Chunk where
  data := ascii "[GNUPG:] IMPORT_OK 17 0123456789ABCDEF0123456789ABCDEF01234567\n"
  nonempty := by decide
  bound := by decide

def bobReport : Gpg.Chunk where
  data := ascii "[GNUPG:] IMPORT_OK 1 89ABCDEF0123456789ABCDEF0123456789ABCDEF\n"
  nonempty := by decide
  bound := by decide

def reportsOf (blob : Bytes) : List Gpg.Chunk :=
  if blob = aliceBlob then [aliceReport] else if blob = bundleBlob then [aliceReport, bobReport] else []

def addKeys (keys ring : List (Str × Bool)) : List (Str × Bool) :=
  keys.map (fun m => (m.1, m.2 || ring.lookup m.1 = some true)) ++ ring

def sampleGnuPG : GnuPG (List (Str × Bool)) Unit where
  baseCmd := [lit "gpg"]
  pipes _ := (lit "3", lit "4")
  popen args input _ ring :=
    match args, input with
    | [_], some blob => (.ok { returncode := 0, reads := reportsOf blob }, addKeys (keysOf blob) ring)
    | [_, _, fp], none => (.ok { returncode := 0 }, ring.filter (·.1 ≠ fp))
    | _, _ => (.ok { returncode := 2 }, ring)
  listKeys _ ring :=
    (.ok (ring.map fun m => { fingerprint := m.1, userIds := [], createdAt := (), hasPrivateKey := m.2 }), ring)

def ringOf (ring : List (Str × Bool)) : Keyring := fun k => ring.lookup k

def blobRing (blob : Bytes) : Keyring := ringOf (keysOf blob)

theorem lookup_addKeys (ring : List (Str × Bool)) (k : Str) : ∀ keys : List (Str × Bool),
    (addKeys keys ring).lookup k = (ringOf ring).add (ringOf keys) k
  | [] => rfl
  | (fp, secret) :: keys => by
    have ih := lookup_addKeys ring k keys
    unfold addKeys Keyring.add ringOf at *
    rw [List.map_cons, List.cons_append, Json.lookup_cons_eq, Json.lookup_cons_eq]
    by_cases hk : k = fp
    · simp [hk]
    · simp only [hk, if_false]
      exact ih

theorem ringOf_ne_none {ring : List (Str × Bool)} {fp : Str} : ringOf ring fp ≠ none ↔ fp ∈ ring.map Prod.fst := by
  rw [ringOf, ← Option.isSome_iff_ne_none, List.lookup_isSome_iff]
  simp only [beq_iff_eq, List.mem_map]
  exact exists_congr fun m => and_congr_right fun _ => eq_comm

theorem lists : sampleGnuPG.Lists ringOf where
  keeps _ g r g' h := by
    cases h
    rfl
  shows g keys g' h fp := by
    cases h
    rw [ringOf_ne_none]
    simp only [List.mem_map, exists_exists_and_eq_and]
  fails g e g' h := by cases h

theorem deletes : sampleGnuPG.Deletes ringOf where
  others fp passphrase g r g' h k hk := by
    cases h
    unfold ringOf
    induction g with
    | nil => rfl
    | cons m g ih =>
      rw [List.filter_cons]
      by_cases hm : m.1 = fp
      · have hkm : k ≠ m.1 := by rwa [hm]
        simp only [hm, ne_eq, not_true_eq_false, decide_false, Bool.false_eq_true, if_false, ih]
        rw [Json.lookup_cons_eq, if_neg hkm]
      · simp only [hm, ne_eq, not_false_eq_true, decide_true, if_true]
        rw [Json.lookup_cons_eq, Json.lookup_cons_eq, ih]

/-- The keys that GnuPG reports. -/
def reported (reports : List Gpg.Chunk) : Except Exc (List Str) :=
  (GPGService.importedOf (Gpg.parseStatus (Gpg.drainPipe Gpg.statusBufLimit [] reports))).mapM validateFingerprint

theorem reported_nil : reported [] = .ok [] := by decide +kernel

theorem reported_alice : reported [aliceReport] = .ok [alice] := by decide +kernel

theorem reported_both : reported [aliceReport, bobReport] = .ok [alice, bob] := by decide +kernel

theorem imports : sampleGnuPG.Imports ringOf blobRing where
  adds blob g out g' h := by
    cases h
    funext k
    exact lookup_addKeys g k (keysOf blob)
  reports blob g out g' results h hr fp := by
    cases h
    change reported (reportsOf blob) = _ at hr
    rw [blobRing, ringOf_ne_none]
    unfold keysOf
    unfold reportsOf at hr
    split_ifs at hr ⊢ with h1 h2
    · rw [reported_alice] at hr
      cases hr
      exact Iff.rfl
    · rw [reported_both] at hr
      cases hr
      exact Iff.rfl
    · rw [reported_nil] at hr
      cases hr
      exact Iff.rfl

/-- A vault with a key of Alice, in this blob. -/
def aliceVault (blob : Bytes) : OpenedVault Unit where
  manifest :=
    { createdBy := []
      createdAt := ()
      appVersion := appVersion
      description := []
      keys :=
        [{ fingerprint := alice
           userIds := []
           hasPrivateKey := true
           isStub := false
           createdAt := ()
           expiresAt := none
           ok := by decide +kernel }]
      ok := by decide }
  srcPath := { parent := [], name := lit "v" }
  plaintext := blob
  keySlices := [(alice, { publicStart := 0, publicEnd := 0, privateStart := 0, privateEnd := blob.length })]

theorem safe_aliceVault : ∃ imported w',
    (importOpened (samplePlatform sampleGnuPG) (aliceVault aliceBlob) none).run
        (sampleWorld [(bob, true)] fun _ => none) = .ok imported w' ∧
      (Keyring.Safe (ringOf [(bob, true)]) (ringOf w'.gnupg) (selection (aliceVault aliceBlob) none) imported ↔
        Keyring.PutBack (contents blobRing (aliceVault aliceBlob)) (ringOf [(bob, true)])
          (selection (aliceVault aliceBlob) none)) := by
  have hrun : returns (fun _ _ => true) (importOpened (samplePlatform sampleGnuPG) (aliceVault aliceBlob) none)
      (sampleWorld [(bob, true)] fun _ => none) = true := by decide +kernel
  obtain ⟨imported, w', h, -⟩ := returns_eq_true.mp hrun
  exact ⟨imported, w', h, safe_iff_putBack lists deletes imports h⟩

/-- Bob's key is in the blob of Alice's entry, and was in the keyring. -/
theorem not_safe : ¬ ∀ (γ Time : Type) (env : Platform γ Time) (keyring : γ → Keyring) (bundle : Bytes → Keyring),
    env.gpg.Lists keyring → env.gpg.Deletes keyring → env.gpg.Imports keyring bundle →
      ∀ opened fingerprints (w w' : World γ Time) imported,
        (importOpened env opened fingerprints).run w = .ok imported w' →
          Keyring.Safe (keyring w.gnupg) (keyring w'.gnupg) (selection opened fingerprints) imported := by
  intro h
  have hrun : returns (fun _ w' => ringOf w'.gnupg bob = none)
      (importOpened (samplePlatform sampleGnuPG) (aliceVault bundleBlob) none)
      (sampleWorld [(bob, true)] fun _ => none) = true := by decide +kernel
  obtain ⟨imported, w', hr, hgone⟩ := returns_eq_true.mp hrun
  have hkept := (h _ _ _ _ _ lists deletes imports _ _ _ _ _ hr).kept bob true (by decide)
  rw [decide_eq_true_eq] at hgone
  rw [hgone] at hkept
  cases hkept

end VaultService
end GpgMeister
