/-
# From a keyring into a vault and back

The way of a key through a vault: `create` exports it, seals it and writes it
to a file; `import_keys` opens the file, on whatever machine, and imports it.

* `restored_keyring`: after both have returned, the keyring has the keys that were
  selected, with their secret halves if these were exported, and is otherwise
  what it was.
-/
import GpgMeister.Services.VaultImport
import GpgMeister.Services.VaultRestore
import GpgMeister.Services.PayloadSlices

namespace GpgMeister

/-! ### Blobs with one key -/

namespace Keyring

/-- One key, and whether its secret half is there. -/
def single (fp : Str) (secret : Bool) : Keyring := fun k => if k = fp then some secret else none

/-- Entries that bring their own key only, and its secret half if `secretOf`
says so. -/
theorem importEntries_single {contents : Str → Keyring} {secretOf : Str → Bool} : ∀ {fps : List Str} (K : Keyring),
    (∀ fp ∈ fps, contents fp = single fp (secretOf fp)) → ∀ k,
      importEntries contents K fps k = if k ∈ fps then some (secretOf k || K k = some true) else K k
  | [], K, _, k => by simp [importEntries]
  | fp :: fps, K, h, k => by
    rw [List.forall_mem_cons] at h
    have hone : importEntry contents K fp k = if k = fp then some (secretOf fp || K fp = some true) else K k := by
      unfold importEntry
      rw [h.1]
      by_cases hk : k = fp
      · subst hk
        simp [add, single]
      · simp [single, hk]
    have hrest := importEntries_single (importEntry contents K fp) h.2 k
    have hunfold : importEntries contents K (fp :: fps) k =
        importEntries contents (importEntry contents K fp) fps k := rfl
    rw [hunfold, hrest, hone]
    by_cases hk : k = fp
    · subst hk
      by_cases hmem : k ∈ fps
      · cases secretOf k <;> simp [hmem]
      · simp [hmem]
    · simp [hk]

end Keyring

/-- What GnuPG exports of a key is this key, with its secret half if that was
asked for. -/
structure GnuPG.ExportsAlone {γ Time : Type} (gpg : GnuPG γ Time) (bundle : Bytes → Keyring) : Prop where
  publicKey : ∀ fp armor, armor ≠ [] →
    VaultService.Exported gpg [lit "--armor", lit "--export", fp] none armor → bundle armor = Keyring.single fp false
  privateKey : ∀ fp passphrase armor, armor ≠ [] →
    VaultService.Exported gpg [lit "--armor", lit "--export-secret-keys", fp] (some passphrase) armor →
      bundle armor = Keyring.single fp true

namespace VaultService

open VaultFormat VaultKeyslots VaultPayload Program GPGService

variable {γ Time : Type} {env : Platform γ Time} {keyring : γ → Keyring} {bundle : Bytes → Keyring}

/-! ### What an opened vault has of a key -/

theorem privateEnd_le_of_covers {view : Bytes} : ∀ {parts : List (VaultKeyEntry Time × KeySlice)} {offset : ℕ},
    Covers view offset parts → ∀ part ∈ parts, part.2.privateEnd ≤ view.length
  | [], _, _ => by simp
  | (entry, s) :: rest, offset, h => by
    obtain ⟨-, -, -, -, -, hle, hrest⟩ := h
    rw [List.forall_mem_cons]
    exact ⟨hle, privateEnd_le_of_covers hrest⟩

/-- The slices of a payload that is accepted end in it. -/
theorem privateEnd_le_of_deserialise {payload view : Bytes} {manifest : VaultManifest Time} {slices : KeySlices}
    (h : deserialiseSegmentedPayload env payload = .ok (manifest, slices, view)) {fp : Str} {s : KeySlice}
    (hs : slices.lookup fp = some s) : s.privateEnd ≤ view.length := by
  obtain ⟨⟨manifest', offset, view'⟩, -, h⟩ := bind_eq_ok h
  obtain ⟨⟨slices', stop⟩, hwalk, h⟩ := bind_eq_ok h
  dsimp only at h
  split_ifs at h with hstop
  obtain ⟨rfl, rfl, rfl⟩ : manifest' = manifest ∧ slices' = slices ∧ view' = view := by
    simpa using Except.ok.inj h
  rw [not_not.mp hstop] at hwalk
  obtain ⟨-, parts, -, hcovers, hslices⟩ := readKeySlices_eq_ok hwalk
  obtain ⟨before, after, heq, -⟩ := List.lookup_eq_some_iff.mp hs
  have hmem : (fp, s) ∈ slices' := by
    rw [heq]
    exact List.mem_append_right _ List.mem_cons_self
  rw [hslices, List.append_nil, List.mem_reverse, List.mem_map] at hmem
  obtain ⟨part, hpart, hsame⟩ := hmem
  rw [← (Prod.mk.inj hsame).2]
  exact privateEnd_le_of_covers hcovers part hpart

/-- The private armor is imported where there is any, and the public armor of
the other keys. -/
theorem keyMaterial_of_selects {opened : OpenedVault Time} {item : CollectedEntry Time} {s : KeySlice}
    (hlookup : opened.keySlices.lookup item.entry.fingerprint = some s) (hselects : Selects opened.plaintext item s)
    (hle : s.privateEnd ≤ opened.plaintext.length) (hne : ∀ armor, item.privateKey = some armor → armor ≠ []) :
    opened.keyMaterial item.entry.fingerprint = .ok (item.privateKey.getD item.publicKey) := by
  have hlen : (slice opened.plaintext s.privateStart s.privateEnd).length = s.privateEnd - s.privateStart :=
    length_slice hle
  rw [hselects.privateKey] at hlen
  unfold OpenedVault.keyMaterial
  rw [hlookup]
  dsimp only
  cases hprivate : item.privateKey with
  | none =>
    rw [hprivate, Option.getD_none, List.length_nil] at hlen
    rw [if_neg (by omega), hselects.publicKey, Option.getD_none]
  | some armor =>
    have hpos := List.length_pos_of_ne_nil (hne armor hprivate)
    rw [hprivate, Option.getD_some] at hlen
    rw [if_pos (by omega), hselects.privateKey, hprivate, Option.getD_some, Option.getD_some]

/-! ### Both ways -/

/-- The keys of a vault that are chosen: all of them, or those in the list. -/
def Chosen (fps : List Str) (wanted : Option (List Str)) (k : Str) : Prop :=
  k ∈ fps ∧ ∀ list, wanted = some list → k ∈ list

/-- The secret half of the key was exported. -/
def SecretExported (created : Created Time) (k : Str) : Prop :=
  ∃ item ∈ created.collected, item.entry.fingerprint = k ∧ item.privateKey.isSome = true

instance (created : Created Time) (k : Str) : Decidable (SecretExported created k) := by
  unfold SecretExported
  infer_instance

theorem mem_selection {opened : OpenedVault Time} {fingerprints wanted : Option (List Str)}
    (hwanted : fingerprints.mapM (·.mapM validateFingerprint) = .ok wanted) {k : Str} :
    k ∈ selection opened fingerprints ↔ Chosen (opened.manifest.keys.map (·.fingerprint)) wanted k := by
  unfold selection Chosen
  rw [hwanted]
  cases wanted with
  | none => simp [selected]
  | some list =>
    simp only [selected, List.mem_map, List.mem_filter, decide_eq_true_eq, Option.some.injEq, forall_eq']
    constructor
    · rintro ⟨entry, ⟨hentry, hlist⟩, rfl⟩
      exact ⟨⟨entry, hentry, rfl⟩, hlist⟩
    · rintro ⟨⟨entry, hentry, rfl⟩, hlist⟩
      exact ⟨entry, ⟨hentry, hlist⟩, rfl⟩

/-- What an entry of the vault brings is its key alone. -/
theorem contents_of_collects (hexports : env.gpg.ExportsAlone bundle) {gpgPassphrases : Str → Option Bytes} {fp : Str}
    {item : CollectedEntry Time} (hitem : Collects env gpgPassphrases fp item) {opened : OpenedVault Time}
    (hmaterial : opened.keyMaterial fp = .ok (item.privateKey.getD item.publicKey)) :
    contents bundle opened fp = Keyring.single fp item.privateKey.isSome := by
  unfold contents
  rw [hmaterial]
  dsimp only
  cases hprivate : item.privateKey with
  | none =>
    obtain ⟨hne, hexported⟩ := hitem.publicKey
    exact hexports.publicKey fp _ hne hexported
  | some armor =>
    obtain ⟨hne, keyPw, -, hexported⟩ := hitem.privateKey armor hprivate
    exact hexports.privateKey fp keyPw armor hne hexported

/-- **What was backed up is restored**: after `create` and `import_keys` have
returned, the keys that are reported are those of the vault that were chosen;
they are in the keyring, with their secret halves if these were exported or
were there; and nothing else in it has changed. -/
theorem restored_keyring {hasMetadata : Bool} {args : CreateArgs} {created : Created Time} {w w' : World γ Time}
    (hinverts : env.aead.Inverts) (htagged : env.aead.Tagged) (hmsgpack : env.msgpack.RoundTrips)
    (hlower : LowersDigests env) (hl : env.gpg.Lists keyring) (hd : env.gpg.Deletes keyring)
    (hi : env.gpg.Imports keyring bundle) (hexports : env.gpg.ExportsAlone bundle)
    (hcreate : (create env hasMetadata args).run w = .ok created w') {fps unlockFps : List Str}
    (hfps : args.fingerprints.mapM validateFingerprint = .ok fps)
    (hunlock : args.unlockKeyFingerprints.mapM validateFingerprint = .ok unlockFps) (hdistinct : fps.Nodup)
    {K : Keyring} {ready : γ → Prop} (hready : ∀ g, ready g → keyring g = K) {credentials : Credentials}
    (hopener : Opener env ready args unlockFps credentials) {sourcePath : Path}
    (hsrc : env.resolve sourcePath = env.resolve args.targetPath) {skipChecksum : Bool}
    {fingerprints wanted : Option (List Str)} (hwanted : fingerprints.mapM (·.mapM validateFingerprint) = .ok wanted)
    {u u' : World γ Time} (hu : (leftBy env args ready w').Calm u) {imported : List Str}
    (himport : (importKeys env sourcePath credentials fingerprints skipChecksum).run u = .ok imported u') :
    (∀ k, k ∈ imported ↔ Chosen fps wanted k) ∧
      (∀ k, Chosen fps wanted k → keyring u'.gnupg k = some (SecretExported created k || K k = some true)) ∧
        ∀ k, ¬ Chosen fps wanted k → keyring u'.gnupg k = K k := by
  obtain ⟨fps', unlockFps', p, hfps', hunlock', hleaves⟩ := create_eq_ok hcreate
  obtain rfl : fps = fps' := Except.ok.inj (hfps.symm.trans hfps')
  obtain rfl : unlockFps = unlockFps' := Except.ok.inj (hunlock.symm.trans hunlock')
  have hcreated := hleaves.created_eq
  -- the vault opens to what was put in
  obtain ⟨opened, u1, hopen, himport⟩ := run_bind_eq_ok.mp himport
  obtain ⟨himportable, hascii⟩ := within_of_openVault hleaves hopener hsrc hinverts htagged hlower hu hopen
  obtain ⟨opened', hsettles, hmanifest, ⟨payload, hdeserialise⟩, hselects⟩ :=
    settles_created hleaves hopener hsrc hinverts htagged hlower hmsgpack hdistinct himportable hascii
  obtain ⟨hopened, hu1⟩ := hsettles.ok hu hopen
  obtain rfl : opened' = opened := Except.ok.inj hopened
  have hK : keyring u1.gnupg = K := hready _ hu1.answers
  have hkeys : opened'.manifest.keys.map (·.fingerprint) = fps := by
    rw [hmanifest, hleaves.keys, List.map_map]
    exact fingerprints_of_collects hleaves.collected
  have hchosen (k : Str) : k ∈ selection opened' fingerprints ↔ Chosen fps wanted k := by
    rw [mem_selection hwanted, hkeys]
  -- every entry brings its own key
  have hcontents : ∀ fp ∈ fps, contents bundle opened' fp = Keyring.single fp (SecretExported created fp) := by
    intro fp hfp
    obtain ⟨item, hzip, hitem⟩ := exists_of_forall₂ hleaves.collected hfp
    have hmem : item ∈ p.collected := (List.of_mem_zip hzip).2
    obtain ⟨s, hlookup, hs⟩ := hselects item hmem
    have hmaterial := keyMaterial_of_selects hlookup hs (privateEnd_le_of_deserialise hdeserialise hlookup)
      fun armor harmor => (hitem.privateKey armor harmor).1
    rw [hitem.fingerprint] at hmaterial
    have hnodup : (p.collected.map (·.entry.fingerprint)).Nodup := by
      rw [fingerprints_of_collects hleaves.collected]
      exact hdistinct
    have hsecret : SecretExported created fp ↔ item.privateKey.isSome = true := by
      unfold SecretExported
      rw [hcreated]
      constructor
      · rintro ⟨item', hmem', hfp', hsome⟩
        have hsame : item' = item := List.inj_on_of_nodup_map hnodup hmem' hmem (hfp'.trans hitem.fingerprint.symm)
        rwa [hsame] at hsome
      · exact fun hsome => ⟨item, hmem, hitem.fingerprint, hsome⟩
    rw [contents_of_collects hexports hitem hmaterial]
    simp [hsecret]
  obtain ⟨hafter, himported⟩ := (ensures_importOpened hl hd hi opened' fingerprints).of_run_eq_ok himport
  have hring (k : Str) : keyring u'.gnupg k = if k ∈ selection opened' fingerprints then
      some (SecretExported created k || K k = some true) else K k := by
    have hsingle := Keyring.importEntries_single K (fun fp hfp => hcontents fp ((hchosen fp).mp hfp).1) k
    rw [← hsingle, ← hK]
    exact congrFun hafter k
  refine ⟨fun k => ?_, fun k hk => ?_, fun k hk => ?_⟩
  · rw [himported k, hchosen k]
    refine and_iff_left_of_imp fun hk => ?_
    rw [hcontents k hk.1, Keyring.single, if_pos rfl]
    exact Option.some_ne_none _
  · rw [hring k, if_pos ((hchosen k).mpr hk)]
  · rw [hring k, if_neg fun h => hk ((hchosen k).mp h)]

/-! ### A keyring whose keys can be exported -/

def publicBlob : Bytes := ascii "alice in public"

def exportedKeys (blob : Bytes) : List (Str × Bool) := if blob = publicBlob then [(alice, false)] else keysOf blob

def exportedReports (blob : Bytes) : List Gpg.Chunk := if blob = publicBlob then [aliceReport] else reportsOf blob

/-- What is exported of a key. -/
def armorOf (command fp : Str) : Bytes :=
  if fp = alice then if command = lit "--export" then publicBlob else aliceBlob else []

def exportingGnuPG : GnuPG (List (Str × Bool)) Unit where
  baseCmd := [lit "gpg"]
  pipes _ := (lit "3", lit "4")
  popen args input _ ring :=
    match args, input with
    | [_], some blob => (.ok { returncode := 0, reads := exportedReports blob }, addKeys (exportedKeys blob) ring)
    | [option, command, fp], none =>
      if option = lit "--armor" then (.ok { returncode := 0, stdout := armorOf command fp }, ring)
      else (.ok { returncode := 0 }, ring.filter (·.1 ≠ fp))
    | _, _ => (.ok { returncode := 2 }, ring)
  listKeys _ ring :=
    (.ok (ring.map fun m => { fingerprint := m.1, userIds := [], createdAt := (), hasPrivateKey := m.2 }), ring)

theorem lists_exporting : exportingGnuPG.Lists ringOf := ⟨lists.keeps, lists.shows, lists.fails⟩

theorem deletes_exporting : exportingGnuPG.Deletes ringOf :=
  ⟨fun fp passphrase g r g' h => deletes.others fp passphrase g r g' h⟩

theorem imports_exporting : exportingGnuPG.Imports ringOf fun blob => ringOf (exportedKeys blob) where
  adds blob g out g' h := by
    cases h
    funext k
    exact lookup_addKeys g k (exportedKeys blob)
  reports blob g out g' results h hr fp := by
    by_cases hpublic : blob = publicBlob
    · cases h
      subst hpublic
      obtain rfl := Except.ok.inj (reported_alice.symm.trans hr)
      rw [ringOf_ne_none]
      exact Iff.rfl
    · have hkeys : exportedKeys blob = keysOf blob := if_neg hpublic
      have hreports : exportedReports blob = reportsOf blob := if_neg hpublic
      have hpopen : sampleGnuPG.popen [lit "--import"] (some blob) none g = (.ok out, g') := by
        rw [← h]
        show (_, addKeys (keysOf blob) g) = (_, addKeys (exportedKeys blob) g)
        rw [hkeys, hreports]
      rw [hkeys]
      exact imports.reports blob g out g' results hpopen hr fp

/-- What comes out of an export is what was put there. -/
theorem eq_of_exported {command fp : Str} {passphrase : Option Bytes} {armor : Bytes} (hne : armor ≠ [])
    (h : Exported exportingGnuPG [lit "--armor", command, fp] passphrase armor) :
    fp = alice ∧ armor = armorOf command alice := by
  obtain ⟨g, out, g', hpopen, harmor⟩ := h
  have hout : out.stdout = armorOf command fp := by
    cases hpopen
    rfl
  have hpublic : Utf8.encode (Gpg.decodeOutput publicBlob) = some publicBlob := by decide +kernel
  have hprivate : Utf8.encode (Gpg.decodeOutput aliceBlob) = some aliceBlob := by decide +kernel
  rw [hout] at harmor
  by_cases hfp : fp = alice
  · refine ⟨hfp, ?_⟩
    unfold armorOf at harmor ⊢
    rw [if_pos hfp] at harmor
    rw [if_pos rfl]
    split_ifs at harmor ⊢ with hcommand
    · exact Option.some.inj (harmor.symm.trans hpublic)
    · exact Option.some.inj (harmor.symm.trans hprivate)
  · unfold armorOf at harmor
    rw [if_neg hfp] at harmor
    exact absurd (Option.some.inj harmor).symm hne

theorem ringOf_single (fp : Str) (secret : Bool) : ringOf [(fp, secret)] = Keyring.single fp secret := by
  funext k
  unfold ringOf Keyring.single
  rw [Json.lookup_cons_eq]
  rfl

theorem exportsAlone_exporting : exportingGnuPG.ExportsAlone fun blob => ringOf (exportedKeys blob) where
  publicKey fp armor hne h := by
    obtain ⟨rfl, rfl⟩ := eq_of_exported hne h
    exact ringOf_single alice false
  privateKey fp passphrase armor hne h := by
    obtain ⟨rfl, rfl⟩ := eq_of_exported hne h
    exact ringOf_single alice true

/-- A cipher that does nothing but to add its tag, and this GnuPG. -/
def exportingPlatform : Platform (List (Str × Bool)) Unit :=
  { samplePlatform exportingGnuPG with
    msgpack := taggingPlatform.msgpack
    aead := taggingPlatform.aead
    argon2 := taggingPlatform.argon2 }

theorem restored_keyring_sample : ∃ created w' imported u',
    (create exportingPlatform false ownKeyArgs).run (sampleWorld [(alice, true)] fun _ => none) = .ok created w' ∧
      (importKeys exportingPlatform cardPath { masterPassphrase := some (ascii "secret") } none false).run
          (sampleWorld [(bob, true)] w'.files) = .ok imported u' ∧
        ringOf u'.gnupg alice = some (SecretExported created alice || ringOf [(bob, true)] alice = some true) := by
  have hreturns : returns (fun _ w' => returns (fun _ _ => true)
      (importKeys exportingPlatform cardPath { masterPassphrase := some (ascii "secret") } none false)
        (sampleWorld [(bob, true)] w'.files))
      (create exportingPlatform false ownKeyArgs) (sampleWorld [(alice, true)] fun _ => none) = true := by
    decide +kernel
  obtain ⟨created, w', hcreate, hreturns⟩ := returns_eq_true.mp hreturns
  obtain ⟨imported, u', himport, -⟩ := returns_eq_true.mp hreturns
  have hlower : LowersDigests exportingPlatform := by
    intro data
    show lowerAscii (List.replicate 64 0x30) = List.replicate 64 0x30
    decide
  have hfps : ownKeyArgs.fingerprints.mapM validateFingerprint = .ok [alice] := by decide +kernel
  have hopener : Opener exportingPlatform (· = [(bob, true)]) ownKeyArgs []
      { masterPassphrase := some (ascii "secret") } :=
    .passphrase _ rfl
  have hunlock : ownKeyArgs.unlockKeyFingerprints.mapM validateFingerprint = .ok [] := rfl
  have hwanted : (none : Option (List Str)).mapM (·.mapM validateFingerprint) = .ok none := rfl
  have hready : ∀ ring, ring = [(bob, true)] → ringOf ring = ringOf [(bob, true)] := fun _ h => congrArg ringOf h
  have hu : (leftBy exportingPlatform ownKeyArgs (· = [(bob, true)]) w').Calm (sampleWorld [(bob, true)] w'.files) :=
    ⟨rfl, rfl, fun _ => rfl, rfl, trivial⟩
  have hinverts : exportingPlatform.aead.Inverts := inverts_taggingPlatform
  have htagged : exportingPlatform.aead.Tagged := tagged_taggingPlatform
  have hmsgpack : exportingPlatform.msgpack.RoundTrips := Msgpack.roundTrips_single _ _ _
  obtain ⟨-, hchosen, -⟩ := restored_keyring hinverts htagged hmsgpack hlower lists_exporting deletes_exporting
    imports_exporting exportsAlone_exporting
    hcreate hfps hunlock (List.nodup_singleton _) hready hopener rfl hwanted hu himport
  exact ⟨created, w', imported, u', hcreate, himport,
    hchosen alice ⟨List.mem_singleton_self _, fun _ h => by cases h⟩⟩

end VaultService
end GpgMeister
