/-
# What the header of a vault says

The header is not encrypted. `unlock_info` reports from it how a vault can be
unlocked, before any credential is entered, and the ciphertext is bound to it.

* `unlockInfo_tells`: of a vault that `create` has left it reports the unlock
  methods that it was created with, and no other kind of credential opens it.
* `eq_of_openVault`: a file with the ciphertext of a created vault opens only
  if it is that vault, whatever has been done to its header.
-/
import GpgMeister.Services.VaultRestore

namespace GpgMeister
namespace VaultService

open VaultFormat VaultKeyslots VaultPayload Program

variable {γ Time : Type}

/-- `VaultUnlockSlot` -/
structure VaultUnlockSlot where
  fingerprint : Str
  label : Str

/-- `VaultUnlockInfo` -/
structure VaultUnlockInfo where
  version : ℕ
  acceptsPassphrase : Bool
  smartcardSlots : List VaultUnlockSlot := []

/-- `accepts_smartcard` -/
def VaultUnlockInfo.acceptsSmartcard (info : VaultUnlockInfo) : Bool := ! info.smartcardSlots.isEmpty

/-- What `unlock_info` makes of a header. -/
def unlockInfoOf (header : VaultHeader) : VaultUnlockInfo :=
  if header.usesKeySlots then
    { version := header.version
      acceptsPassphrase := ! (header.slotsOf .passphrase).isEmpty
      smartcardSlots := (header.slotsOf .openpgp).map fun slot => ⟨slot.fingerprint.getD [], slot.label⟩ }
  else { version := header.version, acceptsPassphrase := true }

/-- `VaultService.unlock_info` -/
def unlockInfo (env : Platform γ Time) (sourcePath : Path) : Program (World γ Time) Exc VaultUnlockInfo := do
  let src := env.resolve sourcePath
  let there ← fileExists src
  if there then do
    let data ← readVaultBytes src
    let frame ← Program.ofExcept (unpack env data)
    return unlockInfoOf frame.header
  else Program.raise (serviceError (lit "vault file does not exist: " ++ src.text))

variable {env : Platform γ Time} {w w' : World γ Time}

/-! ### Kinds of credentials -/

/-- The kind of a credential that opens a vault is one that its header offers. -/
theorem offered_of_vaultKey {frame : UnpackedFrame} {credentials : Credentials} {src : Path} {key : Bytes}
    (h : (vaultKey env frame credentials src).run w = .ok key w') :
    (credentials.smartcardPin = none → (unlockInfoOf frame.header).acceptsPassphrase = true) ∧
      (credentials.masterPassphrase = none → (unlockInfoOf frame.header).acceptsSmartcard = true) := by
  unfold vaultKey at h
  dsimp only at h
  unfold unlockInfoOf VaultUnlockInfo.acceptsSmartcard
  by_cases huses : frame.header.usesKeySlots = true
  · rw [if_pos huses] at h ⊢
    obtain ⟨masterPassphrase, smartcardPin⟩ := credentials
    cases smartcardPin with
    | some pin =>
      refine ⟨fun hpin => (Option.some_ne_none pin hpin).elim, fun _ => ?_⟩
      dsimp only at h
      unfold unwrapOpenpgpSlot at h
      split_ifs at h with hnone
      · cases h
      · simpa using hnone
    | none =>
      cases masterPassphrase with
      | none => cases h
      | some passphrase =>
        refine ⟨fun _ => ?_, fun hnone => (Option.some_ne_none passphrase hnone).elim⟩
        have h := (run_catching_eq_ok fun e => run_emitRaise_ne_ok env src _ e _).mp h
        unfold unwrapPassphraseSlot at h
        split_ifs at h with hnone
        · cases h
        · simpa using hnone
  · rw [if_neg huses] at h ⊢
    refine ⟨fun _ => rfl, fun hnone => ?_⟩
    rw [hnone] at h
    cases hkdf : frame.header.kdf with
    | none =>
      rw [hkdf] at h
      cases h
    | some kdf =>
      rw [hkdf] at h
      cases h

/-- What an opening that returned has read, and which key it has found. -/
theorem run_openVault_eq_ok {sourcePath : Path} {credentials : Credentials} {skipChecksum : Bool}
    {opened : OpenedVault Time} (h : (openVault env sourcePath credentials skipChecksum).run w = .ok opened w') :
    ∃ data frame w1 payload w2, w.files (env.resolve sourcePath) = some data ∧ unpack env data = .ok frame ∧
      (decryptFrame env frame credentials (env.resolve sourcePath)).run w1 = .ok payload w2 := by
  unfold openVault at h
  split_ifs at h
  · cases h
  · obtain ⟨⟨data, frame⟩, w1, hread, h⟩ := run_bind_eq_ok.mp h
    obtain ⟨payload, w2, hdecrypt, h⟩ := run_bind_eq_ok.mp h
    obtain ⟨hdata, hunpack⟩ := readFrame_eq_ok env hread
    exact ⟨data, frame, w1, payload, w2, hdata, hunpack, hdecrypt⟩

/-! ### The report on a created vault -/

/-- The report names the unlock methods of these arguments. -/
structure Tells (args : CreateArgs) (unlockFps : List Str) (info : VaultUnlockInfo) : Prop where
  version : info.version = if unlockFps = [] then vaultFormatVersion else vaultFormatVersionSlots
  passphrase : info.acceptsPassphrase = args.masterPassphrase.isSome
  smartcards : info.smartcardSlots.map (·.fingerprint) = unlockFps

theorem fingerprints_of_sealsFor {key : Bytes} {unlockFps : List Str} {keySlots : List VaultKeySlot}
    (h : List.Forall₂ (SealsFor env key) unlockFps keySlots) :
    keySlots.map (fun s => s.fingerprint.getD []) = unlockFps := by
  induction h with
  | nil => rfl
  | cons hslot _ ih => rw [List.map_cons, hslot.fingerprint, ih, Option.getD_some]

theorem tells_of_kept {args : CreateArgs} {unlockFps : List Str} {key : Bytes} {header : VaultHeader}
    (hkept : KeyKept env args unlockFps key header) : Tells args unlockFps (unlockInfoOf header) := by
  unfold unlockInfoOf
  cases hkept with
  | derived passphrase kdf noKeys given noSlots fields params derives =>
    have huses : ¬ header.usesKeySlots = true := by simp [VaultHeader.usesKeySlots, noSlots]
    rw [if_neg huses]
    refine ⟨?_, by rw [given, Option.isSome_some], noKeys.symm⟩
    rw [if_pos noKeys]
    rcases header.cases_shape with ⟨hversion, -⟩ | ⟨-, -, slots, hslots, -⟩
    · exact hversion
    · rw [noSlots] at hslots
      cases hslots
  | wrapped passphraseSlots keySlots length algorithm slots nonempty forPassphrase forKeys =>
    have hne : keySlots ≠ [] := by
      rintro rfl
      exact nonempty (List.forall₂_nil_right_iff.mp forKeys)
    obtain ⟨hpassphrase, hopenpgp⟩ := slotsOf_of_kept slots forPassphrase forKeys
    rw [if_pos (usesKeySlots_of_append slots hne), hpassphrase, hopenpgp]
    refine ⟨?_, ?_, ?_⟩
    · rw [if_neg nonempty]
      rcases header.cases_shape with ⟨-, hslots, -⟩ | ⟨hversion, -⟩
      · rw [slots] at hslots
        cases hslots
      · exact hversion
    · have hlen := forPassphrase.length_eq
      cases hgiven : args.masterPassphrase with
      | none =>
        rw [hgiven] at hlen
        rw [List.length_eq_zero_iff.mp hlen.symm]
        rfl
      | some passphrase =>
        rw [hgiven] at hlen
        have hpos : passphraseSlots ≠ [] := by
          rintro rfl
          cases hlen
        simpa using hpos
    · dsimp only
      rw [List.map_map]
      exact fingerprints_of_sealsFor forKeys

theorem settles_unlockInfo {S : Setting γ} {sourcePath : Path} (hsrc : env.resolve sourcePath = S.src) {data : Bytes}
    {frame : UnpackedFrame} (hvault : S.vault = some data) (hlen : data.length ≤ maxVaultFrameSize)
    (hunpack : unpack env data = .ok frame) :
    Settles S.Calm id (unlockInfo env sourcePath) (.ok (unlockInfoOf frame.header)) := by
  have hthere : Settles S.Calm id (fileExists S.src : Program (World γ Time) Exc Bool) (.ok S.vault.isSome) :=
    settles_fileExists fun _ hw => hw.vault
  unfold unlockInfo
  rw [hsrc]
  refine hthere.bind_of_ok fun there h => ?_
  rw [hvault] at h
  obtain rfl : there = true := h
  refine (settles_readVaultBytes hvault hlen).bind_of_ok fun found h => ?_
  obtain rfl : found = data := h
  rw [hunpack]
  refine (Settles.ofExcept _).bind_of_ok fun found h => ?_
  obtain rfl : found = frame := h
  exact .pure _

/-- **`unlock_info` tells how a created vault can be unlocked**, and with no
other kind of credential is it ever opened. -/
theorem unlockInfo_tells {hasMetadata : Bool} {args : CreateArgs} {created : Created Time} (htagged : env.aead.Tagged)
    (hcreate : (create env hasMetadata args).run w = .ok created w') {unlockFps : List Str}
    (hunlock : args.unlockKeyFingerprints.mapM GPGService.validateFingerprint = .ok unlockFps) {sourcePath : Path}
    (hsrc : env.resolve sourcePath = env.resolve args.targetPath) {u : World γ Time}
    (hu : (leftBy env args (fun _ => True) w').Calm u) :
    (∃ info u', (unlockInfo env sourcePath).run u = .ok info u' ∧ Tells args unlockFps info) ∧
      ∀ v credentials skipChecksum opened v', v.files (env.resolve sourcePath) = u.files (env.resolve sourcePath) →
        (openVault env sourcePath credentials skipChecksum).run v = .ok opened v' →
          (credentials.smartcardPin = none → args.masterPassphrase.isSome = true) ∧
            (credentials.masterPassphrase = none → unlockFps ≠ []) := by
  obtain ⟨fps, unlockFps', p, -, hunlock', hleaves⟩ := create_eq_ok hcreate
  obtain rfl : unlockFps = unlockFps' := Except.ok.inj (hunlock.symm.trans hunlock')
  obtain ⟨frame, key, plaintext, hunpack, hlen, hkept, -⟩ := frame_of_leaves htagged hleaves
  have htells := tells_of_kept hkept
  have hvault : (leftBy env args (fun _ => True) w').vault = some p.frame := hleaves.vault
  refine ⟨?_, ?_⟩
  · obtain ⟨info, u', hrun, hinfo, -⟩ := (settles_unlockInfo hsrc hvault hlen hunpack).run_of_ok hu
    obtain rfl : info = _ := hinfo
    exact ⟨_, u', hrun, htells⟩
  · intro v credentials skipChecksum opened v' hv hopen
    obtain ⟨data, frame', v1, payload, v2, hdata, hunpack', hdecrypt⟩ := run_openVault_eq_ok hopen
    obtain ⟨key', v3, hkey, -⟩ := run_decryptFrame_eq_ok env hdecrypt
    have hfile : u.files (env.resolve sourcePath) = some p.frame := by
      rw [hsrc]
      exact hu.vault.trans hvault
    obtain rfl : p.frame = data := Option.some.inj (hfile.symm.trans (hv.symm.trans hdata))
    obtain rfl : frame = frame' := Except.ok.inj (hunpack.symm.trans hunpack')
    obtain ⟨hpassphrase, hcard⟩ := offered_of_vaultKey hkey
    refine ⟨fun hpin => ?_, fun hnone hnil => ?_⟩
    · rw [← htells.passphrase]
      exact hpassphrase hpin
    · have hslots := htells.smartcards
      rw [hnil, List.map_eq_nil_iff] at hslots
      have haccepts := hcard hnone
      rw [VaultUnlockInfo.acceptsSmartcard, hslots] at haccepts
      cases haccepts

/-- A vault of version 3, for a master passphrase and a card. -/
theorem unlockInfo_tells_sample : ∃ created w' info u',
    (create cardholderPlatform false pairArgs).run (sampleWorld () fun _ => none) = .ok created w' ∧
      (unlockInfo cardholderPlatform cardPath).run (sampleWorld () w'.files) = .ok info u' ∧
      Tells pairArgs [sampleEntry.fingerprint] info ∧
      ∀ credentials skipChecksum opened v', (openVault cardholderPlatform cardPath credentials skipChecksum).run
          (sampleWorld () w'.files) = .ok opened v' →
        (credentials.smartcardPin = none → pairArgs.masterPassphrase.isSome = true) ∧
          (credentials.masterPassphrase = none → [sampleEntry.fingerprint] ≠ []) := by
  obtain ⟨created, w', hcreate⟩ := creates_pair
  have hcalm : (leftBy cardholderPlatform pairArgs (fun _ => True) w').Calm (sampleWorld () w'.files) :=
    ⟨rfl, rfl, fun _ => rfl, trivial, trivial⟩
  have hsrc : cardholderPlatform.resolve cardPath = cardholderPlatform.resolve pairArgs.targetPath := rfl
  obtain ⟨⟨info, u', hrun, htells⟩, hopens⟩ :=
    unlockInfo_tells tagged_cardholder hcreate validated_pairArgs.2 hsrc hcalm
  exact ⟨created, w', info, u', hcreate, hrun, htells, fun credentials skipChecksum opened v' hopen =>
    hopens _ credentials skipChecksum opened v' rfl hopen⟩

/-! ### A header that was changed -/

theorem parseHeader_of_unpack {data : Bytes} {u : UnpackedFrame} (h : unpack env data = .ok u) :
    parseHeader env u.headerBytes = .ok u.header := by
  unfold unpack at h
  by_cases h1 : data.length < headerOffset + lengthField
  · rw [if_pos h1] at h
    cases h
  by_cases h2 : data.take magicLen ≠ magic
  · rw [if_neg h1, if_pos h2] at h
    cases h
  rw [if_neg h1, if_neg h2] at h
  dsimp only at h
  by_cases h3 : (data.getD magicLen 0).toNat ∉ supportedVaultVersions
  · rw [if_pos h3] at h
    cases h
  rw [if_neg h3] at h
  generalize ofU32 ((data.drop (magicLen + versionLen)).take lengthField) = headerLen at h
  by_cases h4 : headerLen = 0 ∨ headerLen > maxHeaderSize
  · rw [if_pos h4] at h
    cases h
  by_cases h5 : data.length < headerOffset + headerLen + lengthField
  · rw [if_neg h4, if_pos h5] at h
    cases h
  rw [if_neg h4, if_neg h5] at h
  cases hp : parseHeader env ((data.drop headerOffset).take headerLen) with
  | error e =>
    rw [hp] at h
    cases h
  | ok header =>
    rw [hp] at h
    dsimp only at h
    split_ifs at h
    obtain rfl := Except.ok.inj h
    exact hp

/-- The octets of a header say all that is in a frame but its ciphertext. -/
theorem eq_of_headerBytes {data data' : Bytes} {u u' : UnpackedFrame} (h : unpack env data = .ok u)
    (h' : unpack env data' = .ok u') (hheader : u'.headerBytes = u.headerBytes)
    (hciphertext : u'.ciphertext = u.ciphertext) : data' = data := by
  have hparse := parseHeader_of_unpack h
  have hparse' := parseHeader_of_unpack h'
  rw [hheader, hparse] at hparse'
  have hsame : u'.header = u.header := (Except.ok.inj hparse').symm
  calc data' = frameOf u'.header.version u'.headerBytes u'.ciphertext := (eq_frameOf_of_unpack h').1
    _ = frameOf u.header.version u.headerBytes u.ciphertext := by rw [hsame, hheader, hciphertext]
    _ = data := (eq_frameOf_of_unpack h).1.symm

/-- **A header that was changed is noticed**: a file with the ciphertext of a
created vault opens, with whatever credentials and in whatever world, only if
it is that vault. -/
theorem eq_of_openVault {hasMetadata : Bool} {args : CreateArgs} {created : Created Time} (hbinds : env.aead.Binds)
    (hcreate : (create env hasMetadata args).run w = .ok created w') {vault data : Bytes} {frame frame' : UnpackedFrame}
    (hvault : w'.files (env.resolve args.targetPath) = some vault) (hframe : unpack env vault = .ok frame)
    (hframe' : unpack env data = .ok frame') (hsame : frame'.ciphertext = frame.ciphertext) {v v' : World γ Time}
    {sourcePath : Path} (hdata : v.files (env.resolve sourcePath) = some data) {credentials : Credentials}
    {skipChecksum : Bool} {opened : OpenedVault Time}
    (hopen : (openVault env sourcePath credentials skipChecksum).run v = .ok opened v') : data = vault := by
  obtain ⟨fps, unlockFps, p, -, -, hleaves⟩ := create_eq_ok hcreate
  obtain ⟨plaintext, header, key, -, -, headerBytes, ciphertext, hpack, hencrypt⟩ := hleaves.frame
  obtain rfl : vault = p.frame := Option.some.inj (hvault.symm.trans hleaves.vault)
  -- the frame has the header's octets and the ciphertext that were sealed
  obtain ⟨-, hheader, -, hsealed⟩ := pack_eq_ok.mp hpack
  obtain ⟨hread, hheaderLen, -⟩ := eq_frameOf_of_unpack hframe
  have hmax : maxHeaderSize = 65536 := rfl
  obtain ⟨hheaderBytes, hciphertext⟩ := frameOf_inj (by omega) (by omega) (hread.symm.trans hsealed)
  -- what opens is decrypted with the octets of its own header
  obtain ⟨data', found, v1, payload, v2, hdata', hfound, hdecrypt⟩ := run_openVault_eq_ok hopen
  obtain rfl : data = data' := Option.some.inj (hdata.symm.trans hdata')
  obtain rfl : frame' = found := Except.ok.inj (hframe'.symm.trans hfound)
  obtain ⟨key', v3, -, hoctets⟩ := run_decryptFrame_eq_ok env hdecrypt
  have hdecrypted := Aead.decrypt_of_decryptChecked hoctets
  rw [hsame, hciphertext] at hdecrypted
  have hbound := hbinds (Aead.encryptChecked_eq_ok.mp hencrypt).2 hdecrypted
  exact eq_of_headerBytes hframe hframe' (hbound.trans hheaderBytes.symm) hsame

/-- A cipher that puts the associated data in front of the ciphertext. -/
def bindingPlatform : Platform Unit Unit :=
  { taggingPlatform with
    aead :=
      { encrypt := fun _ _ _ associatedData plaintext =>
          if associatedData.length < 2 ^ 32 then some (u32 associatedData.length ++ associatedData ++ plaintext)
          else none
        decrypt := fun _ _ _ associatedData ciphertext =>
          if associatedData.length < 2 ^ 32 ∧ u32 associatedData.length ++ associatedData <+: ciphertext then
            some (ciphertext.drop (4 + associatedData.length))
          else none } }

theorem binds_bindingPlatform : bindingPlatform.aead.Binds := by
  intro cipher cipher' key key' nonce nonce' associatedData associatedData' plaintext plaintext' ciphertext
    hencrypt hdecrypt
  simp only [bindingPlatform] at hencrypt hdecrypt
  split_ifs at hencrypt hdecrypt with hlen hboth
  obtain rfl := Option.some.inj hencrypt
  obtain ⟨hlen', rest, hrest⟩ := hboth
  rw [List.append_assoc, List.append_assoc] at hrest
  obtain ⟨hu32, hrest⟩ := List.append_inj hrest rfl
  have hsame : associatedData'.length = associatedData.length := by
    rw [← ofU32_u32 hlen', ← ofU32_u32 hlen, hu32]
  exact (List.append_inj hrest hsame).1

/-- The vault with another time cost in its header. -/
def forged (vault : Bytes) : Bytes := vault.set 243 0x32

/-- The forged file is another one with the same ciphertext. -/
def forges (vault : Bytes) : Bool :=
  match unpack bindingPlatform vault, unpack bindingPlatform (forged vault) with
  | .ok frame, .ok frame' => frame'.ciphertext = frame.ciphertext ∧ forged vault ≠ vault
  | _, _ => false

theorem forges_eq_true {vault : Bytes} (h : forges vault = true) : ∃ frame frame',
    unpack bindingPlatform vault = .ok frame ∧ unpack bindingPlatform (forged vault) = .ok frame' ∧
      frame'.ciphertext = frame.ciphertext ∧ forged vault ≠ vault := by
  unfold forges at h
  split at h
  next frame frame' hframe hframe' => exact ⟨frame, frame', hframe, hframe', of_decide_eq_true h⟩
  next => cases h

/-- The vault opens, and what was made of it does not. -/
theorem eq_of_openVault_sample : ∃ created w' vault opened v',
    (create bindingPlatform false ownKeyArgs).run (sampleWorld () fun _ => none) = .ok created w' ∧
      (openVault bindingPlatform cardPath { masterPassphrase := some (ascii "secret") } true).run
          (sampleWorld () w'.files) = .ok opened v' ∧
      w'.files cardPath = some vault ∧ ∀ credentials skipChecksum opened v',
        (openVault bindingPlatform cardPath credentials skipChecksum).run
          (sampleWorld () fun _ => some (forged vault)) ≠ .ok opened v' := by
  have hreturns : returns (fun _ w' => returns (fun _ _ => true)
        (openVault bindingPlatform cardPath { masterPassphrase := some (ascii "secret") } true)
          (sampleWorld () w'.files) &&
      (w'.files cardPath).any forges)
      (create bindingPlatform false ownKeyArgs) (sampleWorld () fun _ => none) = true := by
    decide +kernel
  obtain ⟨created, w', hcreate, hreturns⟩ := returns_eq_true.mp hreturns
  obtain ⟨hreturns, hforged⟩ := Bool.and_eq_true_iff.mp hreturns
  obtain ⟨opened, v', hopen, -⟩ := returns_eq_true.mp hreturns
  obtain ⟨vault, hvault, hforged⟩ := (Option.any_eq_true _ _).mp hforged
  obtain ⟨frame, frame', hframe, hframe', hsame, hne⟩ := forges_eq_true hforged
  exact ⟨created, w', vault, opened, v', hcreate, hopen, hvault, fun _ _ _ _ hopen' =>
    hne (eq_of_openVault binds_bindingPlatform hcreate hvault hframe hframe' hsame rfl hopen')⟩

end VaultService
end GpgMeister
