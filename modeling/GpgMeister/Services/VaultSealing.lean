/-
# What a created vault holds

What `create` has put into the file when it returns: a payload with the
manifest and the keys, sealed under a key (`Seals`) that is derived from the
master passphrase, or that every unlock method has a slot for (`KeyKept`).

* `sealPayload_eq_ok`: the frame that either format gives.
* `create_eq_ok`: what `create` returns, and what the two files hold.
-/
import GpgMeister.Lib.MapM
import GpgMeister.Services.Keyring
import GpgMeister.Services.VaultCreateRecords

namespace GpgMeister
namespace VaultService

open VaultFormat VaultKeyslots VaultPayload Program

variable {γ Time : Type} {env : Platform γ Time} {w w' : World γ Time}

/-! ### Frames -/

/-- The frame has this header, and the plaintext under this key. -/
def Seals (env : Platform γ Time) (plaintext key : Bytes) (header : VaultHeader) (frame : Bytes) : Prop :=
  ∃ headerBytes ciphertext, pack env header ciphertext = .ok (frame, headerBytes) ∧
    env.aead.encryptChecked plaintext key header.cipher.nonce headerBytes header.cipher.algorithm = .ok ciphertext

/-- The octets of the header do not depend on the ciphertext. -/
theorem sealFrame_eq_ok {header : VaultHeader} {plaintext key frame : Bytes}
    (h : sealFrame env header plaintext key header.cipher.nonce header.cipher.algorithm = .ok frame) :
    Seals env plaintext key header frame := by
  obtain ⟨⟨_, headerBytes⟩, hpack, h⟩ := bind_eq_ok h
  obtain ⟨ciphertext, hencrypt, h⟩ := bind_eq_ok h
  obtain ⟨⟨frame', headerBytes'⟩, hpack', h⟩ := bind_eq_ok h
  obtain rfl : frame' = frame := Except.ok.inj h
  have hbytes := (pack_eq_ok.mp hpack).1
  obtain rfl : headerBytes' = headerBytes := Except.ok.inj ((pack_eq_ok.mp hpack').1.symm.trans hbytes)
  exact ⟨headerBytes', ciphertext, hpack', hencrypt⟩

/-- The parameters of the cipher are those that were given. -/
theorem CipherParams.make_eq_some {cipher : CipherAlgorithm} {nonce : Bytes} {c : CipherParams}
    (h : CipherParams.make cipher (Base64.encode nonce) = some c) : c.algorithm = cipher ∧ c.nonce = nonce := by
  unfold CipherParams.make at h
  split_ifs at h
  obtain rfl := Option.some.inj h
  refine ⟨rfl, ?_⟩
  rw [CipherParams.nonce, Base64.decode_encode]
  rfl

theorem VaultHeader.make_eq_some {version : ℕ} {kdf : Option KDFFields} {cipher : CipherParams}
    {keySlots : Option (List VaultKeySlot)} {header : VaultHeader}
    (h : VaultHeader.make version kdf cipher keySlots = some header) :
    header.kdf = kdf ∧ header.cipher = cipher ∧ header.keySlots = keySlots := by
  unfold VaultHeader.make at h
  split_ifs at h
  obtain rfl := Option.some.inj h
  exact ⟨rfl, rfl, rfl⟩

/-! ### The key of a vault without slots -/

theorem buildHeader_eq_some {cipher : CipherAlgorithm} {salt nonce : Bytes} {params : KDFParams} {header : VaultHeader}
    (h : buildHeader cipher salt nonce params = some header) (hlen : salt.length = params.saltLen.val) :
    header.cipher.algorithm = cipher ∧ header.cipher.nonce = nonce ∧ header.keySlots = none ∧
      ∃ kdf, header.kdf = some kdf ∧ kdf.salt = salt ∧ kdf.toParams = params := by
  obtain ⟨kdf, hkdf, h⟩ := Option.bind_eq_some_iff.mp h
  obtain ⟨c, hc, h⟩ := Option.bind_eq_some_iff.mp h
  obtain ⟨halgorithm, hnonce⟩ := CipherParams.make_eq_some hc
  obtain ⟨hk, hcipher, hslots⟩ := VaultHeader.make_eq_some h
  obtain ⟨hsalt, hparams⟩ := KDFFields.fromParams_eq_some hkdf hlen
  exact ⟨by rw [hcipher, halgorithm], by rw [hcipher, hnonce], hslots, kdf, hk, hsalt, hparams⟩

theorem encryptPayload_eq_ok {plaintext passphrase frame : Bytes} {params : KDFParams} {cipher : CipherAlgorithm}
    (h : (encryptPayload env plaintext passphrase params cipher).run w = .ok frame w') :
    ∃ header kdf key, header.keySlots = none ∧ header.kdf = some kdf ∧ kdf.toParams = params ∧
      deriveKeyOf env passphrase kdf.salt params = .ok key ∧ Seals env plaintext key header frame := by
  obtain ⟨salt, w1, hsalt, h⟩ := run_bind_eq_ok.mp h
  obtain ⟨nonce, w2, -, h⟩ := run_bind_eq_ok.mp h
  obtain ⟨header, w3, hheader, h⟩ := run_bind_eq_ok.mp h
  obtain ⟨key, w4, hkey, h⟩ := run_bind_eq_ok.mp h
  obtain ⟨hseal, -⟩ := run_ofExcept_eq_ok.mp h
  obtain ⟨hheader, -⟩ := run_validated_eq_ok hheader
  obtain ⟨halgorithm, hnonce, hslots, kdf, hkdf, hsalt', hparams⟩ :=
    buildHeader_eq_some hheader (run_generateSalt_eq_ok hsalt)
  rw [← halgorithm, ← hnonce] at hseal
  exact ⟨header, kdf, key, hslots, hkdf, hparams, by rw [hsalt', run_deriveKey_eq_ok hkey], sealFrame_eq_ok hseal⟩

/-! ### Slots -/

theorem VaultKeySlot.make_eq_some {type : VaultSlotType} {wrapped : Bytes} {kdf : Option KDFFields}
    {nonceB64 fingerprint : Option Str} {label : Str} {slot : VaultKeySlot}
    (h : VaultKeySlot.make type (Base64.encode wrapped) kdf nonceB64 fingerprint label = some slot) :
    slot.type = type ∧ slot.wrappedKey = wrapped ∧ slot.kdf = kdf ∧ slot.nonceB64 = nonceB64 := by
  obtain ⟨fp, -, h⟩ := Option.bind_eq_some_iff.mp h
  split_ifs at h
  obtain rfl := Option.some.inj h
  refine ⟨rfl, ?_, rfl, rfl⟩
  rw [VaultKeySlot.wrappedKey, Base64.decode_encode]
  rfl

/-- The fingerprint of a slot is the one that was given, if that is in the normal form. -/
theorem VaultKeySlot.make_fingerprint {type : VaultSlotType} {wrapped : Str} {kdf : Option KDFFields}
    {nonceB64 : Option Str} {fp label : Str} {slot : VaultKeySlot} (hfp : normaliseFingerprint fp = some fp)
    (h : VaultKeySlot.make type wrapped kdf nonceB64 (some fp) label = some slot) : slot.fingerprint = some fp := by
  obtain ⟨fp', hfp', h⟩ := Option.bind_eq_some_iff.mp h
  split_ifs at h
  obtain rfl := Option.some.inj h
  have hsome : normaliseOptional (some fp) = some (some fp) := by simp [normaliseOptional, hfp]
  exact (Option.some.inj (hsome.symm.trans hfp')).symm

/-- The slot has the file key under a passphrase. -/
structure WrapsFor (env : Platform γ Time) (fileKey passphrase : Bytes) (params : KDFParams) (cipher : CipherAlgorithm)
    (slot : VaultKeySlot) : Prop where
  type : slot.type = .passphrase
  wrapped : ∃ kdf nonce slotKey, slot.kdf = some kdf ∧ slot.nonce = some nonce ∧ kdf.toParams = params ∧
    deriveKeyOf env passphrase kdf.salt params = .ok slotKey ∧
    env.aead.encryptChecked fileKey slotKey nonce (slotAssociatedData .passphrase) cipher = .ok slot.wrappedKey

theorem wrapWithPassphrase_eq_ok {fileKey passphrase : Bytes} {params : KDFParams} {cipher : CipherAlgorithm}
    {slot : VaultKeySlot} (h : (wrapWithPassphrase env fileKey passphrase params cipher).run w = .ok slot w') :
    WrapsFor env fileKey passphrase params cipher slot := by
  obtain ⟨salt, w1, hsalt, h⟩ := run_bind_eq_ok.mp h
  obtain ⟨nonce, w2, -, h⟩ := run_bind_eq_ok.mp h
  obtain ⟨slotKey, w3, hkey, h⟩ := run_bind_eq_ok.mp h
  obtain ⟨wrapped, w4, hwrapped, h⟩ := run_bind_eq_ok.mp h
  obtain ⟨hwrapped, -⟩ := run_ofExcept_eq_ok.mp hwrapped
  obtain ⟨hslot, -⟩ := run_validated_eq_ok h
  obtain ⟨kdf, hkdf, hslot⟩ := Option.bind_eq_some_iff.mp hslot
  obtain ⟨htype, hoctets, hkdf', hnonce⟩ := VaultKeySlot.make_eq_some hslot
  obtain ⟨hsalt', hparams⟩ := KDFFields.fromParams_eq_some hkdf (run_generateSalt_eq_ok hsalt)
  refine ⟨htype, kdf, nonce, slotKey, hkdf', ?_, hparams, ?_, ?_⟩
  · rw [VaultKeySlot.nonce, hnonce]
    exact Base64.decode_encode nonce
  · rw [hsalt', run_deriveKey_eq_ok hkey]
  · rw [hoctets]
    exact hwrapped

/-- GnuPG has encrypted the plaintext for the key, into this message. -/
def Encrypted (gpg : GnuPG γ Time) (fp : Str) (plaintext message : Bytes) : Prop :=
  ∃ g out g', gpg.popen (GPGService.encryptArgs [fp] none true) (some plaintext) none g = (.ok out, g') ∧
    out.returncode = 0 ∧ out.stdout = message

/-- The slot has the file key as a message for the key with this fingerprint. -/
structure SealsFor (env : Platform γ Time) (fileKey : Bytes) (fp : Str) (slot : VaultKeySlot) : Prop where
  type : slot.type = .openpgp
  fingerprint : slot.fingerprint = some fp
  encrypted : ∃ message, Encrypted env.gpg fp fileKey message ∧
    Utf8.encode (Gpg.decodeOutput message) = some slot.wrappedKey

theorem run_runGpg_eq_ok {args : List Str} {input passphrase : Option Bytes} {statusFd : Bool} {proc : Gpg.GPGRun}
    (h : (GPGService.runGpg env args input passphrase statusFd).run w = .ok proc w') :
    ∃ g out g', env.gpg.popen args input passphrase g = (.ok out, g') ∧ proc.returncode = out.returncode ∧
      proc.stdout = out.stdout := by
  obtain ⟨_, w1, -, h⟩ := run_bind_eq_ok.mp h
  obtain ⟨passBytes, w2, -, h⟩ := run_bind_eq_ok.mp h
  obtain ⟨_, w3, -, h⟩ := run_bind_eq_ok.mp h
  obtain ⟨_, w4, -, h⟩ := run_bind_eq_ok.mp h
  obtain ⟨_, w5, -, h⟩ := run_bind_eq_ok.mp h
  obtain ⟨out, w6, hout, h⟩ := run_bind_eq_ok.mp h
  obtain ⟨rfl, -⟩ := run_pure_eq_ok.mp h
  have hmeets : (GPGService.onGnupg (env.gpg.popen args input passphrase) : Program (World γ Time) Exc _).Meets w5
      (fun out _ => ∃ g', env.gpg.popen args input passphrase w5.gnupg = (.ok out, g')) fun _ _ => True := by
    unfold Meets
    simp only [EStateM.run, GPGService.onGnupg]
    rcases env.gpg.popen args input passphrase w5.gnupg with ⟨_ | out, g'⟩
    · trivial
    · exact ⟨g', rfl⟩
  obtain ⟨g', hpopen⟩ := hmeets.of_run_eq_ok hout
  exact ⟨w5.gnupg, out, g', hpopen, rfl, rfl⟩

theorem run_encrypt_eq_ok {plaintext : Bytes} {fp armored : Str} (hfp : GPGService.validateFingerprint fp = .ok fp)
    (h : (GPGService.encrypt env plaintext [fp] none none true).run w = .ok armored w') :
    ∃ message, Encrypted env.gpg fp plaintext message ∧ armored = Gpg.decodeOutput message := by
  obtain ⟨recipients, w1, hrecipients, h⟩ := run_bind_eq_ok.mp h
  obtain ⟨hrecipients, -⟩ := run_ofExcept_eq_ok.mp hrecipients
  obtain rfl : [fp] = recipients := Except.ok.inj ((mapM_cons_of_ok hfp rfl).symm.trans hrecipients)
  obtain ⟨signer, w2, hsigner, h⟩ := run_bind_eq_ok.mp h
  obtain ⟨hsigner, -⟩ := run_ofExcept_eq_ok.mp hsigner
  obtain rfl : none = signer := Except.ok.inj hsigner
  obtain ⟨proc, w3, hproc, h⟩ := run_bind_eq_ok.mp h
  obtain ⟨_, w4, hrequire, h⟩ := run_bind_eq_ok.mp h
  obtain ⟨rfl, -⟩ := run_pure_eq_ok.mp h
  obtain ⟨hrequire, -⟩ := run_ofExcept_eq_ok.mp hrequire
  obtain ⟨g, out, g', hpopen, hcode, hstdout⟩ := run_runGpg_eq_ok hproc
  have hzero : proc.returncode = 0 := by
    unfold GPGService.requireOk at hrequire
    split_ifs at hrequire with hne
    simpa using hne
  exact ⟨proc.stdout, ⟨g, out, g', hpopen, hcode.symm.trans hzero, hstdout.symm⟩, rfl⟩

theorem normalise_of_validate {fp : Str} (h : GPGService.validateFingerprint fp = .ok fp) :
    normaliseFingerprint fp = some fp := by
  unfold GPGService.validateFingerprint at h
  cases hn : normaliseFingerprint fp with
  | none => simp [hn] at h
  | some fp' =>
    simp only [hn, Except.ok.injEq] at h
    rw [h]

theorem run_findKey_eq_ok {fp : Str} {key : KeyInfo Time} (hfp : GPGService.validateFingerprint fp = .ok fp)
    (h : (GPGService.findKey env fp).run w = .ok key w') : key.fingerprint = fp := by
  obtain ⟨fp', w1, hfp', h⟩ := run_bind_eq_ok.mp h
  obtain ⟨hfp', -⟩ := run_ofExcept_eq_ok.mp hfp'
  obtain rfl : fp = fp' := Except.ok.inj (hfp.symm.trans hfp')
  obtain ⟨keys, w2, -, h⟩ := run_bind_eq_ok.mp h
  cases hfind : keys.find? (·.fingerprint = fp) with
  | none =>
    rw [hfind] at h
    cases h
  | some found =>
    rw [hfind] at h
    obtain ⟨rfl, -⟩ := run_pure_eq_ok.mp h
    simpa using List.find?_some hfind

theorem wrapForKey_eq_ok {fileKey : Bytes} {fp : Str} {slot : VaultKeySlot}
    (hfp : GPGService.validateFingerprint fp = .ok fp)
    (h : (wrapForKey env fileKey fp).run w = .ok slot w') : SealsFor env fileKey fp slot := by
  obtain ⟨key, w1, hkey, h⟩ := run_bind_eq_ok.mp h
  split_ifs at h
  · cases h
  obtain ⟨expired, w2, -, h⟩ := run_bind_eq_ok.mp h
  split_ifs at h
  · cases h
  obtain ⟨armored, w3, harmored, h⟩ := run_bind_eq_ok.mp h
  obtain ⟨wrapped, w4, hwrapped, h⟩ := run_bind_eq_ok.mp h
  obtain ⟨label, w5, -, h⟩ := run_bind_eq_ok.mp h
  obtain ⟨hslot, -⟩ := run_validated_eq_ok h
  obtain ⟨htype, hoctets, -⟩ := VaultKeySlot.make_eq_some hslot
  obtain ⟨hwrapped, -⟩ := run_ofExcept_eq_ok.mp hwrapped
  obtain ⟨message, hmessage, rfl⟩ := run_encrypt_eq_ok hfp harmored
  have hkeyFp := run_findKey_eq_ok hfp hkey
  have hfingerprint := VaultKeySlot.make_fingerprint (hkeyFp ▸ normalise_of_validate hfp) hslot
  rw [hkeyFp] at hfingerprint
  exact ⟨htype, hfingerprint, message, hmessage, by rw [hoctets, encodeUtf8_eq_ok hwrapped]⟩

/-! ### The key of a vault with slots -/

theorem buildSlotHeader_eq_some {cipher : CipherAlgorithm} {nonce : Bytes} {slots : List VaultKeySlot}
    {header : VaultHeader} (h : buildSlotHeader cipher nonce slots = some header) :
    header.cipher.algorithm = cipher ∧ header.cipher.nonce = nonce ∧ header.keySlots = some slots := by
  obtain ⟨c, hc, h⟩ := Option.bind_eq_some_iff.mp h
  obtain ⟨halgorithm, hnonce⟩ := CipherParams.make_eq_some hc
  obtain ⟨-, hcipher, hslots⟩ := VaultHeader.make_eq_some h
  exact ⟨by rw [hcipher, halgorithm], by rw [hcipher, hnonce], hslots⟩

theorem wrapForPassphrase_eq_ok {fileKey : Bytes} {masterPassphrase : Option Bytes} {params : KDFParams}
    {cipher : CipherAlgorithm} {slots : List VaultKeySlot}
    (h : (wrapForPassphrase env fileKey masterPassphrase params cipher).run w = .ok slots w') :
    List.Forall₂ (fun passphrase slot => WrapsFor env fileKey passphrase params cipher slot)
      masterPassphrase.toList slots := by
  cases masterPassphrase with
  | none =>
    obtain ⟨rfl, -⟩ := run_pure_eq_ok.mp h
    exact .nil
  | some passphrase =>
    obtain ⟨slot, w1, hslot, h⟩ := run_bind_eq_ok.mp h
    obtain ⟨rfl, -⟩ := run_pure_eq_ok.mp h
    exact .cons (wrapWithPassphrase_eq_ok hslot) .nil

/-- How the key of a vault is kept: it is derived from the master passphrase; or
it is in slots, one for the master passphrase if there is one, and one for each
unlock key. -/
inductive KeyKept (env : Platform γ Time) (args : CreateArgs) (unlockFps : List Str) (key : Bytes)
    (header : VaultHeader) : Prop
  | derived (passphrase : Bytes) (kdf : KDFFields) (noKeys : unlockFps = [])
    (given : args.masterPassphrase = some passphrase) (noSlots : header.keySlots = none)
    (fields : header.kdf = some kdf) (params : kdf.toParams = args.params)
    (derives : deriveKeyOf env passphrase kdf.salt args.params = .ok key)
  | wrapped (passphraseSlots keySlots : List VaultKeySlot) (length : key.length = fileKeyLen)
    (algorithm : header.cipher.algorithm = args.cipher)
    (slots : header.keySlots = some (passphraseSlots ++ keySlots)) (nonempty : unlockFps ≠ [])
    (forPassphrase : List.Forall₂ (fun passphrase slot => WrapsFor env key passphrase args.params args.cipher slot)
      args.masterPassphrase.toList passphraseSlots)
    (forKeys : List.Forall₂ (SealsFor env key) unlockFps keySlots)

/-- **What is sealed, and where its key is**, in either format. -/
theorem sealPayload_eq_ok {args : CreateArgs} {unlockFps : List Str} {plaintext frame : Bytes}
    (hfps : ∀ fp ∈ unlockFps, GPGService.validateFingerprint fp = .ok fp)
    (h : (sealPayload env args unlockFps plaintext).run w = .ok frame w') :
    ∃ header key, KeyKept env args unlockFps key header ∧ Seals env plaintext key header frame := by
  unfold sealPayload at h
  by_cases hne : unlockFps ≠ []
  · rw [if_pos hne] at h
    obtain ⟨nonce, w1, -, h⟩ := run_bind_eq_ok.mp h
    obtain ⟨fileKey, w2, hfileKey, h⟩ := run_bind_eq_ok.mp h
    obtain ⟨passphraseSlots, w3, hpassphrase, h⟩ := run_bind_eq_ok.mp h
    obtain ⟨keySlots, w4, hkeys, h⟩ := run_bind_eq_ok.mp h
    dsimp only at h
    split_ifs at h
    · cases h
    · cases h
    obtain ⟨header, w5, hheader, h⟩ := run_bind_eq_ok.mp h
    obtain ⟨hseal, -⟩ := run_ofExcept_eq_ok.mp h
    obtain ⟨hheader, -⟩ := run_validated_eq_ok hheader
    obtain ⟨halgorithm, hnonce, hslots⟩ := buildSlotHeader_eq_some hheader
    rw [← halgorithm, ← hnonce] at hseal
    have hforKeys : List.Forall₂ (SealsFor env fileKey) unlockFps keySlots :=
      forall₂_imp_of_mem (forall₂_of_run_mapM hkeys) fun fp hfp slot hrun => by
        obtain ⟨t, t', hrun⟩ := hrun
        exact wrapForKey_eq_ok (hfps fp hfp) hrun
    exact ⟨header, fileKey, .wrapped passphraseSlots keySlots (run_tokenBytes_eq_ok hfileKey) halgorithm hslots hne
      (wrapForPassphrase_eq_ok hpassphrase) hforKeys, sealFrame_eq_ok hseal⟩
  · rw [if_neg hne] at h
    cases hgiven : args.masterPassphrase with
    | none =>
      rw [hgiven] at h
      cases h
    | some passphrase =>
      rw [hgiven] at h
      obtain ⟨header, kdf, key, hslots, hkdf, hparams, hderives, hseals⟩ := encryptPayload_eq_ok h
      exact ⟨header, key, .derived passphrase kdf (not_not.mp hne) hgiven hslots hkdf hparams hderives, hseals⟩

/-! ### What is collected -/

/-- GnuPG has given out this armor, in a run with these arguments. -/
def Exported (gpg : GnuPG γ Time) (args : List Str) (passphrase : Option Bytes) (armor : Bytes) : Prop :=
  ∃ g out g', gpg.popen args none passphrase g = (.ok out, g') ∧
    Utf8.encode (Gpg.decodeOutput out.stdout) = some armor

/-- The item of a fingerprint: its key, as GnuPG has exported it. -/
structure Collects (env : Platform γ Time) (gpgPassphrases : Str → Option Bytes) (fp : Str)
    (item : CollectedEntry Time) : Prop where
  fingerprint : item.entry.fingerprint = fp
  publicKey : item.publicKey ≠ [] ∧ Exported env.gpg [lit "--armor", lit "--export", fp] none item.publicKey
  hasPrivate : item.entry.hasPrivateKey = item.privateKey.isSome
  privateKey : ∀ armor, item.privateKey = some armor → armor ≠ [] ∧ ∃ keyPw, gpgPassphrases fp = some keyPw ∧
    Exported env.gpg [lit "--armor", lit "--export-secret-keys", fp] (some keyPw) armor

/-- A text without octets is empty. -/
theorem armor_ne_nil {armored : Str} {armor : Bytes} (hne : armored ≠ []) (harmor : Utf8.encode armored = some armor) :
    armor ≠ [] := by
  rintro rfl
  have hdecoded := Utf8.decodeReplace_encode harmor
  rw [Utf8.decodeReplace_eq_nil.mpr rfl] at hdecoded
  exact hne hdecoded.symm

theorem run_exportPublicKey_eq_ok {fp armored : Str} (hfp : GPGService.validateFingerprint fp = .ok fp)
    (h : (GPGService.exportPublicKey env fp).run w = .ok armored w') {armor : Bytes}
    (harmor : Utf8.encode armored = some armor) :
    armor ≠ [] ∧ Exported env.gpg [lit "--armor", lit "--export", fp] none armor := by
  obtain ⟨fp', w1, hfp', h⟩ := run_bind_eq_ok.mp h
  obtain ⟨hfp', -⟩ := run_ofExcept_eq_ok.mp hfp'
  obtain rfl : fp = fp' := Except.ok.inj (hfp.symm.trans hfp')
  obtain ⟨proc, w2, hproc, h⟩ := run_bind_eq_ok.mp h
  obtain ⟨h, -⟩ := run_ofExcept_eq_ok.mp h
  obtain ⟨g, out, g', hpopen, -, hstdout⟩ := run_runGpg_eq_ok hproc
  unfold GPGService.publicArmor at h
  split_ifs at h with hempty
  obtain rfl := Except.ok.inj h
  exact ⟨armor_ne_nil hempty harmor, g, out, g', hpopen, by rw [← hstdout, harmor]⟩

theorem run_exportPrivateKey_eq_ok {fp armored : Str} {keyPw : Bytes} (hfp : GPGService.validateFingerprint fp = .ok fp)
    (h : (GPGService.exportPrivateKey env fp keyPw).run w = .ok armored w') {armor : Bytes}
    (harmor : Utf8.encode armored = some armor) :
    armor ≠ [] ∧ Exported env.gpg [lit "--armor", lit "--export-secret-keys", fp] (some keyPw) armor := by
  obtain ⟨fp', w1, hfp', h⟩ := run_bind_eq_ok.mp h
  obtain ⟨hfp', -⟩ := run_ofExcept_eq_ok.mp hfp'
  obtain rfl : fp = fp' := Except.ok.inj (hfp.symm.trans hfp')
  obtain ⟨proc, w2, hproc, h⟩ := run_bind_eq_ok.mp h
  obtain ⟨h, -⟩ := run_ofExcept_eq_ok.mp h
  obtain ⟨g, out, g', hpopen, -, hstdout⟩ := run_runGpg_eq_ok hproc
  unfold GPGService.privateArmor at h
  by_cases hempty : Gpg.decodeOutput proc.stdout = []
  · rw [if_pos hempty] at h
    dsimp only at h
    split_ifs at h
  · rw [if_neg hempty] at h
    obtain rfl := Except.ok.inj h
    exact ⟨armor_ne_nil hempty harmor, g, out, g', hpopen, by rw [← hstdout, harmor]⟩

theorem run_exportPrivateForVault_eq_ok {fp : Str} {key : KeyInfo Time} {gpgPassphrases : Str → Option Bytes}
    {armor : Bytes} (hfp : GPGService.validateFingerprint fp = .ok fp)
    (h : (exportPrivateForVault env fp key gpgPassphrases).run w = .ok (some armor) w') :
    armor ≠ [] ∧ ∃ keyPw, gpgPassphrases fp = some keyPw ∧
      Exported env.gpg [lit "--armor", lit "--export-secret-keys", fp] (some keyPw) armor := by
  unfold exportPrivateForVault at h
  split_ifs at h
  · obtain ⟨_, w1, -, h⟩ := run_bind_eq_ok.mp h
    cases (run_pure_eq_ok.mp h).1
  cases hpw : gpgPassphrases fp with
  | none =>
    rw [hpw] at h
    cases h
  | some keyPw =>
    rw [hpw] at h
    obtain ⟨exported, w1, hexported, h⟩ := run_bind_eq_ok.mp h
    cases exported with
    | error e =>
      dsimp only at h
      split_ifs at h
      · obtain ⟨_, w2, -, h⟩ := run_bind_eq_ok.mp h
        cases (run_pure_eq_ok.mp h).1
      · cases h
    | ok privateKey =>
      obtain ⟨_, w2, -, h⟩ := run_bind_eq_ok.mp h
      obtain rfl : privateKey = armor := Option.some.inj (run_pure_eq_ok.mp h).1
      have hexported := run_of_attempt_ok hexported
      obtain ⟨armored, w3, harmored, hencoded⟩ := run_bind_eq_ok.mp hexported
      obtain ⟨hencoded, -⟩ := run_ofExcept_eq_ok.mp hencoded
      obtain ⟨hne, hex⟩ := run_exportPrivateKey_eq_ok hfp harmored (encodeUtf8_eq_ok hencoded)
      exact ⟨hne, keyPw, rfl, hex⟩

theorem VaultKeyEntry.make_eq_some {fp : Str} {userIds : List Str} {hasPrivateKey isStub : Bool} {createdAt : Time}
    {expiresAt : Option Time} {entry : VaultKeyEntry Time} (hfp : normaliseFingerprint fp = some fp)
    (h : VaultKeyEntry.make fp userIds hasPrivateKey isStub createdAt expiresAt = some entry) :
    entry.fingerprint = fp ∧ entry.hasPrivateKey = hasPrivateKey := by
  unfold VaultKeyEntry.make at h
  dsimp only at h
  by_cases hlen : fp.length ≠ fingerprintLength
  · rw [if_pos hlen] at h
    cases h
  rw [if_neg hlen] at h
  obtain ⟨fp', hfp', h⟩ := Option.bind_eq_some_iff.mp h
  obtain rfl : fp = fp' := Option.some.inj (hfp.symm.trans hfp')
  split_ifs at h
  obtain rfl := Option.some.inj h
  exact ⟨rfl, rfl⟩

theorem collectEntry_eq_ok {gpgPassphrases : Str → Option Bytes} {fp : Str} {item : CollectedEntry Time}
    (hfp : GPGService.validateFingerprint fp = .ok fp)
    (h : (collectEntry env gpgPassphrases fp).run w = .ok item w') : Collects env gpgPassphrases fp item := by
  obtain ⟨key, w1, -, h⟩ := run_bind_eq_ok.mp h
  obtain ⟨armored, w2, harmored, h⟩ := run_bind_eq_ok.mp h
  obtain ⟨publicKey, w3, hpublic, h⟩ := run_bind_eq_ok.mp h
  obtain ⟨privateKey, w4, hprivate, h⟩ := run_bind_eq_ok.mp h
  obtain ⟨entry, w5, hentry, h⟩ := run_bind_eq_ok.mp h
  obtain ⟨rfl, -⟩ := run_pure_eq_ok.mp h
  obtain ⟨hentry, -⟩ := run_validated_eq_ok hentry
  obtain ⟨hpublic, -⟩ := run_ofExcept_eq_ok.mp hpublic
  obtain ⟨hfingerprint, hhas⟩ := VaultKeyEntry.make_eq_some (normalise_of_validate hfp) hentry
  refine ⟨hfingerprint, run_exportPublicKey_eq_ok hfp harmored (encodeUtf8_eq_ok hpublic), hhas, fun armor ha => ?_⟩
  dsimp only at ha
  subst ha
  exact run_exportPrivateForVault_eq_ok hfp hprivate

theorem Collects.fits {gpgPassphrases : Str → Option Bytes} {fp : Str} {item : CollectedEntry Time}
    (h : Collects env gpgPassphrases fp item) : item.Fits := by
  intro hhas
  rw [h.hasPrivate] at hhas
  obtain ⟨armor, harmor⟩ := Option.isSome_iff_exists.mp hhas
  rw [harmor]
  exact (h.privateKey armor harmor).1

/-! ### The whole call -/

/-- The contents of the vault, and the frame they are sealed in. -/
structure Prepares (env : Platform γ Time) (args : CreateArgs) (fps unlockFps : List Str) (p : Prepared Time) :
    Prop where
  collected : List.Forall₂ (Collects env args.gpgPassphrases) fps p.collected
  keys : p.manifest.keys = p.collected.map (·.entry)
  version : p.manifest.appVersion = appVersion
  frame : ∃ plaintext header key, serialiseSegmentedPayload env p.collected p.manifest = .ok plaintext ∧
    KeyKept env args unlockFps key header ∧ Seals env plaintext key header p.frame

theorem prepare_eq_ok {args : CreateArgs} {fps unlockFps : List Str} {p : Prepared Time}
    (hfps : ∀ fp ∈ fps, GPGService.validateFingerprint fp = .ok fp)
    (hunlock : ∀ fp ∈ unlockFps, GPGService.validateFingerprint fp = .ok fp)
    (h : (prepare env args fps unlockFps).run w = .ok p w') : Prepares env args fps unlockFps p := by
  obtain ⟨collected, w1, hcollected, h⟩ := run_bind_eq_ok.mp h
  obtain ⟨now, w2, -, h⟩ := run_bind_eq_ok.mp h
  obtain ⟨manifest, w3, hmanifest, h⟩ := run_bind_eq_ok.mp h
  obtain ⟨plaintext, w4, hplaintext, h⟩ := run_bind_eq_ok.mp h
  obtain ⟨frame, w5, hframe, h⟩ := run_bind_eq_ok.mp h
  obtain ⟨rfl, -⟩ := run_pure_eq_ok.mp h
  obtain ⟨hmanifest, -⟩ := run_validated_eq_ok hmanifest
  obtain ⟨hplaintext, -⟩ := run_ofExcept_eq_ok.mp hplaintext
  obtain ⟨header, key, hkept, hseals⟩ := sealPayload_eq_ok hunlock hframe
  unfold VaultManifest.make at hmanifest
  split_ifs at hmanifest
  obtain rfl := Option.some.inj hmanifest
  have hall : List.Forall₂ (Collects env args.gpgPassphrases) fps collected :=
    forall₂_imp_of_mem (forall₂_of_run_mapM hcollected) fun fp hfp item hrun => by
      obtain ⟨t, t', hrun⟩ := hrun
      exact collectEntry_eq_ok (hfps fp hfp) hrun
  exact ⟨hall, rfl, rfl, plaintext, header, key, hplaintext, hkept, hseals⟩

/-- The vault of a call that returned, and the files it has left. -/
structure Leaves (env : Platform γ Time) (args : CreateArgs) (fps unlockFps : List Str) (created : Created Time)
    (w' : World γ Time) (p : Prepared Time) : Prop extends Prepares env args fps unlockFps p where
  created_eq : created = p.created env (env.resolve args.targetPath)
  vault : w'.files (env.resolve args.targetPath) = some p.frame
  sidecar : ∃ line, Utf8.encode (sidecarLine (env.sha256 p.frame) (env.resolve args.targetPath)) = some line ∧
    w'.files (sidecarOf (env.resolve args.targetPath)) = some line

theorem beforeLock_eq_ok {args : CreateArgs} {fps unlockFps : List Str} {target : Path}
    (h : (beforeLock env args).run w = .ok (fps, unlockFps, target) w') :
    args.fingerprints.mapM GPGService.validateFingerprint = .ok fps ∧
      args.unlockKeyFingerprints.mapM GPGService.validateFingerprint = .ok unlockFps := by
  obtain ⟨fps', w1, hfps, h⟩ := run_bind_eq_ok.mp h
  split_ifs at h
  · cases h
  obtain ⟨unlockFps', w2, hunlock, h⟩ := run_bind_eq_ok.mp h
  split_ifs at h
  · cases h
  obtain ⟨_, w3, -, h⟩ := run_bind_eq_ok.mp h
  obtain ⟨_, w4, -, h⟩ := run_bind_eq_ok.mp h
  obtain ⟨_, w5, -, h⟩ := run_bind_eq_ok.mp h
  obtain ⟨heq, -⟩ := run_pure_eq_ok.mp h
  obtain ⟨rfl, rfl, -⟩ : fps' = fps ∧ unlockFps' = unlockFps ∧ _ = target := by simpa using heq
  exact ⟨(run_ofExcept_eq_ok.mp hfps).1, (run_ofExcept_eq_ok.mp hunlock).1⟩

/-- **What a call of `create` that returned has left.** -/
theorem create_eq_ok {hasMetadata : Bool} {args : CreateArgs} {created : Created Time}
    (h : (create env hasMetadata args).run w = .ok created w') : ∃ fps unlockFps p,
      args.fingerprints.mapM GPGService.validateFingerprint = .ok fps ∧
      args.unlockKeyFingerprints.mapM GPGService.validateFingerprint = .ok unlockFps ∧
      Leaves env args fps unlockFps created w' p := by
  rw [create_eq] at h
  obtain ⟨⟨fps, unlockFps, target⟩, w1, hbefore, h⟩ := run_bind_eq_ok.mp h
  obtain ⟨hfps, hunlock⟩ := beforeLock_eq_ok hbefore
  obtain rfl : target = env.resolve args.targetPath := target_of_beforeLock env hbefore
  have hraises (e : Exc) (s : World γ Time) (a : Created Time) (s' : World γ Time) :
      (do emitCreateFailed env (env.resolve args.targetPath) e; Program.raise e : Program (World γ Time) Exc _).run s ≠
        .ok a s' := by
    intro hok
    obtain ⟨_, s1, -, hok⟩ := run_bind_eq_ok.mp hok
    cases hok
  have h := (run_catching_eq_ok hraises).mp h
  rw [createLocked_eq] at h
  obtain ⟨p, w2, hprepare, h⟩ := run_bind_eq_ok.mp h
  obtain ⟨_, w3, hwrite, h⟩ := run_bind_eq_ok.mp h
  obtain ⟨_, w4, hsidecar, h⟩ := run_bind_eq_ok.mp h
  obtain ⟨_, w5, hemit, h⟩ := run_bind_eq_ok.mp h
  obtain ⟨_, w6, hadd, h⟩ := run_bind_eq_ok.mp h
  obtain ⟨rfl, rfl⟩ := run_pure_eq_ok.mp h
  obtain ⟨-, hf3⟩ := run_atomicWriteBytes_ok hwrite
  obtain ⟨-, hf4, hline⟩ := run_writeSidecar_ok env hsidecar
  obtain ⟨-, hf5⟩ := run_emit_ok env hemit
  obtain ⟨-, hf6⟩ := visible_eq ((keeps_addRecord hasMetadata args _ _).of_run_eq_ok hadd)
  have hfiles : w6.files = w4.files := hf6.trans hf5
  obtain ⟨line, hencoded⟩ : ∃ line, Utf8.encode (sidecarLine (env.sha256 p.frame) (env.resolve args.targetPath)) =
      some line := by
    obtain ⟨line, _, hencode, -⟩ := run_bind_eq_ok.mp hsidecar
    exact ⟨line, encodeUtf8_eq_ok (run_ofExcept_eq_ok.mp hencode).1⟩
  refine ⟨fps, unlockFps, p, hfps, hunlock, ?_, rfl, ?_, line, hencoded, ?_⟩
  · exact prepare_eq_ok (GPGService.validateFingerprint_of_mapM hfps) (GPGService.validateFingerprint_of_mapM hunlock)
      hprepare
  · rw [hfiles, hf4, hf3]
    exact Function.update_self _ _ _
  · rw [hfiles, hline, hencoded]

end VaultService
end GpgMeister
