/-
# The vault service

`services/vault_service.py`: creating a vault from keys of the keyring,
opening one with a passphrase or a card's PIN, and importing its keys.
`create` returns with the descriptor what it has put into the file.
-/
import GpgMeister.Security.VaultKeyslots
import GpgMeister.Services.GpgService
import GpgMeister.Services.VaultPayload

namespace GpgMeister
namespace VaultService

open VaultFormat VaultKeyslots VaultPayload

variable {γ Time : Type} (env : Platform γ Time)

/-- `MAX_VAULT_FRAME_SIZE` -/
def maxVaultFrameSize : ℕ := headerOffset + maxHeaderSize + lengthField + maxCiphertextSize

/-- `APP_VERSION` -/
def appVersion : Str := lit "1.0.5"

def serviceError (message : Str) : Exc where
  cls := .vaultServiceError
  message := message

structure VaultDescriptor where
  path : Path
  sha256 : Str
  keyCount : ℕ

/-- What `create` returns, and what it has built. -/
structure Created (Time : Type) where
  descriptor : VaultDescriptor
  manifest : VaultManifest Time
  collected : List (CollectedEntry Time)

/-- `_OpenedVault` -/
structure OpenedVault (Time : Type) where
  manifest : VaultManifest Time
  srcPath : Path
  plaintext : Bytes
  keySlices : KeySlices

/-- `_OpenedVault.key_material`: the private armor if there is any. -/
def OpenedVault.keyMaterial (opened : OpenedVault Time) (fingerprint : Str) : Except Exc Bytes :=
  match opened.keySlices.lookup fingerprint with
  | none => .error { cls := .keyError, message := fingerprint }
  | some s =>
    .ok
      (if s.privateEnd > s.privateStart then slice opened.plaintext s.privateStart s.privateEnd
      else slice opened.plaintext s.publicStart s.publicEnd)

/-! ### Audit records -/

/-- `_emit_import_failed` -/
def emitImportFailed (src : Path) (reason : Str) : Program (World γ Time) Exc Unit :=
  emit env.toEnv (lit "vault_import_failed") (lit "failed")
    { items := [(lit "path", .str src.text), (lit "reason", .str reason)], unique := rfl }

def emitCreateFailed (target : Path) (e : Exc) : Program (World γ Time) Exc Unit :=
  emit env.toEnv (lit "vault_created") (lit "failed")
    { items := [(lit "path", .str target.text), (lit "reason", .str e.cls.name)], unique := rfl }

def emitCreated (target : Path) (keyCount : ℕ) (cipher : CipherAlgorithm) (sha : Str) (unlockKeyCount : ℕ) :
    Program (World γ Time) Exc Unit :=
  emit env.toEnv (lit "vault_created") (lit "ok")
    { items := [(lit "path", .str target.text), (lit "key_count", .int keyCount),
        (lit "cipher", .str cipher.value), (lit "sha256", .str sha), (lit "unlock_key_count", .int unlockKeyCount)]
      unique := rfl }

/-! ### Sealing the payload -/

/-- `_build_header` -/
def buildHeader (cipher : CipherAlgorithm) (salt nonce : Bytes) (params : KDFParams) : Option VaultHeader := do
  let kdf ← KDFFields.fromParams params salt
  let cipherParams ← CipherParams.make cipher (Base64.encode nonce)
  VaultHeader.make vaultFormatVersion (some kdf) cipherParams none

/-- `_validate_import_kdf` -/
def validateImportKdf (params : KDFParams) : Except Exc Unit :=
  if params.timeCost.val < minTimeCost ∨ params.memoryCost.val < minMemoryCostKb then
    .error (formatError (lit "vault KDF parameters are below the import safety floor"))
  else if params.timeCost.val > maxImportTimeCost ∨ params.memoryCost.val > maxImportMemoryCostKb ∨
      params.parallelism.val > maxImportParallelism then
    .error (formatError (lit "vault KDF parameters exceed import safety limits"))
  else .ok ()

/-- The payload under a key, in its frame: the header is packed first, for
its octets are the associated data. -/
def sealFrame (header : VaultHeader) (plaintext key nonce : Bytes) (cipher : CipherAlgorithm) : Except Exc Bytes := do
  let (_, headerBytes) ← pack env header []
  let ciphertext ← env.aead.encryptChecked plaintext key nonce headerBytes cipher
  let (frame, _) ← pack env header ciphertext
  return frame

/-- `_encrypt_payload` -/
def encryptPayload (plaintext masterPassphrase : Bytes) (params : KDFParams) (cipher : CipherAlgorithm) :
    Program (World γ Time) Exc Bytes := do
  let salt ← generateSalt params.saltLen.val
  let nonce ← generateNonce
  let header ← validated (buildHeader cipher salt nonce params)
  let vaultKey ← deriveKey env masterPassphrase salt params
  Program.ofExcept (sealFrame env header plaintext vaultKey nonce cipher)

/-- The slot of the master passphrase, if there is one. -/
def wrapForPassphrase (fileKey : Bytes) (masterPassphrase : Option Bytes) (params : KDFParams)
    (cipher : CipherAlgorithm) : Program (World γ Time) Exc (List VaultKeySlot) :=
  match masterPassphrase with
  | none => return []
  | some passphrase => do return [← wrapWithPassphrase env fileKey passphrase params cipher]

/-- The header of a vault with slots. -/
def buildSlotHeader (cipher : CipherAlgorithm) (nonce : Bytes) (slots : List VaultKeySlot) : Option VaultHeader := do
  let cipherParams ← CipherParams.make cipher (Base64.encode nonce)
  VaultHeader.make vaultFormatVersionSlots none cipherParams (some slots)

/-- `_encrypt_payload_with_slots` -/
def encryptPayloadWithSlots (plaintext : Bytes) (masterPassphrase : Option Bytes) (params : KDFParams)
    (cipher : CipherAlgorithm) (wrapForKeys : Bytes → Program (World γ Time) Exc (List VaultKeySlot)) :
    Program (World γ Time) Exc Bytes := do
  let nonce ← generateNonce
  let fileKey ← generateFileKey
  let passphraseSlots ← wrapForPassphrase env fileKey masterPassphrase params cipher
  let keySlots ← wrapForKeys fileKey
  let slots := passphraseSlots ++ keySlots
  if slots = [] then Program.raise (serviceError (lit "a vault needs at least one unlock method"))
  else if slots.length > maxVaultKeySlots then
    Program.raise (serviceError (lit "too many unlock methods for one vault"))
  else do
    let header ← validated (buildSlotHeader cipher nonce slots)
    Program.ofExcept (sealFrame env header plaintext fileKey nonce cipher)

/-- `_unlock_slot_label` -/
def unlockSlotLabel (key : KeyInfo Time) : Except Exc Str := do
  let storage ← key.storageLabel env.upper
  return (storage ++ lit " · " ++ key.primaryUserId).take maxVaultSlotLabelLength

/-- `key.is_expired` -/
def isExpired (key : KeyInfo Time) : Program (World γ Time) Exc Bool :=
  match key.expiresAt with
  | none => return false
  | some expiresAt => do return env.isOver (← utcNow) expiresAt

/-- The file key sealed to one key. -/
def wrapForKey (fileKey : Bytes) (fp : Str) : Program (World γ Time) Exc VaultKeySlot := do
  let key ← GPGService.findKey env fp
  if key.isRevoked then
    Program.raise (serviceError (lit "a revoked key cannot be used to unlock a vault"))
  else do
    let expired ← isExpired env key
    if expired then Program.raise (serviceError (lit "an expired key cannot be used to unlock a vault"))
    else do
      let armored ← GPGService.encrypt env fileKey [fp] none none true
      let wrapped ← Program.ofExcept (encodeUtf8 armored)
      let label ← Program.ofExcept (unlockSlotLabel env key)
      validated (openpgpSlot wrapped key.fingerprint label)

/-- `_wrap_for_keys` -/
def wrapForKeys (fingerprints : List Str) (fileKey : Bytes) : Program (World γ Time) Exc (List VaultKeySlot) :=
  fingerprints.mapM (wrapForKey env fileKey)

/-! ### Creating -/

/-- `str(value)` of a `bool` -/
def boolText (b : Bool) : Str := if b then lit "True" else lit "False"

/-- `_export_private_for_vault`. The number is that of GnuPG's error for a
secret key that cannot be exported. -/
def exportPrivateForVault (fp : Str) (key : KeyInfo Time) (gpgPassphrases : Str → Option Bytes) :
    Program (World γ Time) Exc (Option Bytes) :=
  if key.hasPrivateKey = false ∨ key.isStub = true then do
    emit env.toEnv (lit "key_exported_public") (lit "ok")
      { items := [(lit "fingerprint", .str fp), (lit "is_stub", .str (boolText key.isStub))], unique := rfl }
    return none
  else
    match gpgPassphrases fp with
    | none =>
      Program.raise (serviceError (lit "no passphrase provided for private key " ++ fp.drop (fp.length - 16)))
    | some keyPw => do
      let exported ← attempt [.gpgPassphraseError] (do
        let armored ← GPGService.exportPrivateKey env fp keyPw
        Program.ofExcept (encodeUtf8 armored))
      match exported with
      | .error e =>
        if contains e.message (lit "67108875") then do
          emit env.toEnv (lit "key_exported_public") (lit "ok")
            { items := [(lit "fingerprint", .str fp), (lit "is_stub", .str (lit "True")),
                (lit "reason", .str (lit "smartcard_export_unsupported"))]
              unique := rfl }
          return none
        else Program.raise e
      | .ok privateKey => do
        emit env.toEnv (lit "key_exported_private") (lit "ok")
          { items := [(lit "fingerprint", .str fp)], unique := rfl }
        return some privateKey

/-- `_collect_entry` -/
def collectEntry (gpgPassphrases : Str → Option Bytes) (fp : Str) :
    Program (World γ Time) Exc (CollectedEntry Time) := do
  let key ← Program.catching (GPGService.findKey env fp) fun e =>
    if e.isA [.gpgKeyNotFoundError] then
      Program.raise (serviceError (lit "key " ++ fp ++ lit " not in keyring"))
    else Program.raise e
  let armored ← GPGService.exportPublicKey env fp
  let publicKey ← Program.ofExcept (encodeUtf8 armored)
  let privateKey ← exportPrivateForVault env fp key gpgPassphrases
  let hasPrivate := privateKey.isSome
  let entry ← validated (VaultKeyEntry.make fp key.userIds hasPrivate
    (key.isStub || (! hasPrivate && key.hasPrivateKey)) key.createdAt key.expiresAt)
  return { entry, publicKey, privateKey }

/-- `_collect_entries` -/
def collectEntries (gpgPassphrases : Str → Option Bytes) (fps : List Str) :
    Program (World γ Time) Exc (List (CollectedEntry Time)) :=
  fps.mapM (collectEntry env gpgPassphrases)

/-- The line of the sidecar. -/
def sidecarLine (sha : Str) (target : Path) : Str := sha ++ lit "  " ++ target.name ++ [lineFeed]

def sidecarOf (path : Path) : Path := path.appendName (lit ".sha256")

/-- `_write_vault_files` -/
def writeVaultFiles (target : Path) (frame : Bytes) : Program (World γ Time) Exc Str := do
  atomicWriteBytes target frame
  let sha := env.sha256 frame
  let line ← Program.ofExcept (encodeUtf8 (sidecarLine sha target))
  atomicWriteBytes (sidecarOf target) line
  return sha

/-- `_acquire_write_lock` -/
def acquireWriteLock (target : Path) : Program (World γ Time) Exc Unit :=
  Program.catching syscall fun e =>
    if e.isA [.fileLockTimeoutError] then
      Program.raise (serviceError (lit "another process is writing to " ++ target.text))
    else Program.raise e

/-- `MetadataStore.add_vault_record` -/
def addVaultRecord (record : VaultRecord) : Program (World γ Time) Exc Unit := do
  syscall
  modify fun w => { w with store := { w.store with vaultRecords := w.store.vaultRecords ++ [record] } }

/-- The arguments of `create`. -/
structure CreateArgs where
  targetPath : Path
  masterPassphrase : Option Bytes := none
  gpgPassphrases : Str → Option Bytes
  fingerprints : List Str
  description : Str := []
  createdBy : Str := []
  cipher : CipherAlgorithm := .chacha20Poly1305
  kdfParams : Option KDFParams := none
  unlockKeyFingerprints : List Str := []

/-- `kdf_params or high_memory_params()` -/
def CreateArgs.params (args : CreateArgs) : KDFParams := args.kdfParams.getD highMemoryParams

/-- The payload sealed in either format. -/
def sealPayload (args : CreateArgs) (unlockFps : List Str) (plaintext : Bytes) : Program (World γ Time) Exc Bytes :=
  if unlockFps ≠ [] then
    encryptPayloadWithSlots env plaintext args.masterPassphrase args.params args.cipher (wrapForKeys env unlockFps)
  else
    match args.masterPassphrase with
    | some masterPassphrase => encryptPayload env plaintext masterPassphrase args.params args.cipher
    | none => Program.raise (serviceError (lit "no unlock method for this vault"))

/-- What `create` does under the lock; `hasMetadata` is whether it has a
store. -/
def createLocked (hasMetadata : Bool) (args : CreateArgs) (fps unlockFps : List Str) (target : Path) :
    Program (World γ Time) Exc (Created Time) := do
  let collected ← collectEntries env args.gpgPassphrases fps
  let entries := collected.map (·.entry)
  let now ← utcNow
  let manifest ← validated (VaultManifest.make args.createdBy now appVersion args.description entries)
  let plaintext ← Program.ofExcept (serialiseSegmentedPayload env collected manifest)
  let frame ← sealPayload env args unlockFps plaintext
  let sha ← writeVaultFiles env target frame
  emitCreated env target entries.length args.cipher sha unlockFps.length
  if hasMetadata then
    addVaultRecord { filename := target.text, keyCount := entries.length, description := args.description }
  return { descriptor := { path := target, sha256 := sha, keyCount := entries.length }, manifest, collected }

/-- `VaultService.create`. Releasing the lock does not raise. -/
def create (hasMetadata : Bool) (args : CreateArgs) : Program (World γ Time) Exc (Created Time) := do
  let fps ← Program.ofExcept (args.fingerprints.mapM GPGService.validateFingerprint)
  if fps = [] then Program.raise (serviceError (lit "at least one key fingerprint is required"))
  else do
    let unlockFps ← Program.ofExcept (args.unlockKeyFingerprints.mapM GPGService.validateFingerprint)
    if args.masterPassphrase = none ∧ unlockFps = [] then
      Program.raise (serviceError (lit "a vault needs a master passphrase, an unlock key, or both"))
    else do
      syscall
      let target := env.resolve args.targetPath
      syscall
      acquireWriteLock target
      Program.catching (createLocked env hasMetadata args fps unlockFps target) fun e => do
        emitCreateFailed env target e
        Program.raise e

/-! ### Opening -/

/-- What opens a vault. -/
structure Credentials where
  masterPassphrase : Option Bytes := none
  smartcardPin : Option Bytes := none

/-- `_read_vault_bytes` -/
def readVaultBytes (src : Path) : Program (World γ Time) Exc Bytes := do
  syscall
  let data ← readFile src
  if (data.take (maxVaultFrameSize + 1)).length > maxVaultFrameSize then
    Program.raise (serviceError (lit "vault file is too large"))
  else return data

/-- `raw.decode("ascii", errors="strict")` -/
def decodeAscii (raw : Bytes) : Except Exc Str :=
  if raw.all (· < 0x80) then .ok (raw.map fun b => Fin.ofNat _ b.toNat)
  else .error { cls := .unicodeDecodeError, message := [] }

/-- The digest in the text of a sidecar. -/
def sidecarDigest (text : Str) : Except Exc Str :=
  match fields text with
  | [] => .error (serviceError (lit "vault checksum sidecar is empty"))
  | part :: _ =>
    let digest := env.lower part
    if digest.length ≠ 64 ∨ digest.any (· ∉ lit "0123456789abcdef") = true then
      .error (serviceError (lit "vault checksum sidecar is malformed"))
    else .ok digest

/-- `_read_sidecar_digest` -/
def readSidecarDigest (sidecar : Path) : Program (World γ Time) Exc Str := do
  let data ← readFile sidecar
  let text ← Program.ofExcept (decodeAscii (data.take 256))
  Program.ofExcept (sidecarDigest env text)

/-- `_verify_sidecar` -/
def verifySidecar (src : Path) (data : Bytes) : Program (World γ Time) Exc Unit := do
  let there ← fileExists (sidecarOf src)
  if there then do
    let expected ← readSidecarDigest env (sidecarOf src)
    if expected ≠ env.lower (env.sha256 data) then do
      emitImportFailed env src (lit "checksum")
      Program.raise
        { cls := .vaultChecksumMismatchError
          message := lit "vault checksum mismatch: expected " ++ expected.take 16 ++ lit "…" }

/-- The loop of `_unwrap_passphrase_slot`. -/
def tryPassphraseSlots (masterPassphrase : Bytes) (cipher : CipherAlgorithm) :
    List VaultKeySlot → Option Exc → Program (World γ Time) Exc Bytes
  | [], lastError =>
    Program.raise
      (lastError.getD { cls := .decryptionError, message := lit "no key slot accepted this passphrase" })
  | slot :: slots, lastError =>
    match slot.kdf with
    | none => tryPassphraseSlots masterPassphrase cipher slots lastError
    | some kdf => do
      let result ← attempt [.decryptionError, .vaultFormatError] (do
        Program.ofExcept (validateImportKdf kdf.toParams)
        unwrapWithPassphrase env slot masterPassphrase kdf.toParams cipher)
      match result with
      | .ok fileKey => return fileKey
      | .error e => tryPassphraseSlots masterPassphrase cipher slots (some e)

/-- `_unwrap_passphrase_slot` -/
def unwrapPassphraseSlot (header : VaultHeader) (masterPassphrase : Bytes) (cipher : CipherAlgorithm) :
    Program (World γ Time) Exc Bytes :=
  if header.slotsOf .passphrase = [] then
    Program.raise (serviceError (lit "this vault cannot be opened with a passphrase"))
  else tryPassphraseSlots env masterPassphrase cipher (header.slotsOf .passphrase) none

/-- The exceptions that `_unwrap_openpgp_slot` catches. -/
def caughtErrors : List ErrorClass := [.gpgCardError, .gpgPassphraseError, .gpgProcessError]

/-- The loop of `_unwrap_openpgp_slot`. -/
def tryOpenpgpSlots (smartcardPin : Bytes) (src : Path) :
    List VaultKeySlot → Option Exc → Program (World γ Time) Exc Bytes
  | [], lastError => do
    emitImportFailed env src (lit "smartcard")
    Program.raise
      (lastError.getD { cls := .decryptionError, message := lit "no smartcard key slot could be opened" })
  | slot :: slots, _ => do
    let result ← attempt caughtErrors (GPGService.decrypt env slot.wrappedKey (some smartcardPin))
    match result with
    | .ok decrypted => Program.ofExcept (fileKeyFromBytes decrypted.plaintext)
    | .error e => tryOpenpgpSlots smartcardPin src slots (some e)

/-- `_unwrap_openpgp_slot` -/
def unwrapOpenpgpSlot (header : VaultHeader) (smartcardPin : Bytes) (src : Path) : Program (World γ Time) Exc Bytes :=
  if header.slotsOf .openpgp = [] then
    Program.raise
      (serviceError (lit "this vault has no smartcard unlock method — open it with its master passphrase"))
  else tryOpenpgpSlots env smartcardPin src (header.slotsOf .openpgp) none

/-- `_vault_key` -/
def vaultKey (frame : UnpackedFrame) (credentials : Credentials) (src : Path) : Program (World γ Time) Exc Bytes :=
  let header := frame.header
  if header.usesKeySlots then
    match credentials.smartcardPin, credentials.masterPassphrase with
    | some smartcardPin, _ => unwrapOpenpgpSlot env header smartcardPin src
    | none, none => Program.raise (serviceError (lit "a master passphrase or a smartcard PIN is required"))
    | none, some masterPassphrase =>
      Program.catching (unwrapPassphraseSlot env header masterPassphrase header.cipher.algorithm) fun e =>
        if e.isA [.decryptionError] then do
          emitImportFailed env src (lit "decryption")
          Program.raise e
        else Program.raise e
  else
    match header.kdf, credentials.masterPassphrase with
    | none, _ => Program.raise (formatError (lit "vault header is missing KDF parameters"))
    | some _, none =>
      Program.raise
        (serviceError (lit "this vault predates smartcard unlocking — enter its master passphrase"))
    | some kdf, some masterPassphrase => do
      Program.ofExcept (validateImportKdf kdf.toParams)
      deriveKey env masterPassphrase kdf.salt kdf.toParams

/-- The plaintext, and the buffer it is in. -/
structure Plaintext where
  octets : Bytes
  buffer : ℕ

/-- `_decrypt_frame` -/
def decryptFrame (frame : UnpackedFrame) (credentials : Credentials) (src : Path) :
    Program (World γ Time) Exc Plaintext := do
  let key ← vaultKey env frame credentials src
  let octets ← Program.catching
    (Program.ofExcept (env.aead.decryptChecked frame.ciphertext key frame.header.cipher.nonce frame.headerBytes
      frame.header.cipher.algorithm)) fun e =>
    if e.isA [.decryptionError] then do
      emitImportFailed env src (lit "decryption")
      Program.raise e
    else Program.raise e
  let plaintextBytes ← allocate false octets
  let buffer ← allocate true octets
  zeroBytesObject plaintextBytes
  return { octets, buffer }

/-- The frame in the file, and the octets of the file. -/
def readFrame (src : Path) : Program (World γ Time) Exc (Bytes × UnpackedFrame) := do
  let there ← fileExists src
  if there then do
    let data ← readVaultBytes src
    let frame ← Program.catching (Program.ofExcept (unpack env data)) fun e =>
      if e.isA [.vaultFormatError] then do
        emitImportFailed env src (lit "format")
        Program.raise e
      else Program.raise e
    return (data, frame)
  else Program.raise (serviceError (lit "vault file does not exist: " ++ src.text))

/-- The armor in an entry of a raw manifest. -/
def armorObjects : Msg → List Bytes
  | .map items => [ascii "public_key_armored", ascii "private_key_armored"].filterMap fun key =>
    match rawGet items key with
    | some (.bin data) => some data
    | _ => none
  | _ => []

/-- The armor that `_pop_legacy_key_material` collects, up to the entry that it
refuses. -/
def collectedMaterial : List (Msg × List ℕ) → List ℕ
  | [] => []
  | (entry, objects) :: entries =>
    match popEntry entry with
    | .ok (_, some _) => objects ++ collectedMaterial entries
    | .ok (_, none) => collectedMaterial entries
    | .error _ => []

/-- The copies that `_rebuild_legacy_segmented_payload` makes of the plaintext of
a legacy vault: the stream that it unpacks, and the armor of its entries. On
the way out it wipes the armor that it collected; what it writes the new
payload with is wiped in any case. -/
def copyLegacyPayload (payload : Bytes) : Program (World γ Time) Exc Unit :=
  if isLegacy payload then do
    let _ ← allocate true payload
    match env.msgpack.unpackRaw maxVaultArmorLength manifestArrayLimit payload with
    | .ok (.map items, _) => do
      let objects ← (entriesOf items).mapM fun entry => do
        let armor ← (armorObjects entry).mapM (allocate false)
        return (entry, armor)
      (collectedMaterial objects).forM zeroBytesObject
    | _ => return ()
  else return ()

/-- What `_open` makes of the plaintext, which is rewritten in its buffer if it
is that of a legacy vault. -/
def openPayload (src : Path) (data : Bytes) (frame : UnpackedFrame) (skipChecksum : Bool) (payload : Plaintext) :
    Program (World γ Time) Exc (OpenedVault Time) := do
  if skipChecksum = false then verifySidecar env src data
  copyLegacyPayload env payload.octets
  let (manifest, keySlices, plaintext) ← Program.ofExcept (deserialiseSegmentedPayload env payload.octets)
  modifyBuffer payload.buffer fun _ => plaintext
  if frame.header.cipher.nonce.length ≠ nonceLen then
    Program.raise (formatError (lit "vault nonce length mismatch"))
  else return { manifest, srcPath := src, plaintext, keySlices }

/-- `VaultService._open` -/
def openVault (sourcePath : Path) (credentials : Credentials) (skipChecksum : Bool) :
    Program (World γ Time) Exc (OpenedVault Time) := do
  if credentials.masterPassphrase = none ∧ credentials.smartcardPin = none then
    Program.raise (serviceError (lit "a master passphrase or a smartcard PIN is required"))
  else do
    let src := env.resolve sourcePath
    let (data, frame) ← readFrame env src
    let payload ← decryptFrame env frame credentials src
    Program.catching (openPayload env src data frame skipChecksum payload) fun e => do
      zeroMutableBuffer payload.buffer
      if e.isA [.vaultFormatError] then do
        emitImportFailed env src (lit "payload")
        Program.raise e
      else Program.raise e

/-! ### Importing -/

/-- `remove_smuggled_key` of `services/key_service.py` -/
def removeSmuggledKey (fingerprint : Str) (includingSecret : Bool) : Program (World γ Time) Exc Unit :=
  Program.catching
    (do
      GPGService.deleteKey env fingerprint includingSecret none
      emit env.toEnv (lit "key_imported") (lit "warning")
        { items := [(lit "fingerprint", .str fingerprint), (lit "reason", .str (lit "smuggled_key_removed"))]
          unique := rfl })
    fun e => do
      emit env.toEnv (lit "key_imported") (lit "failed")
        { items := [(lit "fingerprint", .str fingerprint),
            (lit "reason", .str (lit "smuggled_key_deletion_failed:" ++ e.cls.name))]
          unique := rfl }
      Program.raise
        { cls := .serviceError
          message := lit "Smuggled key " ++ fingerprint.drop (fingerprint.length - 16) ++
            lit " could not be removed from keyring" }

/-- The keys of a blob that are not the one selected. -/
def strangers (results : List Str) (fingerprint : Str) : List Str :=
  (env.setOrder results).filter (· ≠ fingerprint)

/-- `_import_entry` -/
def importEntry (opened : OpenedVault Time) (entry : VaultKeyEntry Time) : Program (World γ Time) Exc Bool := do
  let armored ← Program.ofExcept (opened.keyMaterial entry.fingerprint)
  let results ← Program.catching (GPGService.importKey env armored) fun e => do
    emit env.toEnv (lit "key_imported") (lit "failed")
      { items := [(lit "fingerprint", .str entry.fingerprint), (lit "reason", .str e.cls.name)], unique := rfl }
    Program.raise e
  (strangers env results entry.fingerprint).forM fun smuggledFp => removeSmuggledKey env smuggledFp true
  emit env.toEnv (lit "key_imported") (lit "ok")
    { items := [(lit "fingerprint", .str entry.fingerprint), (lit "has_private_key", .bool entry.hasPrivateKey)]
      unique := rfl }
  return entry.fingerprint ∈ results

/-- The loop of `import_keys`, over the entries that are wanted. -/
def importEntries (opened : OpenedVault Time) : List (VaultKeyEntry Time) → Program (World γ Time) Exc (List Str)
  | [] => return []
  | entry :: entries => do
    let landed ← importEntry env opened entry
    let imported ← importEntries opened entries
    return if landed then entry.fingerprint :: imported else imported

/-- The entries of the vault that are to be imported. -/
def selected (opened : OpenedVault Time) : Option (List Str) → List (VaultKeyEntry Time)
  | some fingerprints => opened.manifest.keys.filter (·.fingerprint ∈ fingerprints)
  | none => opened.manifest.keys

/-- What `import_keys` does with an opened vault. -/
def importOpened (opened : OpenedVault Time) (fingerprints : Option (List Str)) :
    Program (World γ Time) Exc (List Str) := do
  let wanted ← Program.ofExcept (fingerprints.mapM (·.mapM GPGService.validateFingerprint))
  let imported ← importEntries env opened (selected opened wanted)
  emit env.toEnv (lit "vault_imported") (lit "ok")
    { items := [(lit "path", .str opened.srcPath.text), (lit "key_count", .int imported.length)], unique := rfl }
  return imported

/-- `VaultService.import_keys` -/
def importKeys (sourcePath : Path) (credentials : Credentials) (fingerprints : Option (List Str))
    (skipChecksum : Bool) : Program (World γ Time) Exc (List Str) := do
  let opened ← openVault env sourcePath credentials skipChecksum
  importOpened env opened fingerprints

end VaultService
end GpgMeister
