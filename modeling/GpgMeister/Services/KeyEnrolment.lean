/-
# Enrolling keys

`create_key_with_token`, `bind_existing_key`, `forget_key` and
`unlock_with_passphrase` of `services/key_unlock_service.py`, and
`GPGService.sign` under the second.

The passphrase of a key that is created is known to nobody. It is sealed into
the slots before there is a key, and if the slots cannot be stored the key is
deleted again.
-/
import GpgMeister.Services.KeyGeneration
import GpgMeister.Services.KeyUnlockService
import GpgMeister.Storage.SlotTable

namespace GpgMeister

/-! ### Signing -/

namespace GPGService

variable {γ Time : Type} (env : Platform γ Time)

/-- The arguments of `sign`. -/
def signArgs (fp : Str) (detached : Bool) : List Str :=
  [lit "--armor", lit "--local-user", fp, if detached then lit "--detach-sign" else lit "--clearsign"]

/-- What `sign` makes of its run. -/
def signed (proc : Gpg.GPGRun) : Except Exc Str :=
  if proc.returncode ≠ 0 ∨ proc.stdout = [] then do
    let stderrText := Gpg.decodeOutput proc.stderr
    Gpg.raiseForCardFailure env.lower (Gpg.parseStatus proc.status)
      (Gpg.decodeOutput proc.status ++ lit "\n" ++ stderrText) (lit "signing")
    .error { cls := .gpgProcessError, message := lit "signing failed: " ++ stderrText.take 200 }
  else .ok (Gpg.decodeOutput proc.stdout)

/-- `sign` -/
def sign (data : Bytes) (fingerprint : Str) (passphrase : Bytes) (detached : Bool) :
    Program (World γ Time) Exc Str := do
  let fp ← Program.ofExcept (validateFingerprint fingerprint)
  let proc ← runGpg env (signArgs fp detached) (some data) (some passphrase) true
  Program.ofExcept (signed env proc)

end GPGService

/-! ### The service -/

variable {δ γ Time : Type}

/-- The service, with the parameters for the keys of new slots. -/
structure EnrolmentService extends KeyUnlockService where
  kdf : KDFParams

namespace KeyUnlockService

variable (env : Platform γ Time) (lib : Fido2 δ) (service : EnrolmentService)

/-! ### Slots -/

/-- `MetadataStore.add_unlock_slot` -/
def addUnlockSlot (fingerprint : Str) (slot : KeyUnlockSlot) : Program (World γ Time) Exc ℕ := do
  let fpr ← Program.ofExcept (MetadataStore.normalise fingerprint)
  MetadataStore.call (MetadataStore.addUnlockSlot fpr slot)

/-- `for slot_id in stored: self._store.delete_unlock_slot(slot_id)` -/
def deleteSlots : List ℕ → Program (World γ Time) Exc Unit
  | [] => return
  | slotId :: stored => do
    MetadataStore.call (MetadataStore.deleteUnlockSlot slotId)
    deleteSlots stored

def emitFailed (event reason : Str) : Program (World γ Time) Exc Unit :=
  SmartcardService.emitBestEffort env service.audit event (lit "failed")
    { items := [(lit "reason", .str reason)], unique := Dict.evaluated }

/-- The loop of `_persist`, and what happens to the slots that it has stored if
the next one cannot be stored. -/
def storeSlots (fingerprint event : Str) : (stored : List ℕ) → List KeyUnlockSlot → Program (World γ Time) Exc Unit
  | _, [] => return
  | stored, slot :: slots => do
    let slotId ← (addUnlockSlot fingerprint slot).catching fun e => do
      deleteSlots stored
      emitFailed env service event (lit "store")
      Program.raise e
    storeSlots fingerprint event (stored ++ [slotId]) slots

/-- `_persist` -/
def persist (fingerprint : Str) (slots : List KeyUnlockSlot) (event : Str) : Program (World γ Time) Exc Unit := do
  storeSlots env service fingerprint event [] slots
  SmartcardService.emitBestEffort env service.audit event (lit "ok")
    { items := [(lit "slot_count", .int slots.length)], unique := rfl }

/-- `_build_slots` -/
def buildSlots (secret tokenSecret : Bytes) (credential : FidoCredential) (emergencyPassphrase : Option Bytes) :
    Program (World γ Time) Exc (List KeyUnlockSlot) := do
  let slot ← KeyUnlock.wrapWithToken env secret tokenSecret credential
  match emergencyPassphrase with
  | none => return [slot]
  | some passphrase => do
    let fallback ← KeyUnlock.wrapWithPassphrase env secret passphrase service.kdf
    return [slot, fallback]

/-! ### A new key -/

/-- `_discard_unopenable_key` -/
def discardUnopenableKey (fingerprint : Str) (secret : Bytes) : Program (World γ Time) Exc Unit :=
  (GPGService.deleteKey env fingerprint true (some secret)).catching fun _ =>
    emitFailed env service (lit "key_created_with_token") (lit "orphan_key")

/-- What `create_key_with_token` does with the octets of its two secrets. -/
def createWith (request : GPGService.KeyRequest) (secret tokenSecret : Bytes) (credential : FidoCredential)
    (emergencyPassphrase : Option Bytes) : Program (World γ Time) Exc Str := do
  let slots ← buildSlots env service secret tokenSecret credential emergencyPassphrase
  let fingerprint ← GPGService.generateKey env request secret
  (persist env service fingerprint slots (lit "key_created_with_token")).catching fun e => do
    discardUnopenableKey env service fingerprint secret
    Program.raise e
  return fingerprint

/-- `create_key_with_token` -/
def createKeyWithToken (request : GPGService.KeyRequest) (pin : Bytes) (emergencyPassphrase : Option Bytes) :
    Program (TokenWorld δ γ Time) Exc Str := do
  let _ ← Program.ofExcept (GPGService.checkedUser env request)
  let (credential, tokenSecret) ←
    FidoService.enroll env lib service.fido pin (Validation.userId request.name request.email) true
  Program.ensuring
    (do
      let secret ← secureBytes (← onWorld KeyUnlock.generateKeySecret)
      Program.ensuring
        (do
          let octets ← viewSecret secret
          let tokenOctets ← viewSecret tokenSecret
          onWorld (createWith env service request octets tokenOctets credential emergencyPassphrase))
        (closeSecret secret))
    (closeSecret tokenSecret)

/-! ### A key that exists -/

/-- `_PROBE_DATA` -/
def probeData : Bytes := ascii "gpg-meister unlock verification"

/-- `_verify_passphrase` -/
def verifyPassphrase (fingerprint : Str) (passphrase : Bytes) : Program (World γ Time) Exc Unit :=
  Program.catching
    (do
      let _ ← GPGService.sign env probeData fingerprint passphrase true
      return)
    fun e =>
      if e.isA [.serviceError] then
        Program.raise
          (unlockError .keyUnlockError (lit "that passphrase does not open this key, so it was not enrolled"))
      else Program.raise e

/-- `bind_existing_key` -/
def bindExistingKey (fingerprint : Str) (passphrase pin : Bytes) : Program (TokenWorld δ γ Time) Exc Unit := do
  let fpr ← Program.ofExcept (MetadataStore.normalise fingerprint)
  Program.ofExcept (KeyUnlock.checkSecret passphrase)
  onWorld (verifyPassphrase env fpr passphrase)
  let (credential, tokenSecret) ← FidoService.enroll env lib service.fido pin (fpr.drop (fpr.length - 16)) true
  let slot ← Program.ensuring
    (do
      let tokenOctets ← viewSecret tokenSecret
      onWorld (KeyUnlock.wrapWithToken env passphrase tokenOctets credential))
    (closeSecret tokenSecret)
  onWorld (persist env service fpr [slot] (lit "key_bound_to_token"))

/-- `forget_key` -/
def forgetKey (fingerprint : Str) : Program (TokenWorld δ γ Time) Exc Unit := do
  onWorld (MetadataStore.call (MetadataStore.deleteUnlockSlots fingerprint))
  emit env service.toKeyUnlockService (lit "key_unlock_forgotten") (lit "ok")

/-! ### The fallback -/

/-- `slot.type is UnlockSlotType.PASSPHRASE and slot.kdf is not None`, with the
parameters -/
def passphraseSlots (stored : List (ℕ × KeyUnlockSlot)) : List (KeyUnlockSlot × KDFFields) :=
  (stored.map Prod.snd).filterMap fun slot =>
    if slot.type = .passphrase then slot.kdf.map fun kdf => (slot, kdf) else none

/-- `unlock_with_passphrase` -/
def unlockWithPassphrase (fingerprint : Str) (passphrase : Bytes) : Program (TokenWorld δ γ Time) Exc Bytes := do
  let slots := passphraseSlots (← storedSlots env fingerprint)
  if slots = [] then
    Program.raise (unlockError .noUnlockMethodError (lit "this key has no passphrase fallback"))
  else do
    let secret ← Program.firstOf
      (fun slot => onWorld (KeyUnlock.unwrapWithPassphrase env slot.1 passphrase slot.2.toParams))
      (fun e => e.isA [.decryptionError])
      (fun _ => do
        emit env service.toKeyUnlockService (lit "key_unlocked_with_passphrase") (lit "failed")
        Program.raise (unlockError .keyUnlockError (lit "that passphrase did not open this key")))
      slots none
    emit env service.toKeyUnlockService (lit "key_unlocked_with_passphrase") (lit "ok")
    return secret

end KeyUnlockService
end GpgMeister
