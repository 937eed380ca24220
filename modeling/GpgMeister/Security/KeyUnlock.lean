/-
# Sealing the passphrase of a key

`security/key_unlock.py`: the passphrase of a key, random or chosen by the
user, is sealed into a slot for each of the ways to unlock the key: under
another passphrase, or under the octets that a token derives, which are the
cipher's key as they are. A slot that does not open raises `DecryptionError`
and nothing else (`unwrapWithToken_error`).
-/
import GpgMeister.Lib.MapM
import GpgMeister.Models.KeyUnlock
import GpgMeister.Security.Encryption

namespace GpgMeister
namespace KeyUnlock

variable {γ Time : Type} (env : Platform γ Time)

def keySecretRawLen : ℕ := 32
def maxKeySecretLen : ℕ := 200

/-- `_FRAMING_BYTES` -/
def framingBytes : List UInt8 := [0x00, 0x0A, 0x0D]

def tokenSecretLen : ℕ := keyLen

/-- The cipher of the slots -/
def slotCipher : CipherAlgorithm := .chacha20Poly1305

/-- `slot_associated_data`, of text that is ASCII -/
def slotAssociatedData (slotType : UnlockSlotType) : Bytes :=
  (unlockFormatTag ++ lit ":slot:" ++ slotType.value).map fun c => .ofNat c.val

/-- `generate_key_secret` -/
def generateKeySecret : Program (World γ Time) Exc Bytes := do
  let raw ← tokenBytes keySecretRawLen
  return (Base64.encode raw).map fun c => .ofNat c.val

/-- `check_secret` -/
def checkSecret (secret : Bytes) : Except Exc Unit :=
  if secret = [] ∨ maxKeySecretLen < secret.length then
    .error
      { cls := .valueError
        message := lit "a key secret must be 1 to " ++ Json.decimal maxKeySecretLen ++ lit " bytes" }
  else if secret.any (· ∈ framingBytes) = true then
    .error { cls := .valueError, message := lit "a key secret must not contain NUL or newline characters" }
  else .ok ()

/-- `_secret_from_bytes` -/
def secretFromBytes (raw : Bytes) : Except Exc Bytes :=
  if raw = [] ∨ maxKeySecretLen < raw.length then
    .error { cls := .decryptionError, message := lit "unwrapped key secret has an implausible length" }
  else .ok raw

/-! ### Under a passphrase -/

/-- The slot of a secret that a passphrase has wrapped. -/
def passphraseSlot (wrapped salt nonce : Bytes) (params : KDFParams) : Option KeyUnlockSlot := do
  let kdf ← KDFFields.fromParams params salt
  KeyUnlockSlot.make .passphrase (Base64.encode wrapped) (Base64.encode nonce) (some kdf) none
    (lit "Emergency passphrase")

/-- `wrap_with_passphrase` -/
def wrapWithPassphrase (secret passphrase : Bytes) (params : KDFParams) :
    Program (World γ Time) Exc KeyUnlockSlot := do
  Program.ofExcept (checkSecret secret)
  let salt ← generateSalt params.saltLen.val
  let nonce ← generateNonce
  let slotKey ← deriveKey env passphrase salt params
  let wrapped ← Program.ofExcept
    (env.aead.encryptChecked secret slotKey nonce (slotAssociatedData .passphrase) slotCipher)
  validated (passphraseSlot wrapped salt nonce params)

/-- `unwrap_with_passphrase` -/
def unwrapWithPassphrase (slot : KeyUnlockSlot) (passphrase : Bytes) (params : KDFParams) :
    Program (World γ Time) Exc Bytes :=
  match slot.type, slot.kdf with
  | .passphrase, some kdf => do
    let slotKey ← deriveKey env passphrase kdf.salt params
    let raw ← Program.ofExcept
      (env.aead.decryptChecked slot.wrappedSecret slotKey slot.nonce (slotAssociatedData .passphrase) slotCipher)
    Program.ofExcept (secretFromBytes raw)
  | _, _ => Program.raise { cls := .valueError, message := lit "not a passphrase unlock slot" }

/-! ### Under a token's secret -/

/-- `_check_token_secret` -/
def checkTokenSecret (tokenSecret : Bytes) : Except Exc Unit :=
  if tokenSecret.length ≠ tokenSecretLen then
    .error
      { cls := .valueError
        message := lit "a token secret must be exactly " ++ Json.decimal tokenSecretLen ++ lit " bytes" }
  else .ok ()

/-- `wrap_with_token` -/
def wrapWithToken (secret tokenSecret : Bytes) (credential : FidoCredential) :
    Program (World γ Time) Exc KeyUnlockSlot := do
  Program.ofExcept (checkSecret secret)
  Program.ofExcept (checkTokenSecret tokenSecret)
  let nonce ← generateNonce
  let wrapped ← Program.ofExcept
    (env.aead.encryptChecked secret tokenSecret nonce (slotAssociatedData .fido) slotCipher)
  validated
    (KeyUnlockSlot.make .fido (Base64.encode wrapped) (Base64.encode nonce) none (some credential) credential.label)

/-- `unwrap_with_token` -/
def unwrapWithToken (slot : KeyUnlockSlot) (tokenSecret : Bytes) : Except Exc Bytes :=
  if slot.type ≠ .fido ∨ slot.fido = none then .error { cls := .valueError, message := lit "not a FIDO unlock slot" }
  else do
    checkTokenSecret tokenSecret
    let raw ← env.aead.decryptChecked slot.wrappedSecret tokenSecret slot.nonce (slotAssociatedData .fido) slotCipher
    secretFromBytes raw

/-! ### What is sealed -/

/-- The slot holds the secret, under this key. -/
structure Seals (slot : KeyUnlockSlot) (key secret : Bytes) : Prop where
  checked : checkSecret secret = .ok ()
  encrypted : env.aead.encryptChecked secret key slot.nonce (slotAssociatedData slot.type) slotCipher =
    .ok slot.wrappedSecret

section Seals

variable {env : Platform γ Time} {w w' : World γ Time} {slot : KeyUnlockSlot} {secret : Bytes}

/-- A slot that is made of octets holds them. -/
theorem make_eq_some {type : UnlockSlotType} {wrapped nonce : Bytes} {kdf : Option KDFFields}
    {fido : Option FidoCredential} {label : Str}
    (h : KeyUnlockSlot.make type (Base64.encode wrapped) (Base64.encode nonce) kdf fido label = some slot) :
    slot.type = type ∧ slot.wrappedSecret = wrapped ∧ slot.nonce = nonce ∧ slot.kdf = kdf ∧ slot.fido = fido := by
  unfold KeyUnlockSlot.make at h
  split_ifs at h
  obtain rfl := Option.some.inj h
  unfold KeyUnlockSlot.wrappedSecret KeyUnlockSlot.nonce
  rw [Base64.decode_encode, Base64.decode_encode]
  exact ⟨rfl, rfl, rfl, rfl, rfl⟩

theorem wrapWithToken_eq_ok {tokenSecret : Bytes} {credential : FidoCredential}
    (h : (wrapWithToken env secret tokenSecret credential).run w = .ok slot w') :
    slot.type = .fido ∧ slot.fido = some credential ∧ Seals env slot tokenSecret secret := by
  obtain ⟨⟨⟩, w1, h1, h⟩ := Program.run_bind_eq_ok.mp h
  obtain ⟨hchecked, rfl⟩ := Program.run_ofExcept_eq_ok.mp h1
  obtain ⟨⟨⟩, w2, -, h⟩ := Program.run_bind_eq_ok.mp h
  obtain ⟨nonce, w3, -, h⟩ := Program.run_bind_eq_ok.mp h
  obtain ⟨wrapped, w4, h4, h⟩ := Program.run_bind_eq_ok.mp h
  obtain ⟨hencrypted, rfl⟩ := Program.run_ofExcept_eq_ok.mp h4
  obtain ⟨htype, hwrapped, hnonce, -, hfido⟩ := make_eq_some (run_validated_eq_ok h).1
  exact ⟨htype, hfido, hchecked, by rw [htype, hwrapped, hnonce]; exact hencrypted⟩

theorem wrapWithPassphrase_eq_ok {passphrase : Bytes} {params : KDFParams}
    (h : (wrapWithPassphrase env secret passphrase params).run w = .ok slot w') :
    slot.type = .passphrase ∧ ∃ kdf key, slot.kdf = some kdf ∧
      deriveKeyOf env passphrase kdf.salt kdf.toParams = .ok key ∧ Seals env slot key secret := by
  obtain ⟨⟨⟩, w1, h1, h⟩ := Program.run_bind_eq_ok.mp h
  obtain ⟨hchecked, rfl⟩ := Program.run_ofExcept_eq_ok.mp h1
  obtain ⟨salt, w2, h2, h⟩ := Program.run_bind_eq_ok.mp h
  obtain ⟨nonce, w3, -, h⟩ := Program.run_bind_eq_ok.mp h
  obtain ⟨key, w4, h4, h⟩ := Program.run_bind_eq_ok.mp h
  obtain ⟨wrapped, w5, h5, h⟩ := Program.run_bind_eq_ok.mp h
  obtain ⟨hencrypted, rfl⟩ := Program.run_ofExcept_eq_ok.mp h5
  have hlen := run_generateSalt_eq_ok h2
  have hkey := run_deriveKey_eq_ok h4
  obtain ⟨hmake, -⟩ := run_validated_eq_ok h
  unfold passphraseSlot at hmake
  obtain ⟨kdf, hkdf, hmake⟩ := Option.bind_eq_some_iff.mp hmake
  obtain ⟨hsalt, hparams⟩ := KDFFields.fromParams_eq_some hkdf hlen
  obtain ⟨htype, hwrapped, hnonce, hkdf', -⟩ := make_eq_some hmake
  exact ⟨htype, kdf, key, hkdf', by rw [hsalt, hparams, hkey], hchecked,
    by rw [htype, hwrapped, hnonce]; exact hencrypted⟩

theorem secretFromBytes_of_checkSecret (h : checkSecret secret = .ok ()) : secretFromBytes secret = .ok secret := by
  unfold checkSecret at h
  unfold secretFromBytes
  split_ifs at h ⊢
  rfl

theorem checkTokenSecret_of_encryptChecked {key nonce associatedData ciphertext : Bytes}
    (h : env.aead.encryptChecked secret key nonce associatedData slotCipher = .ok ciphertext) :
    checkTokenSecret key = .ok () := by
  unfold checkTokenSecret tokenSecretLen
  rw [if_neg (not_not.mpr (Aead.encryptChecked_eq_ok.mp h).1.1)]

/-- The token's secret under which a slot was made opens it. -/
theorem Seals.unwrapWithToken {key : Bytes} (h : Seals env slot key secret) (hinverts : env.aead.Inverts)
    (htype : slot.type = .fido) : unwrapWithToken env slot key = .ok secret := by
  obtain ⟨hchecked, hencrypted⟩ := h
  rw [htype] at hencrypted
  have hfido : slot.fido ≠ none := by
    rcases slot.cases_shape with ⟨ht, -⟩ | ⟨-, -, c, hc⟩
    · rw [ht] at htype
      cases htype
    · simp [hc]
  rw [KeyUnlock.unwrapWithToken, if_neg (by simp [htype, hfido]), checkTokenSecret_of_encryptChecked hencrypted,
    hinverts.decryptChecked hencrypted]
  exact secretFromBytes_of_checkSecret hchecked

/-- The passphrase under which a slot was made opens it. -/
theorem Seals.unwrapWithPassphrase {key passphrase : Bytes} {kdf : KDFFields} (h : Seals env slot key secret)
    (hinverts : env.aead.Inverts) (htype : slot.type = .passphrase) (hkdf : slot.kdf = some kdf)
    (hkey : deriveKeyOf env passphrase kdf.salt kdf.toParams = .ok key) (w : World γ Time) :
    ∃ w', (unwrapWithPassphrase env slot passphrase kdf.toParams).run w = .ok secret w' := by
  obtain ⟨hchecked, hencrypted⟩ := h
  rw [htype] at hencrypted
  have hrun : (deriveKey env passphrase kdf.salt kdf.toParams).run w =
      .ok key (w.note (.deriveKey kdf.toParams kdf.salt.length none)) := by
    rw [run_deriveKey, hkey]
  refine ⟨w.note (.deriveKey kdf.toParams kdf.salt.length none), ?_⟩
  rw [KeyUnlock.unwrapWithPassphrase, htype, hkdf]
  refine Program.run_bind_eq_ok.mpr ⟨key, _, hrun, ?_⟩
  rw [hinverts.decryptChecked hencrypted]
  exact Program.run_bind_eq_ok.mpr ⟨secret, _, Program.run_ofExcept_eq_ok.mpr ⟨rfl, rfl⟩,
    Program.run_ofExcept_eq_ok.mpr ⟨secretFromBytes_of_checkSecret hchecked, rfl⟩⟩

theorem secretFromBytes_eq_ok {raw : Bytes} (h : secretFromBytes raw = .ok secret) : raw = secret := by
  unfold secretFromBytes at h
  split_ifs at h
  exact Except.ok.inj h

/-- Whatever opens a slot finds what it holds. -/
theorem Seals.eq_of_unwrapWithToken {key tokenSecret found : Bytes} (h : Seals env slot key secret)
    (hinverts : env.aead.Inverts) (hauthentic : env.aead.Authentic)
    (hopen : KeyUnlock.unwrapWithToken env slot tokenSecret = .ok found) : found = secret := by
  unfold KeyUnlock.unwrapWithToken at hopen
  split_ifs at hopen with htype
  obtain ⟨htype, -⟩ := not_or.mp htype
  obtain ⟨-, -, hopen⟩ := bind_eq_ok hopen
  obtain ⟨raw, hraw, hopen⟩ := bind_eq_ok hopen
  rw [← not_not.mp htype] at hraw
  rw [← secretFromBytes_eq_ok hopen]
  exact hauthentic.decryptChecked hinverts h.encrypted hraw

theorem Seals.eq_of_unwrapWithPassphrase {key passphrase found : Bytes} {params : KDFParams}
    (h : Seals env slot key secret) (hinverts : env.aead.Inverts) (hauthentic : env.aead.Authentic)
    (hopen : (KeyUnlock.unwrapWithPassphrase env slot passphrase params).run w = .ok found w') : found = secret := by
  unfold KeyUnlock.unwrapWithPassphrase at hopen
  split at hopen
  · next kdf htype hkdf =>
    obtain ⟨key', w1, -, hopen⟩ := Program.run_bind_eq_ok.mp hopen
    obtain ⟨raw, w2, h2, hopen⟩ := Program.run_bind_eq_ok.mp hopen
    obtain ⟨hraw, rfl⟩ := Program.run_ofExcept_eq_ok.mp h2
    rw [← htype] at hraw
    rw [← secretFromBytes_eq_ok (Program.run_ofExcept_eq_ok.mp hopen).1]
    exact hauthentic.decryptChecked hinverts h.encrypted hraw
  · cases hopen

end Seals

/-! ### What goes wrong -/

theorem secretFromBytes_error {raw : Bytes} {e : Exc} (h : secretFromBytes raw = .error e) :
    e.cls = .decryptionError := by
  unfold secretFromBytes at h
  by_cases hr : raw = [] ∨ maxKeySecretLen < raw.length
  · rw [if_pos hr] at h
    obtain rfl := Except.error.inj h
    rfl
  · rw [if_neg hr] at h
    cases h

/-- A slot that a token's secret does not open. -/
theorem unwrapWithToken_error {slot : KeyUnlockSlot} {tokenSecret : Bytes} {e : Exc} (hs : slot.type = .fido)
    (hlen : tokenSecret.length = tokenSecretLen) (h : unwrapWithToken env slot tokenSecret = .error e) :
    e.cls = .decryptionError := by
  rcases slot.cases_shape with ⟨ht, -⟩ | ⟨-, -, c, hc⟩
  · rw [ht] at hs
    cases hs
  rw [unwrapWithToken, if_neg (by simp [hs, hc]), checkTokenSecret, if_neg (not_not.mpr hlen)] at h
  cases hd : env.aead.decryptChecked slot.wrappedSecret tokenSecret slot.nonce (slotAssociatedData .fido) slotCipher with
  | error e' =>
    rw [hd] at h
    obtain rfl := Except.error.inj h
    exact Aead.decryptChecked_error hd
  | ok raw =>
    rw [hd] at h
    exact secretFromBytes_error h

end KeyUnlock
end GpgMeister
