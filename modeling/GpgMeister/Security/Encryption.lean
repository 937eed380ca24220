/-
# Encryption and key derivation

`security/aead.py` and `security/kdf.py`: authenticated encryption with either
cipher, and keys from passphrases. A secret in a `SecureBytes` is its octets.
-/
import GpgMeister.World

namespace GpgMeister

variable {γ Time : Type}

/-! ### `security/aead.py` -/

/-- `KEY_LEN` -/
def keyLen : ℕ := 32

/-- `generate_nonce` -/
def generateNonce : Program (World γ Time) Exc Bytes := tokenBytes nonceLen

/-- `_check_inputs` -/
def checkInputs (key nonce : Bytes) : Except Exc Unit :=
  if key.length ≠ keyLen then .error { cls := .decryptionError, message := lit "key length mismatch" }
  else if nonce.length ≠ nonceLen then .error { cls := .decryptionError, message := lit "nonce length mismatch" }
  else .ok ()

def decryptionFailed : Exc where
  cls := .decryptionError
  message := lit "decryption failed: the passphrase, ciphertext, or header may be wrong"

namespace Aead

variable (aead : Aead)

/-- `encrypt` -/
def encryptChecked (plaintext key nonce associatedData : Bytes) (cipher : CipherAlgorithm) : Except Exc Bytes := do
  checkInputs key nonce
  match aead.encrypt cipher key nonce associatedData plaintext with
  | some ciphertext => return ciphertext
  | none => .error { cls := .overflowError, message := lit "Data or associated data too long. Max 2**31 - 1 bytes" }

/-- `decrypt` -/
def decryptChecked (ciphertext key nonce associatedData : Bytes) (cipher : CipherAlgorithm) : Except Exc Bytes := do
  checkInputs key nonce
  match aead.decrypt cipher key nonce associatedData ciphertext with
  | some plaintext => return plaintext
  | none => .error decryptionFailed

/-- Decryption inverts encryption. -/
def Inverts : Prop :=
  ∀ cipher key nonce associatedData plaintext ciphertext,
    aead.encrypt cipher key nonce associatedData plaintext = some ciphertext →
      aead.decrypt cipher key nonce associatedData ciphertext = some plaintext

/-- The ciphertext is the plaintext's length and the tag's. -/
def Tagged : Prop :=
  ∀ cipher key nonce associatedData plaintext ciphertext,
    aead.encrypt cipher key nonce associatedData plaintext = some ciphertext →
      ciphertext.length = plaintext.length + 16

/-- Decryption fails under any other key, and with any other associated data. -/
def Authentic : Prop :=
  ∀ cipher key key' nonce associatedData associatedData' plaintext ciphertext,
    aead.encrypt cipher key nonce associatedData plaintext = some ciphertext →
      (key', associatedData') ≠ (key, associatedData) →
        aead.decrypt cipher key' nonce associatedData' ciphertext = none

/-- Decryption fails with any other associated data. -/
def Binds : Prop :=
  ∀ {cipher cipher' key key' nonce nonce' associatedData associatedData' plaintext plaintext' ciphertext},
    aead.encrypt cipher key nonce associatedData plaintext = some ciphertext →
      aead.decrypt cipher' key' nonce' associatedData' ciphertext = some plaintext' → associatedData' = associatedData

variable {aead}

theorem encryptChecked_eq_ok {plaintext key nonce associatedData ciphertext : Bytes} {cipher : CipherAlgorithm} :
    aead.encryptChecked plaintext key nonce associatedData cipher = .ok ciphertext ↔
      (key.length = keyLen ∧ nonce.length = nonceLen) ∧
        aead.encrypt cipher key nonce associatedData plaintext = some ciphertext := by
  unfold encryptChecked checkInputs
  by_cases hk : key.length = keyLen
  · by_cases hn : nonce.length = nonceLen
    · cases aead.encrypt cipher key nonce associatedData plaintext with
      | none => simp [hk, hn, bind, Except.bind]
      | some c => simp [hk, hn, bind, Except.bind, pure, Except.pure]
    · simp [hk, hn, bind, Except.bind]
  · simp [hk, bind, Except.bind]

theorem Inverts.decryptChecked {plaintext key nonce associatedData ciphertext : Bytes} {cipher : CipherAlgorithm}
    (h : aead.Inverts) (he : aead.encryptChecked plaintext key nonce associatedData cipher = .ok ciphertext) :
    aead.decryptChecked ciphertext key nonce associatedData cipher = .ok plaintext := by
  obtain ⟨⟨hk, hn⟩, he⟩ := encryptChecked_eq_ok.mp he
  have hd := h _ _ _ _ _ _ he
  simp [Aead.decryptChecked, checkInputs, hk, hn, hd, bind, Except.bind, pure, Except.pure]

theorem decrypt_of_decryptChecked {plaintext key nonce associatedData ciphertext : Bytes} {cipher : CipherAlgorithm}
    (h : aead.decryptChecked ciphertext key nonce associatedData cipher = .ok plaintext) :
    aead.decrypt cipher key nonce associatedData ciphertext = some plaintext := by
  unfold Aead.decryptChecked at h
  cases hc : checkInputs key nonce with
  | error e =>
    rw [hc] at h
    cases h
  | ok u =>
    rw [hc] at h
    cases hd : aead.decrypt cipher key nonce associatedData ciphertext with
    | none =>
      rw [hd] at h
      cases h
    | some found =>
      rw [hd] at h
      rw [Except.ok.inj h]

/-- What can be decrypted is what was encrypted. -/
theorem Authentic.decryptChecked {plaintext key key' nonce associatedData ciphertext plaintext' : Bytes}
    {cipher : CipherAlgorithm} (h : aead.Authentic) (hinverts : aead.Inverts)
    (he : aead.encryptChecked plaintext key nonce associatedData cipher = .ok ciphertext)
    (hd : aead.decryptChecked ciphertext key' nonce associatedData cipher = .ok plaintext') : plaintext' = plaintext := by
  by_cases hkey : key' = key
  · rw [hkey, hinverts.decryptChecked he] at hd
    exact (Except.ok.inj hd).symm
  · have hnone := h _ _ key' _ _ associatedData _ _ (encryptChecked_eq_ok.mp he).2 (by simp [hkey])
    unfold Aead.decryptChecked at hd
    rw [hnone] at hd
    cases hc : checkInputs key' nonce with
    | ok u =>
      rw [hc] at hd
      cases hd
    | error e =>
      rw [hc] at hd
      cases hd

theorem decryptChecked_error {ciphertext key nonce associatedData : Bytes} {cipher : CipherAlgorithm}
    {e : Exc} (h : aead.decryptChecked ciphertext key nonce associatedData cipher = .error e) :
    e.cls = .decryptionError := by
  unfold Aead.decryptChecked checkInputs at h
  by_cases hk : key.length = keyLen
  · by_cases hn : nonce.length = nonceLen
    · simp only [hk, hn, ne_eq, not_true_eq_false, if_false] at h
      cases hd : aead.decrypt cipher key nonce associatedData ciphertext with
      | none =>
        rw [hd] at h
        obtain rfl := Except.error.inj h
        rfl
      | some plaintext =>
        rw [hd] at h
        cases h
    · simp only [hk, hn, ne_eq, not_true_eq_false, not_false_eq_true, if_false, if_true] at h
      obtain rfl := Except.error.inj h
      rfl
  · simp only [hk, ne_eq, not_false_eq_true, if_true] at h
    obtain rfl := Except.error.inj h
    rfl

end Aead

/-! ### `security/kdf.py` -/

/-- `generate_salt` -/
def generateSalt (length : ℕ) : Program (World γ Time) Exc Bytes :=
  if length < minSaltLen then
    Program.raise
      { cls := .kdfError
        message := lit "salt length " ++ Json.decimal length ++ lit " is below the floor " ++
          Json.decimal minSaltLen }
  else tokenBytes length

theorem run_generateSalt_eq_ok {n : ℕ} {salt : Bytes} {w w' : World γ Time}
    (h : (generateSalt n).run w = .ok salt w') : salt.length = n := by
  unfold generateSalt at h
  split_ifs at h
  · cases h
  · exact run_tokenBytes_eq_ok h

/-- What `derive_key` makes of a passphrase; `KDFParams` are within the bounds
that `_validate_params` checks. -/
def deriveKeyOf (env : Platform γ Time) (passphrase salt : Bytes) (params : KDFParams) : Except Exc Bytes :=
  if salt.length ≠ params.saltLen.val then
    .error
      { cls := .kdfError
        message := lit "salt length " ++ Json.decimal salt.length ++ lit " does not match params.salt_len " ++
          Json.decimal params.saltLen.val }
  else
    match env.argon2 passphrase salt params with
    | .ok raw => .ok raw
    | .error text => .error { cls := .kdfError, message := lit "argon2id failed: " ++ text }

/-- `derive_key` -/
def deriveKey (env : Platform γ Time) (passphrase salt : Bytes) (params : KDFParams) :
    Program (World γ Time) Exc Bytes :=
  recorded (.deriveKey params salt.length) (Program.ofExcept (deriveKeyOf env passphrase salt params))

theorem run_deriveKey (env : Platform γ Time) (passphrase salt : Bytes) (params : KDFParams) (w : World γ Time) :
    (deriveKey env passphrase salt params).run w =
      match deriveKeyOf env passphrase salt params with
      | .ok key => .ok key (w.note (.deriveKey params salt.length none))
      | .error e => .error e (w.note (.deriveKey params salt.length (some e))) := by
  unfold deriveKey recorded
  cases deriveKeyOf env passphrase salt params <;> rfl

theorem run_deriveKey_eq_ok {env : Platform γ Time} {passphrase salt key : Bytes} {params : KDFParams}
    {w w' : World γ Time} (h : (deriveKey env passphrase salt params).run w = .ok key w') :
    deriveKeyOf env passphrase salt params = .ok key := by
  obtain ⟨w1, h, -⟩ := run_recorded_eq_ok.mp h
  exact (Program.run_ofExcept_eq_ok.mp h).1

/-- The fields of a header are the parameters, and the salt. -/
theorem KDFFields.fromParams_eq_some {params : KDFParams} {salt : Bytes} {kdf : KDFFields}
    (h : KDFFields.fromParams params salt = some kdf) (hlen : salt.length = params.saltLen.val) :
    kdf.salt = salt ∧ kdf.toParams = params := by
  unfold KDFFields.fromParams at h
  split_ifs at h with hok
  obtain rfl := Option.some.inj h
  have hsalt : (Base64.decode (Base64.encode salt)).getD [] = salt := by
    rw [Base64.decode_encode]
    rfl
  refine ⟨hsalt, ?_⟩
  unfold KDFFields.toParams KDFFields.salt
  congr 1
  exact Subtype.ext ((congrArg List.length hsalt).trans hlen)

/-- The parameters of a header say how long its salt is. -/
theorem deriveKeyOf_toParams (env : Platform γ Time) (passphrase : Bytes) (kdf : KDFFields) :
    deriveKeyOf env passphrase kdf.salt kdf.toParams =
      match env.argon2 passphrase kdf.salt kdf.toParams with
      | .ok raw => .ok raw
      | .error text => .error { cls := .kdfError, message := lit "argon2id failed: " ++ text } :=
  if_neg (not_not.mpr rfl)

end GpgMeister
