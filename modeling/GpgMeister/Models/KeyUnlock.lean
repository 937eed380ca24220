/-
# Unlock slots

`models/key_unlock.py`: the slots that hold a key's passphrase, and the token
binding in one of them, with what their validators check. A slot is written to
the store as text, and is read back from it as it was
(`KeyUnlockSlot.modelValidateJson_modelDumpJson`).
-/
import GpgMeister.Lib.JsonCompact
import GpgMeister.Models.VaultRoundTrip

namespace GpgMeister

def maxKeyUnlockSlots : ℕ := 8
def maxUnlockSlotLabelLength : ℕ := 96
def maxWrappedSecretLength : ℕ := 256
def maxCredentialIdLength : ℕ := 1023
def prfSaltLen : ℕ := 32
def maxRpIdLength : ℕ := 253
def unlockFormatTag : Str := lit "gpg-meister-key-unlock/1"

/-! ### The token binding -/

/-- `FidoCredential._validate_credential_id` -/
def credentialIdOk (value : Str) : Bool :=
  (Base64.decode value).any fun raw => raw ≠ [] && raw.length ≤ maxCredentialIdLength

/-- `FidoCredential._validate_salt` -/
def prfSaltOk (value : Str) : Bool := (Base64.decode value).any fun raw => raw.length = prfSaltLen

/-- What the validators of a binding check. -/
def credentialOk (credentialIdB64 saltB64 rpId label : Str) : Bool :=
  credentialIdOk credentialIdB64 && prfSaltOk saltB64 && (1 ≤ rpId.length && textOk maxRpIdLength rpId) &&
    textOk maxUnlockSlotLabelLength label

structure FidoCredential where
  credentialIdB64 : Str
  saltB64 : Str
  rpId : Str
  resident : Bool
  userVerification : Bool
  label : Str
  ok : credentialOk credentialIdB64 saltB64 rpId label = true
  deriving DecidableEq

/-- `FidoCredential(…)` -/
def FidoCredential.make (credentialIdB64 saltB64 rpId : Str) (resident userVerification : Bool) (label : Str) :
    Option FidoCredential :=
  if h : credentialOk credentialIdB64 saltB64 rpId label = true then
    some { credentialIdB64, saltB64, rpId, resident, userVerification, label, ok := h }
  else none

def FidoCredential.credentialId (c : FidoCredential) : Bytes := (Base64.decode c.credentialIdB64).getD []

def FidoCredential.salt (c : FidoCredential) : Bytes := (Base64.decode c.saltB64).getD []

def FidoCredential.dump (c : FidoCredential) : Json :=
  .obj [(lit "credential_id_b64", .str c.credentialIdB64), (lit "salt_b64", .str c.saltB64),
    (lit "rp_id", .str c.rpId), (lit "resident", .bool c.resident),
    (lit "user_verification", .bool c.userVerification), (lit "label", .str c.label)]

/-! ### The slot -/

inductive UnlockSlotType
  | passphrase
  | fido
  deriving DecidableEq

def UnlockSlotType.value : UnlockSlotType → Str
  | .passphrase => lit "passphrase"
  | .fido => lit "fido"

def UnlockSlotType.ofValue (s : Str) : Option UnlockSlotType :=
  if s = lit "passphrase" then some .passphrase else if s = lit "fido" then some .fido else none

/-- `KeyUnlockSlot._validate_wrapped` -/
def wrappedSecretOk (value : Str) : Bool :=
  (Base64.decode value).any fun raw => raw ≠ [] && raw.length ≤ maxWrappedSecretLength

/-- `KeyUnlockSlot._validate_slot_shape` -/
def unlockShapeOk (type : UnlockSlotType) (kdf : Option KDFFields) (fido : Option FidoCredential) : Bool :=
  match type with
  | .passphrase => kdf.isSome && fido.isNone
  | .fido => fido.isSome && kdf.isNone

/-- What the validators of a slot check. -/
def unlockSlotOk (type : UnlockSlotType) (wrappedSecretB64 nonceB64 : Str) (kdf : Option KDFFields)
    (fido : Option FidoCredential) (label : Str) : Bool :=
  wrappedSecretOk wrappedSecretB64 && nonceOk nonceB64 && textOk maxUnlockSlotLabelLength label &&
    unlockShapeOk type kdf fido

structure KeyUnlockSlot where
  type : UnlockSlotType
  wrappedSecretB64 : Str
  nonceB64 : Str
  kdf : Option KDFFields
  fido : Option FidoCredential
  label : Str
  ok : unlockSlotOk type wrappedSecretB64 nonceB64 kdf fido label = true
  deriving DecidableEq

/-- `KeyUnlockSlot(…)` -/
def KeyUnlockSlot.make (type : UnlockSlotType) (wrappedSecretB64 nonceB64 : Str) (kdf : Option KDFFields)
    (fido : Option FidoCredential) (label : Str) : Option KeyUnlockSlot :=
  if h : unlockSlotOk type wrappedSecretB64 nonceB64 kdf fido label = true then
    some { type, wrappedSecretB64, nonceB64, kdf, fido, label, ok := h }
  else none

def KeyUnlockSlot.wrappedSecret (s : KeyUnlockSlot) : Bytes := (Base64.decode s.wrappedSecretB64).getD []

def KeyUnlockSlot.nonce (s : KeyUnlockSlot) : Bytes := (Base64.decode s.nonceB64).getD []

/-- A field that may be `None`. -/
def dumpNullable (v : Option Json) : Json := v.getD .null

def KeyUnlockSlot.dump (s : KeyUnlockSlot) : Json :=
  .obj [(lit "type", .str s.type.value), (lit "wrapped_secret_b64", .str s.wrappedSecretB64),
    (lit "nonce_b64", .str s.nonceB64), (lit "kdf", dumpNullable (s.kdf.map KDFFields.dump)),
    (lit "fido", dumpNullable (s.fido.map FidoCredential.dump)), (lit "label", .str s.label)]

/-- `model_dump_json` -/
def KeyUnlockSlot.modelDumpJson (s : KeyUnlockSlot) : Str := Json.compact s.dump

section Validate

variable {Time : Type} (pydantic : Pydantic Time)

def FidoCredential.validate (v : Json) : Option FidoCredential := do
  let ms ← v.fields [lit "credential_id_b64", lit "salt_b64", lit "rp_id", lit "resident", lit "user_verification",
    lit "label"]
  let credentialIdB64 ← (← ms.lookup (lit "credential_id_b64")).text
  let saltB64 ← (← ms.lookup (lit "salt_b64")).text
  let rpId ← (← ms.lookup (lit "rp_id")).text
  let resident ← pydantic.jsonBool ((ms.lookup (lit "resident")).getD (.bool true))
  let userVerification ← pydantic.jsonBool ((ms.lookup (lit "user_verification")).getD (.bool true))
  let label ← ((ms.lookup (lit "label")).getD (.str [])).text
  FidoCredential.make credentialIdB64 saltB64 rpId resident userVerification label

def KeyUnlockSlot.validate (v : Json) : Option KeyUnlockSlot := do
  let ms ← v.fields [lit "type", lit "wrapped_secret_b64", lit "nonce_b64", lit "kdf", lit "fido", lit "label"]
  let type ← UnlockSlotType.ofValue (← (← ms.lookup (lit "type")).text)
  let wrappedSecretB64 ← (← ms.lookup (lit "wrapped_secret_b64")).text
  let nonceB64 ← (← ms.lookup (lit "nonce_b64")).text
  let kdf ← Json.optional (KDFFields.validate pydantic) (ms.lookup (lit "kdf"))
  let fido ← Json.optional (FidoCredential.validate pydantic) (ms.lookup (lit "fido"))
  let label ← ((ms.lookup (lit "label")).getD (.str [])).text
  KeyUnlockSlot.make type wrappedSecretB64 nonceB64 kdf fido label

/-- How deep the containers of a text may be nested. -/
def modelJsonDepth : ℕ := 200

/-- `model_validate_json`; `none` is a `ValidationError`. -/
def KeyUnlockSlot.modelValidateJson (text : Str) : Option KeyUnlockSlot :=
  match Json.loads modelJsonDepth text with
  | .ok v => KeyUnlockSlot.validate pydantic v
  | .error _ => none

end Validate

/-! ### The way back -/

section RoundTrip

variable {Time : Type} (pydantic : Pydantic Time)

theorem text_of_textOk {n : ℕ} {s : Str} (h : textOk n s = true) : Json.text (.str s) = some s := by
  rw [textOk, Bool.and_eq_true, Bool.not_eq_true'] at h
  exact Json.text_str h.2

theorem KDFFields.validate_self (k : KDFFields) : KDFFields.validate pydantic k.dump = some k :=
  k.validate_of_lookup pydantic rfl rfl rfl rfl rfl rfl rfl

theorem FidoCredential.validate_dump (c : FidoCredential) : FidoCredential.validate pydantic c.dump = some c := by
  obtain ⟨ms, hms, h1, h2, h3, h4, h5, h6⟩ : ∃ ms, c.dump.fields [lit "credential_id_b64", lit "salt_b64",
        lit "rp_id", lit "resident", lit "user_verification", lit "label"] = some ms ∧
      ms.lookup (lit "credential_id_b64") = some (.str c.credentialIdB64) ∧
      ms.lookup (lit "salt_b64") = some (.str c.saltB64) ∧ ms.lookup (lit "rp_id") = some (.str c.rpId) ∧
      ms.lookup (lit "resident") = some (.bool c.resident) ∧
      ms.lookup (lit "user_verification") = some (.bool c.userVerification) ∧
      ms.lookup (lit "label") = some (.str c.label) := ⟨_, rfl, rfl, rfl, rfl, rfl, rfl, rfl⟩
  have hok := c.ok
  unfold credentialOk at hok
  simp only [Bool.and_eq_true] at hok
  obtain ⟨⟨⟨hid, hsalt⟩, -, hrp⟩, hlabel⟩ := hok
  have hmake : FidoCredential.make c.credentialIdB64 c.saltB64 c.rpId c.resident c.userVerification c.label = some c :=
    dif_pos c.ok
  simp only [FidoCredential.validate, hms, h1, h2, h3, h4, h5, h6, Base64.text_str hid, Base64.text_str hsalt,
    text_of_textOk hrp, text_of_textOk hlabel, pydantic.jsonBool_bool, Option.getD_some, Option.bind_eq_bind,
    Option.bind_some, hmake]

/-- The kind of a slot decides which of its fields are there. -/
theorem KeyUnlockSlot.cases_shape (s : KeyUnlockSlot) :
    (s.type = .passphrase ∧ (∃ k, s.kdf = some k) ∧ s.fido = none) ∨
      (s.type = .fido ∧ s.kdf = none ∧ ∃ c, s.fido = some c) := by
  have hok := s.ok
  unfold unlockSlotOk at hok
  rw [Bool.and_eq_true] at hok
  have hshape := hok.2
  unfold unlockShapeOk at hshape
  cases ht : s.type with
  | passphrase =>
    rw [ht] at hshape
    simp only [Bool.and_eq_true, Option.isNone_iff_eq_none] at hshape
    exact .inl ⟨rfl, Option.isSome_iff_exists.mp hshape.1, hshape.2⟩
  | fido =>
    rw [ht] at hshape
    simp only [Bool.and_eq_true, Option.isNone_iff_eq_none] at hshape
    exact .inr ⟨rfl, hshape.2, Option.isSome_iff_exists.mp hshape.1⟩

theorem UnlockSlotType.ofValue_text (t : UnlockSlotType) :
    (Json.text (.str t.value)).bind UnlockSlotType.ofValue = some t := by
  cases t <;> rfl

/-- A field is read back, whether it is `None` or not. -/
theorem optional_dumpNullable {α : Type} {f : Json → Option α} {dump : α → Json} (hne : ∀ a, dump a ≠ .null)
    (h : ∀ a, f (dump a) = some a) (o : Option α) :
    Json.optional f (some (dumpNullable (o.map dump))) = some o := by
  cases o with
  | none => rfl
  | some a => exact Json.optional_some (hne a) (h a)

theorem KeyUnlockSlot.validate_dump (s : KeyUnlockSlot) : KeyUnlockSlot.validate pydantic s.dump = some s := by
  obtain ⟨ms, hms, h1, h2, h3, h4, h5, h6⟩ : ∃ ms, s.dump.fields [lit "type", lit "wrapped_secret_b64",
        lit "nonce_b64", lit "kdf", lit "fido", lit "label"] = some ms ∧
      ms.lookup (lit "type") = some (.str s.type.value) ∧
      ms.lookup (lit "wrapped_secret_b64") = some (.str s.wrappedSecretB64) ∧
      ms.lookup (lit "nonce_b64") = some (.str s.nonceB64) ∧
      ms.lookup (lit "kdf") = some (dumpNullable (s.kdf.map KDFFields.dump)) ∧
      ms.lookup (lit "fido") = some (dumpNullable (s.fido.map FidoCredential.dump)) ∧
      ms.lookup (lit "label") = some (.str s.label) := ⟨_, rfl, rfl, rfl, rfl, rfl, rfl, rfl⟩
  have hok := s.ok
  unfold unlockSlotOk at hok
  simp only [Bool.and_eq_true] at hok
  obtain ⟨⟨⟨hwrapped, hnonce⟩, hlabel⟩, -⟩ := hok
  obtain ⟨t, ht, htype⟩ := Option.bind_eq_some_iff.mp (UnlockSlotType.ofValue_text s.type)
  have hkdf := @optional_dumpNullable KDFFields _ KDFFields.dump nofun (KDFFields.validate_self pydantic) s.kdf
  have hfido := @optional_dumpNullable FidoCredential _ FidoCredential.dump nofun (FidoCredential.validate_dump pydantic)
    s.fido
  have hmake : KeyUnlockSlot.make s.type s.wrappedSecretB64 s.nonceB64 s.kdf s.fido s.label = some s := dif_pos s.ok
  simp only [KeyUnlockSlot.validate, hms, h1, h2, h3, h4, h5, h6, ht, htype, Base64.text_str hwrapped,
    Base64.text_str hnonce, hkdf, hfido, text_of_textOk hlabel, Option.getD_some, Option.bind_eq_bind,
    Option.bind_some, hmake]

theorem shortInts_bounded {lo hi : ℕ} (n : Bounded lo hi) (h : hi < 10 ^ 100) :
    Json.shortInts (.int n.val) = true := by
  have hn : n.val < 10 ^ 100 := n.2.2.trans_lt h
  have hlen : (Nat.digits 10 n.val).length ≤ 100 := (Nat.digits_length_le_iff (by decide) n.val).mpr hn
  have hmax : Json.maxStrDigits = 4300 := rfl
  rw [Json.shortInts, Int.natAbs_natCast, decide_eq_true_eq]
  omega

theorem KDFFields.shortInts_dump (k : KDFFields) : Json.shortInts k.dump = true := by
  have h1 := shortInts_bounded k.timeCost (by decide)
  have h2 := shortInts_bounded k.memoryCost (by decide)
  have h3 := shortInts_bounded k.parallelism (by decide)
  have h4 := shortInts_bounded k.hashLen (by decide)
  simp only [KDFFields.dump, Json.shortInts, Json.shortIntsMembers, Bool.and_true, Bool.true_and] at h1 h2 h3 h4 ⊢
  rw [h1, h2, h3, h4]
  rfl

/-- The text of a slot can be read. -/
theorem KeyUnlockSlot.loads_modelDumpJson (s : KeyUnlockSlot) :
    Json.loads modelJsonDepth s.modelDumpJson = .ok s.dump := by
  have hkdf : Json.shortInts (dumpNullable (s.kdf.map KDFFields.dump)) = true := by
    cases s.kdf with
    | none => rfl
    | some k => exact k.shortInts_dump
  have hfido : Json.shortInts (dumpNullable (s.fido.map FidoCredential.dump)) = true := by cases s.fido <;> rfl
  have hunique : Json.uniqueKeys s.dump = true := by
    unfold KeyUnlockSlot.dump
    cases s.kdf <;> cases s.fido <;> rfl
  have hdepth : Json.depth s.dump ≤ 2 := by
    unfold KeyUnlockSlot.dump
    cases s.kdf <;> cases s.fido <;> exact Nat.le_of_ble_eq_true rfl
  refine Json.loads_compact hunique ?_ (hdepth.trans (by decide))
  simp only [KeyUnlockSlot.dump, Json.shortInts, Json.shortIntsMembers, hkdf, hfido, Bool.and_true]

/-- **A slot is read back from its text.** -/
theorem KeyUnlockSlot.modelValidateJson_modelDumpJson (s : KeyUnlockSlot) :
    KeyUnlockSlot.modelValidateJson pydantic s.modelDumpJson = some s := by
  rw [KeyUnlockSlot.modelValidateJson, s.loads_modelDumpJson]
  exact KeyUnlockSlot.validate_dump pydantic s

end RoundTrip

end GpgMeister
