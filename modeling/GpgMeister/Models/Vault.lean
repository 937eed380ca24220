/-
# Vault models

`models/vault.py`: the header of a vault file with its key slots, and the
manifest in its encrypted payload. Each model is a structure that carries what
its validators check; `dump` is its `model_dump`, and `validate` its
`model_validate`, of which only the values that fail are told apart
(`none` is a `ValidationError`).
-/
import GpgMeister.Lib.Base64
import GpgMeister.Lib.Dict
import GpgMeister.Lib.Msgpack
import GpgMeister.Models.KdfParams
import GpgMeister.Models.KeyInfo

namespace GpgMeister

def vaultFormatTag : Str := lit "GPGMEISTER_VAULT"
def vaultFormatVersion : ℕ := 2
def vaultFormatVersionSlots : ℕ := 3
def nonceLen : ℕ := 12
def maxVaultKeySlots : ℕ := 8
def maxWrappedKeyLength : ℕ := 16 * 1024
def maxVaultSlotLabelLength : ℕ := 128
def maxVaultKeys : ℕ := 1024
def maxVaultUserIds : ℕ := 16
def maxVaultUserIdLength : ℕ := 512
def maxVaultDescriptionLength : ℕ := 4096
def maxVaultCreatedByLength : ℕ := 256
def maxVaultArmorLength : ℕ := 8 * 1024 * 1024

/-! ### Fields -/

/-- What the models take for a value of another type than the field's, and
how they write a point in time. -/
structure Pydantic (Time : Type) where
  int : Json → Option ℤ
  str : Msg → Option Str
  bool : Msg → Option Bool
  datetime : Msg → Option Time
  jsonBool : Json → Option Bool
  isoformat : Time → Str
  int_int : ∀ i, int (.int i) = some i
  str_str : ∀ s, str (.str s) = if s.any Utf8.isSurrogate then none else some s
  bool_bool : ∀ b, bool (.bool b) = some b
  jsonBool_bool : ∀ b, jsonBool (.bool b) = some b
  datetime_isoformat : ∀ t, datetime (.str (isoformat t)) = some t
  isoformat_ascii : ∀ t, (isoformat t).length ≤ 64 ∧ ∀ c ∈ isoformat t, c.val < 0x80

namespace Json

/-- A `str` field. -/
def text : Json → Option Str
  | .str s => if s.any Utf8.isSurrogate then none else some s
  | _ => none

/-- A field that may be `None` or missing. -/
def optional {α : Type} (f : Json → Option α) : Option Json → Option (Option α)
  | none => some none
  | some .null => some none
  | some v => (f v).map some

/-- The items of an object with no keys but these. -/
def fields (allowed : List Str) : Json → Option (List (Str × Json))
  | .obj ms => if ms.all (fun m => m.1 ∈ allowed) = true then some ms else none
  | _ => none

end Json

/-! ### The header -/

inductive CipherAlgorithm
  | chacha20Poly1305
  | aes256Gcm
  deriving DecidableEq

def CipherAlgorithm.value : CipherAlgorithm → Str
  | .chacha20Poly1305 => lit "chacha20-poly1305"
  | .aes256Gcm => lit "aes-256-gcm"

def CipherAlgorithm.ofValue (s : Str) : Option CipherAlgorithm :=
  if s = lit "chacha20-poly1305" then some .chacha20Poly1305
  else if s = lit "aes-256-gcm" then some .aes256Gcm else none

/-- `validate_nonce_b64` -/
def nonceOk (value : Str) : Bool := (Base64.decode value).any fun raw => raw.length = nonceLen

structure CipherParams where
  algorithm : CipherAlgorithm
  nonceB64 : Str
  nonce_ok : nonceOk nonceB64 = true
  deriving DecidableEq

/-- `CipherParams(…)` -/
def CipherParams.make (algorithm : CipherAlgorithm) (nonceB64 : Str) : Option CipherParams :=
  if h : nonceOk nonceB64 = true then some { algorithm, nonceB64, nonce_ok := h } else none

def CipherParams.nonce (c : CipherParams) : Bytes := (Base64.decode c.nonceB64).getD []

def CipherParams.dump (c : CipherParams) : Json :=
  .obj [(lit "algorithm", .str c.algorithm.value), (lit "nonce_b64", .str c.nonceB64)]

def CipherParams.validate (v : Json) : Option CipherParams := do
  let ms ← v.fields [lit "algorithm", lit "nonce_b64"]
  let algorithm ← CipherAlgorithm.ofValue (← (← ms.lookup (lit "algorithm")).text)
  let nonceB64 ← (← ms.lookup (lit "nonce_b64")).text
  CipherParams.make algorithm nonceB64

/-- `KDFFields._validate_salt` -/
def saltOk (value : Str) : Bool :=
  (Base64.decode value).any fun raw => minSaltLen ≤ raw.length && raw.length ≤ maxSaltLen

structure KDFFields where
  algorithm : KDFAlgorithm
  saltB64 : Str
  timeCost : TimeCost
  memoryCost : MemoryCost
  parallelism : Parallelism
  hashLen : HashLen
  salt_ok : saltOk saltB64 = true
  deriving DecidableEq

def KDFFields.salt (k : KDFFields) : Bytes := (Base64.decode k.saltB64).getD []

theorem KDFFields.salt_length (k : KDFFields) :
    minSaltLen ≤ k.salt.length ∧ k.salt.length ≤ maxSaltLen := by
  obtain ⟨raw, hraw, hlen⟩ := (Option.any_eq_true _ _).mp k.salt_ok
  rw [Bool.and_eq_true, decide_eq_true_eq, decide_eq_true_eq] at hlen
  rw [KDFFields.salt, hraw]
  exact hlen

/-- `KDFFields.from_params` -/
def KDFFields.fromParams (params : KDFParams) (salt : Bytes) : Option KDFFields :=
  if h : saltOk (Base64.encode salt) = true then
    some
      { algorithm := params.algorithm
        saltB64 := Base64.encode salt
        timeCost := params.timeCost
        memoryCost := params.memoryCost
        parallelism := params.parallelism
        hashLen := params.hashLen
        salt_ok := h }
  else none

def KDFFields.toParams (k : KDFFields) : KDFParams where
  algorithm := k.algorithm
  timeCost := k.timeCost
  memoryCost := k.memoryCost
  parallelism := k.parallelism
  hashLen := k.hashLen
  saltLen := ⟨k.salt.length, k.salt_length⟩

def KDFFields.dump (k : KDFFields) : Json :=
  .obj [(lit "algorithm", .str (lit "argon2id")), (lit "salt_b64", .str k.saltB64),
    (lit "time_cost", .int k.timeCost.val), (lit "memory_cost", .int k.memoryCost.val),
    (lit "parallelism", .int k.parallelism.val), (lit "hash_len", .int k.hashLen.val)]

section Validate

variable {Time : Type} (pydantic : Pydantic Time)

/-- An integer field with bounds. -/
def boundedField (lo hi : ℕ) (v : Option Json) : Option (Bounded lo hi) :=
  (v.bind pydantic.int).bind (Bounded.ofInt lo hi)

def KDFFields.validate (v : Json) : Option KDFFields := do
  let ms ← v.fields [lit "algorithm", lit "salt_b64", lit "time_cost", lit "memory_cost", lit "parallelism",
    lit "hash_len"]
  let algorithm ← (← ms.lookup (lit "algorithm")).text
  let saltB64 ← (← ms.lookup (lit "salt_b64")).text
  let timeCost ← boundedField pydantic minTimeCost maxTimeCost (ms.lookup (lit "time_cost"))
  let memoryCost ← boundedField pydantic minMemoryCostKb maxMemoryCostKb (ms.lookup (lit "memory_cost"))
  let parallelism ← boundedField pydantic 1 maxParallelism (ms.lookup (lit "parallelism"))
  let hashLen ← boundedField pydantic minHashLen maxHashLen (ms.lookup (lit "hash_len"))
  if algorithm = lit "argon2id" then
    if h : saltOk saltB64 = true then
      return { algorithm := .argon2id, saltB64, timeCost, memoryCost, parallelism, hashLen, salt_ok := h }
    else none
  else none

end Validate

/-! ### Key slots -/

inductive VaultSlotType
  | passphrase
  | openpgp
  deriving DecidableEq

def VaultSlotType.value : VaultSlotType → Str
  | .passphrase => lit "passphrase"
  | .openpgp => lit "openpgp"

def VaultSlotType.ofValue (s : Str) : Option VaultSlotType :=
  if s = lit "passphrase" then some .passphrase else if s = lit "openpgp" then some .openpgp else none

/-- `VaultKeySlot._validate_wrapped` -/
def wrappedKeyOk (value : Str) : Bool :=
  (Base64.decode value).any fun raw => raw ≠ [] && raw.length ≤ maxWrappedKeyLength

/-- `VaultKeySlot._validate_slot_shape` -/
def slotShapeOk (type : VaultSlotType) (kdf : Option KDFFields) (nonceB64 fingerprint : Option Str) : Bool :=
  match type with
  | .passphrase => kdf.isSome && nonceB64.isSome && fingerprint.isNone
  | .openpgp => fingerprint.isSome && kdf.isNone && nonceB64.isNone

/-- What the validators of a slot check. -/
def slotOk (type : VaultSlotType) (wrappedKeyB64 : Str) (kdf : Option KDFFields)
    (nonceB64 fingerprint : Option Str) (label : Str) : Bool :=
  wrappedKeyOk wrappedKeyB64 && nonceB64.all nonceOk && fingerprint.all (fun fp => IsFingerprint fp) &&
    (label.length ≤ maxVaultSlotLabelLength && ! label.any Utf8.isSurrogate) &&
    slotShapeOk type kdf nonceB64 fingerprint

structure VaultKeySlot where
  type : VaultSlotType
  wrappedKeyB64 : Str
  kdf : Option KDFFields
  nonceB64 : Option Str
  fingerprint : Option Str
  label : Str
  ok : slotOk type wrappedKeyB64 kdf nonceB64 fingerprint label = true
  deriving DecidableEq

/-- `VaultKeySlot._validate_fingerprint` -/
def normaliseOptional : Option Str → Option (Option Str)
  | none => some none
  | some value => (normaliseFingerprint value).map some

/-- `VaultKeySlot(…)` -/
def VaultKeySlot.make (type : VaultSlotType) (wrappedKeyB64 : Str) (kdf : Option KDFFields)
    (nonceB64 fingerprint : Option Str) (label : Str) : Option VaultKeySlot := do
  let fingerprint ← normaliseOptional fingerprint
  if h : slotOk type wrappedKeyB64 kdf nonceB64 fingerprint label = true then
    return { type, wrappedKeyB64, kdf, nonceB64, fingerprint, label, ok := h }
  else none

def VaultKeySlot.wrappedKey (s : VaultKeySlot) : Bytes := (Base64.decode s.wrappedKeyB64).getD []

/-- `VaultKeySlot.nonce`, where there is one. -/
def VaultKeySlot.nonce (s : VaultKeySlot) : Option Bytes := s.nonceB64.bind Base64.decode

/-- A field that is left out if it is `None`. -/
def dumpOptional (key : Str) (v : Option Json) : List (Str × Json) := (v.map fun x => (key, x)).toList

def VaultKeySlot.dump (s : VaultKeySlot) : Json :=
  .obj
    ([(lit "type", .str s.type.value), (lit "wrapped_key_b64", .str s.wrappedKeyB64)] ++
      dumpOptional (lit "kdf") (s.kdf.map KDFFields.dump) ++
      dumpOptional (lit "nonce_b64") (s.nonceB64.map .str) ++
      dumpOptional (lit "fingerprint") (s.fingerprint.map .str) ++ [(lit "label", .str s.label)])

/-! ### The whole header -/

/-- What the validators of a header check; `format` is always the tag. -/
def headerOk (version : ℕ) (kdf : Option KDFFields) (keySlots : Option (List VaultKeySlot)) : Bool :=
  keySlots.all (fun slots => slots.length ≤ maxVaultKeySlots) &&
    if version = vaultFormatVersion then kdf.isSome && keySlots.isNone
    else version = vaultFormatVersionSlots && (keySlots.any (· ≠ []) && kdf.isNone)

structure VaultHeader where
  version : ℕ
  kdf : Option KDFFields
  cipher : CipherParams
  keySlots : Option (List VaultKeySlot)
  ok : headerOk version kdf keySlots = true
  deriving DecidableEq

/-- `VaultHeader(…)` -/
def VaultHeader.make (version : ℕ) (kdf : Option KDFFields) (cipher : CipherParams)
    (keySlots : Option (List VaultKeySlot)) : Option VaultHeader :=
  if h : headerOk version kdf keySlots = true then some { version, kdf, cipher, keySlots, ok := h } else none

def VaultHeader.usesKeySlots (h : VaultHeader) : Bool := h.keySlots.any (· ≠ [])

def VaultHeader.slotsOf (h : VaultHeader) (type : VaultSlotType) : List VaultKeySlot :=
  (h.keySlots.getD []).filter (·.type = type)

/-- `model_dump(mode="json", exclude_none=True)` -/
def VaultHeader.dump (h : VaultHeader) : Json :=
  .obj
    ([(lit "format", .str vaultFormatTag), (lit "version", .int h.version)] ++
      dumpOptional (lit "kdf") (h.kdf.map KDFFields.dump) ++ [(lit "cipher", h.cipher.dump)] ++
      dumpOptional (lit "key_slots") (h.keySlots.map fun slots => .arr (slots.map VaultKeySlot.dump)))

section Validate

variable {Time : Type} (pydantic : Pydantic Time)

def VaultKeySlot.validate (v : Json) : Option VaultKeySlot := do
  let ms ← v.fields [lit "type", lit "wrapped_key_b64", lit "kdf", lit "nonce_b64", lit "fingerprint", lit "label"]
  let type ← VaultSlotType.ofValue (← (← ms.lookup (lit "type")).text)
  let wrappedKeyB64 ← (← ms.lookup (lit "wrapped_key_b64")).text
  let kdf ← Json.optional (KDFFields.validate pydantic) (ms.lookup (lit "kdf"))
  let nonceB64 ← Json.optional Json.text (ms.lookup (lit "nonce_b64"))
  let fingerprint ← Json.optional Json.text (ms.lookup (lit "fingerprint"))
  let label ← ((ms.lookup (lit "label")).getD (.str [])).text
  VaultKeySlot.make type wrappedKeyB64 kdf nonceB64 fingerprint label

/-- A list of slots. -/
def validateSlots : Json → Option (List VaultKeySlot)
  | .arr xs => xs.mapM (VaultKeySlot.validate pydantic)
  | _ => none

def VaultHeader.validate (v : Json) : Option VaultHeader := do
  let ms ← v.fields [lit "format", lit "version", lit "kdf", lit "cipher", lit "key_slots"]
  let format ← ((ms.lookup (lit "format")).getD (.str vaultFormatTag)).text
  let version ← pydantic.int ((ms.lookup (lit "version")).getD (.int vaultFormatVersion))
  let kdf ← Json.optional (KDFFields.validate pydantic) (ms.lookup (lit "kdf"))
  let cipher ← CipherParams.validate (← ms.lookup (lit "cipher"))
  let keySlots ← Json.optional (validateSlots pydantic) (ms.lookup (lit "key_slots"))
  if format = vaultFormatTag ∧ 0 ≤ version then VaultHeader.make version.toNat kdf cipher keySlots else none

end Validate

/-! ### The manifest -/

namespace Msg

/-- The items of a map with no keys but these. -/
def fields (allowed : List Str) : Msg → Option (List (Msg × Msg))
  | .map items =>
    if items.all (fun m => match m.1 with | .str k => k ∈ allowed | _ => false) = true then some items else none
  | _ => none

end Msg

/-- A text without lone surrogates, of at most so many characters. -/
def textOk (maxLength : ℕ) (s : Str) : Bool := s.length ≤ maxLength && ! s.any Utf8.isSurrogate

/-- What the validators of an entry check. -/
def entryOk (fingerprint : Str) (userIds : List Str) : Bool :=
  IsFingerprint fingerprint && userIds.length ≤ maxVaultUserIds && userIds.all (textOk maxVaultUserIdLength)

structure VaultKeyEntry (Time : Type) where
  fingerprint : Str
  userIds : List Str
  hasPrivateKey : Bool
  isStub : Bool
  createdAt : Time
  expiresAt : Option Time
  ok : entryOk fingerprint userIds = true

/-- What the validators of a manifest check of its own fields. -/
def manifestOk (createdBy appVersion description : Str) (keyCount : ℕ) : Bool :=
  textOk maxVaultCreatedByLength createdBy && ! appVersion.any Utf8.isSurrogate &&
    textOk maxVaultDescriptionLength description && keyCount ≤ maxVaultKeys

structure VaultManifest (Time : Type) where
  createdBy : Str
  createdAt : Time
  appVersion : Str
  description : Str
  keys : List (VaultKeyEntry Time)
  ok : manifestOk createdBy appVersion description keys.length = true

section Manifest

variable {Time : Type} (pydantic : Pydantic Time)

/-- `VaultKeyEntry(…)`. The length is checked before the fingerprint is
normalised. -/
def VaultKeyEntry.make (fingerprint : Str) (userIds : List Str) (hasPrivateKey isStub : Bool) (createdAt : Time)
    (expiresAt : Option Time) : Option (VaultKeyEntry Time) := do
  if fingerprint.length ≠ fingerprintLength then none
  let fingerprint ← normaliseFingerprint fingerprint
  if h : entryOk fingerprint userIds = true then
    return { fingerprint, userIds, hasPrivateKey, isStub, createdAt, expiresAt, ok := h }
  else none

/-- `VaultManifest(…)` -/
def VaultManifest.make (createdBy : Str) (createdAt : Time) (appVersion description : Str)
    (keys : List (VaultKeyEntry Time)) : Option (VaultManifest Time) :=
  if h : manifestOk createdBy appVersion description keys.length = true then
    some { createdBy, createdAt, appVersion, description, keys, ok := h }
  else none

def VaultKeyEntry.dump (e : VaultKeyEntry Time) : Msg :=
  .map [(.str (lit "fingerprint"), .str e.fingerprint), (.str (lit "user_ids"), .arr (e.userIds.map .str)),
    (.str (lit "has_private_key"), .bool e.hasPrivateKey), (.str (lit "is_stub"), .bool e.isStub),
    (.str (lit "created_at"), .str (pydantic.isoformat e.createdAt)),
    (.str (lit "expires_at"), (e.expiresAt.map fun t => .str (pydantic.isoformat t)).getD .nil)]

/-- `model_dump(mode="json")` -/
def VaultManifest.dump (m : VaultManifest Time) : Msg :=
  .map [(.str (lit "created_by"), .str m.createdBy),
    (.str (lit "created_at"), .str (pydantic.isoformat m.createdAt)),
    (.str (lit "app_version"), .str m.appVersion), (.str (lit "description"), .str m.description),
    (.str (lit "keys"), .arr (m.keys.map (VaultKeyEntry.dump pydantic)))]

/-- A list. -/
def Msg.items : Msg → Option (List Msg)
  | .arr xs => some xs
  | _ => none

/-- A field that may be `None` or missing. -/
def Msg.optional {α : Type} (f : Msg → Option α) : Option Msg → Option (Option α)
  | none => some none
  | some .nil => some none
  | some v => (f v).map some

def VaultKeyEntry.validate (v : Msg) : Option (VaultKeyEntry Time) := do
  let ms ← v.fields [lit "fingerprint", lit "user_ids", lit "has_private_key", lit "is_stub", lit "created_at",
    lit "expires_at"]
  let fingerprint ← pydantic.str (← Msg.get ms (lit "fingerprint"))
  let userIds ← (← (← Msg.get ms (lit "user_ids")).items).mapM pydantic.str
  let hasPrivateKey ← pydantic.bool (← Msg.get ms (lit "has_private_key"))
  let isStub ← pydantic.bool ((Msg.get ms (lit "is_stub")).getD (.bool false))
  let createdAt ← pydantic.datetime (← Msg.get ms (lit "created_at"))
  let expiresAt ← Msg.optional pydantic.datetime (Msg.get ms (lit "expires_at"))
  VaultKeyEntry.make fingerprint userIds hasPrivateKey isStub createdAt expiresAt

def VaultManifest.validate (v : Msg) : Option (VaultManifest Time) := do
  let ms ← v.fields [lit "created_by", lit "created_at", lit "app_version", lit "description", lit "keys"]
  let createdBy ← pydantic.str ((Msg.get ms (lit "created_by")).getD (.str []))
  let createdAt ← pydantic.datetime (← Msg.get ms (lit "created_at"))
  let appVersion ← pydantic.str (← Msg.get ms (lit "app_version"))
  let description ← pydantic.str ((Msg.get ms (lit "description")).getD (.str []))
  let keys ← (← (← Msg.get ms (lit "keys")).items).mapM (VaultKeyEntry.validate pydantic)
  VaultManifest.make createdBy createdAt appVersion description keys

end Manifest

end GpgMeister
