/-
# Keys

`models/key_info.py` and the labels of `models/smartcard.py`: fingerprints, a
key of the keyring, and what a key's private half is called in a list. Of a
key only what the modelled services read is here.
-/
import GpgMeister.Errors
import GpgMeister.Lib.Json

namespace GpgMeister

/-! ### Fingerprints -/

/-- `_FINGERPRINT_CHARS` -/
def fingerprintChars : Str := lit "0123456789ABCDEF"

def fingerprintLength : ℕ := 40

/-- `str.upper`, of the characters from which it makes characters of a
fingerprint: the lower-case letters, and the ligature `ff`. -/
def upperHex (c : CodePoint) : Str :=
  if 0x61 ≤ c.val ∧ c.val ≤ 0x66 then [Fin.ofNat _ (c.val - 0x20)]
  else if c.val = 0xFB00 then [0x46, 0x46] else [c]

/-- `normalise_fingerprint` and `validate_fingerprint`, which differ in the
exception they raise only. -/
def normaliseFingerprint (value : Str) : Option Str :=
  let upper := value.flatMap upperHex
  if upper.length = fingerprintLength ∧ upper.all (· ∈ fingerprintChars) = true then some upper else none

theorem upperHex_of_mem {c : CodePoint} (h : c ∈ fingerprintChars) : upperHex c = [c] := by
  have hall : fingerprintChars.all (fun c => upperHex c = [c]) = true := by decide
  simpa using List.all_eq_true.mp hall c h

/-- Normal fingerprints. -/
def IsFingerprint (fp : Str) : Prop := fp.length = fingerprintLength ∧ fp.all (· ∈ fingerprintChars) = true

instance (fp : Str) : Decidable (IsFingerprint fp) := by unfold IsFingerprint; infer_instance

theorem isFingerprint_of_normalise {value fp : Str} (h : normaliseFingerprint value = some fp) :
    IsFingerprint fp := by
  unfold normaliseFingerprint at h
  dsimp only at h
  split_ifs at h with hv
  cases h
  exact hv

theorem flatMap_upperHex : ∀ {fp : Str}, fp.all (· ∈ fingerprintChars) = true → fp.flatMap upperHex = fp
  | [], _ => rfl
  | c :: fp, h => by
    rw [List.all_cons, Bool.and_eq_true, decide_eq_true_eq] at h
    rw [List.flatMap_cons, upperHex_of_mem h.1, flatMap_upperHex h.2, List.singleton_append]

@[simp] theorem normalise_of_isFingerprint {fp : Str} (h : IsFingerprint fp) :
    normaliseFingerprint fp = some fp := by
  rw [normaliseFingerprint, flatMap_upperHex h.2]
  exact if_pos h

/-- `bytes.fromhex`, of text without white space. -/
def fromHex : Str → Option Bytes
  | [] => some []
  | a :: b :: r => do
    let i ← (lit "0123456789abcdef").idxOf? a <|> fingerprintChars.idxOf? a
    let j ← (lit "0123456789abcdef").idxOf? b <|> fingerprintChars.idxOf? b
    return .ofNat (16 * i + j) :: (← fromHex r)
  | [_] => none

/-- `data.hex().upper()` -/
def hexUpper (data : Bytes) : Str :=
  data.flatMap fun b => [fingerprintChars.getD (b.toNat / 16) 0, fingerprintChars.getD (b.toNat % 16) 0]

/-- The characters that are made into characters of a fingerprint one by one. -/
theorem mem_of_upperHex {c d : CodePoint} (h : upperHex c = [d]) (hd : d ∈ fingerprintChars) :
    c ∈ lit "0123456789ABCDEFabcdef" := by
  unfold upperHex at h
  split_ifs at h with h1 h2
  · have hall : (List.range' 0x61 6).all (fun n => (Fin.ofNat _ n : CodePoint) ∈ lit "0123456789ABCDEFabcdef") = true := by
      decide
    have hc := List.all_eq_true.mp hall c.val (by rw [List.mem_range'_1]; omega)
    rw [decide_eq_true_eq] at hc
    have he : (Fin.ofNat _ c.val : CodePoint) = c := Fin.ext (Nat.mod_eq_of_lt c.isLt)
    rwa [he] at hc
  · simp at h
  · obtain rfl : c = d := by simpa using h
    have hall : fingerprintChars.all (fun c => c ∈ lit "0123456789ABCDEFabcdef") = true := by decide
    simpa using List.all_eq_true.mp hall c hd

/-- The octets of hexadecimal text. -/
theorem fromHex_spec : ∀ {fp : Str}, (∀ c ∈ fp, ∃ d ∈ fingerprintChars, upperHex c = [d]) → 2 ∣ fp.length →
    ∃ data, fromHex fp = some data ∧ 2 * data.length = fp.length ∧ hexUpper data = fp.flatMap upperHex
  | [], _, _ => ⟨[], rfl, rfl, rfl⟩
  | [_], _, h => by
    rw [List.length_singleton] at h
    omega
  | a :: b :: fp, h, hl => by
    simp only [List.forall_mem_cons] at h
    obtain ⟨⟨a', ha', ha⟩, ⟨b', hb', hb⟩, hr⟩ := h
    have hdigit : (lit "0123456789ABCDEFabcdef").all (fun c =>
        ((lit "0123456789abcdef").idxOf? c <|> fingerprintChars.idxOf? c).any fun i =>
          i < 16 && [fingerprintChars.getD i 0] = upperHex c) = true := by decide
    have hd := List.all_eq_true.mp hdigit
    obtain ⟨i, hi, hi'⟩ := (Option.any_eq_true _ _).mp (hd a (mem_of_upperHex ha ha'))
    obtain ⟨j, hj, hj'⟩ := (Option.any_eq_true _ _).mp (hd b (mem_of_upperHex hb hb'))
    rw [Bool.and_eq_true, decide_eq_true_eq, decide_eq_true_eq] at hi' hj'
    obtain ⟨data, hdata, hlen, hhex⟩ := fromHex_spec hr (by
      rw [List.length_cons, List.length_cons] at hl
      omega)
    refine ⟨.ofNat (16 * i + j) :: data, ?_, ?_, ?_⟩
    · simp only [fromHex, hi, hj, hdata, Option.bind_eq_bind, Option.bind_some, pure]
    · simp only [List.length_cons]
      omega
    · have hn : (UInt8.ofNat (16 * i + j)).toNat = 16 * i + j := UInt8.toNat_ofNat_of_lt' (by
        have : UInt8.size = 256 := rfl
        omega)
      have h1 : (16 * i + j) / 16 = i := by omega
      have h2 : (16 * i + j) % 16 = j := by omega
      rw [hexUpper, List.flatMap_cons, hn, h1, h2, ← hexUpper, hhex, List.flatMap_cons, List.flatMap_cons, ← hi'.2,
        ← hj'.2]
      rfl

theorem one_le_length_upperHex (c : CodePoint) : 1 ≤ (upperHex c).length := by
  unfold upperHex
  split_ifs <;> simp

theorem length_le_flatMap_upperHex : ∀ fp : Str, fp.length ≤ (fp.flatMap upperHex).length
  | [] => le_rfl
  | c :: fp => by
    have hc := one_le_length_upperHex c
    have hr := length_le_flatMap_upperHex fp
    rw [List.flatMap_cons, List.length_append, List.length_cons]
    omega

/-- Where no character becomes two, each becomes one. -/
theorem upperHex_of_length : ∀ {fp : Str}, (fp.flatMap upperHex).length = fp.length →
    (fp.flatMap upperHex).all (· ∈ fingerprintChars) = true → ∀ c ∈ fp, ∃ d ∈ fingerprintChars, upperHex c = [d]
  | [], _, _, c, hc => by simp at hc
  | a :: fp, hl, hall, c, hc => by
    rw [List.flatMap_cons, List.length_append, List.length_cons] at hl
    rw [List.flatMap_cons, List.all_append, Bool.and_eq_true] at hall
    have ha := one_le_length_upperHex a
    have hr := length_le_flatMap_upperHex fp
    rcases List.mem_cons.mp hc with rfl | hc
    · obtain ⟨d, hd⟩ := List.length_eq_one_iff.mp (show (upperHex c).length = 1 by omega)
      refine ⟨d, ?_, hd⟩
      have := hall.1
      rw [hd] at this
      simpa using this
    · exact upperHex_of_length (by omega) hall.2 c hc

/-- The octets of a fingerprint, in letters of either case. -/
theorem fromHex_of_normalise {value fp : Str} (hlen : value.length = fingerprintLength)
    (h : normaliseFingerprint value = some fp) :
    ∃ data, fromHex value = some data ∧ data.length = 20 ∧ hexUpper data = fp := by
  have h40 : fingerprintLength = 40 := rfl
  unfold normaliseFingerprint at h
  dsimp only at h
  split_ifs at h with hv
  cases h
  obtain ⟨data, hdata, hl, hhex⟩ := fromHex_spec (upperHex_of_length (hv.1.trans hlen.symm) hv.2) (by
    rw [hlen]
    decide)
  exact ⟨data, hdata, by omega, hhex⟩

/-- A digit tells its value. -/
theorem digit_inj : ∀ i < 16, ∀ j < 16, fingerprintChars.getD i 0 = fingerprintChars.getD j 0 → i = j := by
  decide

theorem hexUpper_inj : ∀ {a b : Bytes}, hexUpper a = hexUpper b → a = b
  | [], [], _ => rfl
  | [], _ :: _, h => by simp [hexUpper] at h
  | _ :: _, [], h => by simp [hexUpper] at h
  | x :: a, y :: b, h => by
    simp only [hexUpper, List.flatMap_cons, List.cons_append, List.nil_append, List.cons.injEq] at h
    obtain ⟨hhigh, hlow, hrest⟩ := h
    have h1 := digit_inj _ (by have := x.toNat_lt; omega) _ (by have := y.toNat_lt; omega) hhigh
    have h2 := digit_inj _ (by omega) _ (by omega) hlow
    rw [hexUpper_inj (a := a) (b := b) hrest, UInt8.toNat.inj (show x.toNat = y.toNat by omega)]

/-! ### Cards -/

/-- `_MANUFACTURERS` -/
def manufacturers : List (Str × Str) :=
  [(lit "0001", lit "PPC Card Systems"), (lit "0002", lit "Prism"), (lit "0003", lit "OpenFortress"),
    (lit "0004", lit "Wewid"), (lit "0005", lit "ZeitControl"), (lit "0006", lit "Yubico"),
    (lit "0007", lit "OpenKMS"), (lit "0008", lit "LogoEmail"), (lit "0009", lit "Fidesmo"),
    (lit "000A", lit "VivoKey"), (lit "000B", lit "Trustica"), (lit "000D", lit "Dangerous Things"),
    (lit "000E", lit "Excelsecu"), (lit "000F", lit "Nitrokey"), (lit "002A", lit "Magrathea"),
    (lit "0042", lit "GnuPG e.V."), (lit "1337", lit "Warsaw Hackerspace"), (lit "2342", lit "warpzone"),
    (lit "4354", lit "Confidential Technologies"), (lit "5443", lit "TIF-IT"), (lit "63AF", lit "Trustica"),
    (lit "BA53", lit "c-base"), (lit "BD0E", lit "Paranoidlabs"), (lit "F517", lit "FSIJ"),
    (lit "F5EC", lit "F-Secure")]

structure CardIdentity where
  version : Str := []
  manufacturerCode : Str := []
  serialNumber : Str := []

/-- `CardIdentity.product_name`; the code is in upper case already. -/
def CardIdentity.productName (c : CardIdentity) : Str :=
  if c.manufacturerCode = lit "0006" then lit "YubiKey"
  else (manufacturers.lookup c.manufacturerCode).getD (lit "Smartcard")

section Label

/- `str.upper` -/
variable (upper : Str → Str)

/-- `parse_aid`. `int` refuses the digits of a version that are letters. -/
def parseAid (serial : Str) : Except Exc CardIdentity :=
  let raw := upper (strip serial)
  if raw = [] then .ok {}
  else if raw.length = 32 ∧ (lit "D276000124").isPrefixOf raw = true ∧ raw.all (· ∈ fingerprintChars) = true then
    let major := (raw.drop 12).take 2
    let minor := (raw.drop 14).take 2
    if (major ++ minor).all Json.isDigit = true then
      .ok
        { version := Json.decimal (Json.ofDecimal major) ++ lit "." ++ Json.decimal (Json.ofDecimal minor)
          manufacturerCode := (raw.drop 16).take 4
          serialNumber := (raw.drop 20).take 8 }
    else .error { cls := .valueError, message := lit "invalid literal for int() with base 10" }
  else .ok { serialNumber := raw }

/-- `card_label` -/
def cardLabel (serial : Str) : Except Exc Str := do
  let identity ← parseAid upper serial
  if identity.serialNumber = [] then return lit "Smartcard"
  return identity.productName ++ lit " " ++ identity.serialNumber

/-! ### Keys -/

inductive KeyAlgorithm
  | rsa
  | dsa
  | ecdsa
  | eddsa
  | ecdh
  | unknown
  deriving DecidableEq

def KeyAlgorithm.value : KeyAlgorithm → Str
  | .rsa => lit "RSA"
  | .dsa => lit "DSA"
  | .ecdsa => lit "ECDSA"
  | .eddsa => lit "EDDSA"
  | .ecdh => lit "ECDH"
  | .unknown => lit "UNKNOWN"

inductive TrustLevel
  | unknown
  | never
  | marginal
  | full
  | ultimate
  deriving DecidableEq

/-- Where the private half of a key is. -/
inductive KeyStorage
  | publicOnly
  | local
  | smartcard
  | offline
  deriving DecidableEq

structure KeyInfo (Time : Type) where
  fingerprint : Str
  userIds : List Str
  createdAt : Time
  expiresAt : Option Time := none
  isRevoked : Bool := false
  hasPrivateKey : Bool := false
  isStub : Bool := false
  cardSerial : Str := []
  subkeyFingerprints : List Str := []
  trust : TrustLevel := .unknown

variable {Time : Type}

/-- `storage` -/
def KeyInfo.storage (key : KeyInfo Time) : KeyStorage :=
  if key.cardSerial ≠ [] then .smartcard
  else if key.isStub then .offline
  else if key.hasPrivateKey then .local
  else .publicOnly

/-- `all_fingerprints` -/
def KeyInfo.allFingerprints (key : KeyInfo Time) : List Str := key.fingerprint :: key.subkeyFingerprints

/-- `primary_user_id` -/
def KeyInfo.primaryUserId (key : KeyInfo Time) : Str :=
  key.userIds.head?.getD (key.fingerprint.drop (key.fingerprint.length - 16))

/-- `storage_label`, which works out the label of a card for every key. -/
def KeyInfo.storageLabel (key : KeyInfo Time) : Except Exc Str := do
  let label ← cardLabel upper key.cardSerial
  if key.cardSerial ≠ [] then return label
  if key.isStub then return lit "Secret key elsewhere"
  if key.hasPrivateKey then return lit "Local"
  return lit "Public only"

end Label

end GpgMeister
