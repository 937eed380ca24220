/-
# OpenPGP cards

The inserted card as `gpg --card-status --with-colons` describes it, after
`models/smartcard.py`: the slots, `CardInfo`, and `parse_card_status`. Numbers
are read as `int` and `str.isdigit` read them, which do not agree on every
text; `parse_card_status` raises where they do not.
-/
import GpgMeister.Errors
import GpgMeister.Models.KeyInfo

namespace GpgMeister

/-! ### Numbers -/

/-- What Unicode says about a character: whether `str.isdigit` takes it for a
digit, and the value of a decimal digit, which alone `int` reads. -/
structure DigitTable where
  isDigit : CodePoint → Bool
  decimal : CodePoint → Option ℕ

namespace DigitTable

variable (table : DigitTable)

/-- `s.isdigit()` -/
def isdigit (s : Str) : Bool := s ≠ [] && s.all table.isDigit

/-- The digits of a literal; one underscore may stand between two of them. -/
def digitRun : Str → Option (List ℕ)
  | [] => none
  | c :: s =>
    match table.decimal c with
    | none => none
    | some v =>
      match s with
      | [] => some [v]
      | c' :: s' => (if c' = codePoint '_' then digitRun s' else digitRun (c' :: s')).map (v :: ·)

/-- `int(s)`: white space around the literal, a sign, and at most
`sys.get_int_max_str_digits()` digits. -/
def int (s : Str) : Except Exc ℤ :=
  let literal := strip s
  let negative := literal.head? = some (codePoint '-')
  let body := if negative ∨ literal.head? = some (codePoint '+') then literal.tail else literal
  match table.digitRun body with
  | some ds =>
    if ds.length ≤ Json.maxStrDigits then
      .ok (if negative then - (Nat.ofDigits 10 ds.reverse : ℤ) else Nat.ofDigits 10 ds.reverse)
    else .error { cls := .valueError, message := lit "Exceeds the limit (4300 digits) for integer string conversion" }
  | none => .error { cls := .valueError, message := lit "invalid literal for int() with base 10" }

end DigitTable

/-! ### Slots -/

inductive CardSlot
  | signature
  | encryption
  | authentication
  deriving DecidableEq

namespace CardSlot

def value : CardSlot → Str
  | signature => lit "1"
  | encryption => lit "2"
  | authentication => lit "3"

/-- `slot_name` -/
def slotName : CardSlot → Str
  | signature => lit "Signature key"
  | encryption => lit "Encryption key"
  | authentication => lit "Authentication key"

/-- The members, in order. -/
def all : List CardSlot := [signature, encryption, authentication]

theorem mem_all (slot : CardSlot) : slot ∈ all := by
  cases slot <;> decide

end CardSlot

/-- Which PIN is changed. -/
inductive CardPin
  | user
  | admin
  deriving DecidableEq

def CardPin.value : CardPin → Str
  | user => lit "user"
  | admin => lit "admin"

/-! ### The card -/

/-- The fingerprints in the slots; an unused slot has an empty one. -/
structure SlotFingerprints where
  signature : Str := []
  encryption : Str := []
  authentication : Str := []
  deriving DecidableEq

structure CardInfo where
  serial : Str := []
  aid : Str := []
  reader : Str := []
  appType : Str := []
  version : Str := []
  manufacturerCode : Str := []
  manufacturer : Str := []
  cardholder : Str := []
  url : Str := []
  login : Str := []
  /-- User PIN, reset code, admin PIN; -1 where it is not reported. -/
  pinRetries : ℤ × ℤ × ℤ := (-1, -1, -1)
  slotFingerprints : SlotFingerprints := {}
  keyAttributes : List Str := []
  deriving DecidableEq

namespace CardInfo

/-- `slot_fingerprint` -/
def slotFingerprint (card : CardInfo) : CardSlot → Str
  | .signature => card.slotFingerprints.signature
  | .encryption => card.slotFingerprints.encryption
  | .authentication => card.slotFingerprints.authentication

/-- `occupied_slots` -/
def occupiedSlots (card : CardInfo) : List CardSlot := CardSlot.all.filter fun slot => card.slotFingerprint slot ≠ []

theorem mem_occupiedSlots {card : CardInfo} {slot : CardSlot} :
    slot ∈ card.occupiedSlots ↔ card.slotFingerprint slot ≠ [] := by
  simp [occupiedSlots, CardSlot.mem_all]

theorem occupiedSlots_eq_nil {card : CardInfo} : card.occupiedSlots = [] ↔ ∀ slot, card.slotFingerprint slot = [] := by
  simp [occupiedSlots, List.filter_eq_nil_iff, CardSlot.mem_all]

end CardInfo

/-! ### The listing -/

def colon : CodePoint := 0x3A
def percent : CodePoint := 0x25

def isAscii (c : CodePoint) : Bool := c.val < 0x80

/-- `_unquote_impl` of `urllib.parse` -/
def unquoteAscii : Str → Bytes
  | [] => []
  | c :: s =>
    match s with
    | a :: b :: s' =>
      match Json.hexVal a, Json.hexVal b with
      | some high, some low =>
        if c = percent then .ofNat (16 * high + low) :: unquoteAscii s' else .ofNat c.val :: unquoteAscii (a :: b :: s')
      | _, _ => .ofNat c.val :: unquoteAscii (a :: b :: s')
    | s => .ofNat c.val :: unquoteAscii s

/-- `urllib.parse.unquote`, which decodes each run of ASCII on its own. -/
def unquote (s : Str) : Str :=
  if percent ∈ s then
    (s.splitBy fun a b => isAscii a = isAscii b).flatMap fun run =>
      if run.all isAscii then Utf8.decodeReplace (unquoteAscii run) else run
  else s

/-- `_split_record` -/
def splitRecord (lower : Str → Str) (line : Str) : Str × List Str :=
  let fields := line.splitOn colon
  (lower (strip (fields.headD [])), fields.tail.map strip)

/-- `_single_value` -/
def singleValue (line : Str) : Str :=
  let rest := strip ((line.dropWhile (· ≠ colon)).tail)
  unquote (strip (if rest.getLast? = some colon then rest.dropLast else rest))

/-- `_field` -/
def field (values : List Str) (index : ℕ) : Str := values.getD index []

section Listing

variable (table : DigitTable) (lower upper : Str → Str)

/-- One of `_retry_counters` -/
def retryCounter (raw : Str) : Except Exc ℤ :=
  if table.isdigit (raw.dropWhile (· = codePoint '-')) then table.int raw else .ok (-1)

/-- `_retry_counters` -/
def retryCounters (values : List Str) : Except Exc (ℤ × ℤ × ℤ) := do
  let user ← retryCounter table (field values 0)
  let reset ← retryCounter table (field values 1)
  let admin ← retryCounter table (field values 2)
  return (user, reset, admin)

/-- `_normalise_fpr` -/
def normaliseFpr (value : Str) : Str :=
  let cleaned := upper (value.filter (· ≠ 0x20))
  if cleaned.all (· ∈ fingerprintChars) then cleaned else []

/-- `_card_version` -/
def cardVersion (raw : Str) : Except Exc Str :=
  if raw.length = 4 ∧ table.isdigit raw = true then do
    let major ← table.int (raw.take 2)
    let minor ← table.int ((raw.drop 2).take 2)
    return Json.intText major ++ lit "." ++ Json.intText minor
  else .ok raw

/-- The part of a `Reader` record that is labelled `AID`. -/
def labelledAid : List Str → Option (Str × Str)
  | [] => none
  | value :: values =>
    if upper value = lit "AID" then some (upper (field values 0), field values 1) else labelledAid values

/-- `_reader_aid` -/
def readerAid (values : List Str) : Str × Str :=
  match labelledAid upper values with
  | some found => found
  | none =>
    let candidate := upper (field values 1)
    if candidate.length = 32 ∧ candidate.all (· ∈ fingerprintChars) = true then (candidate, []) else ([], [])

/-- `_cardholder` -/
def cardholder (surname given : Str) : Str :=
  let shown := ([given, surname].filter (· ≠ [])).map fun part =>
    strip (part.map fun c => if c = codePoint '<' then 0x20 else c)
  strip (List.intercalate [0x20] shown)

/-- `a or b` -/
def orElse (a b : Str) : Str := if a = [] then b else a

/-- What one line of the listing adds. -/
def scanCardLine (card : CardInfo) (line : Str) : Except Exc CardInfo :=
  if colon ∉ line then .ok card
  else
    let (record, values) := splitRecord lower line
    if record = lit "reader" then
      let (readerAid, readerApp) := readerAid upper values
      .ok
        { card with
          reader := field values 0
          aid := orElse card.aid readerAid
          appType := orElse card.appType readerApp }
    else if record = lit "serial" then .ok { card with serial := upper (field values 0) }
    else if record = lit "aid" then .ok { card with aid := upper (field values 0) }
    else if record = lit "apptype" then .ok { card with appType := field values 0 }
    else if record = lit "version" then do
      let version ← cardVersion table (field values 0)
      return { card with version }
    else if record = lit "vendor" then
      .ok { card with manufacturerCode := upper (field values 0), manufacturer := field values 1 }
    else if record = lit "name" then .ok { card with cardholder := cardholder (field values 0) (field values 1) }
    else if record = lit "url" then .ok { card with url := singleValue line }
    else if record = lit "login" then .ok { card with login := field values 0 }
    else if record = lit "pinretry" then do
      let pinRetries ← retryCounters table values
      return { card with pinRetries }
    else if record = lit "fpr" then
      .ok
        { card with
          slotFingerprints :=
            { signature := normaliseFpr upper (field values 0)
              encryption := normaliseFpr upper (field values 1)
              authentication := normaliseFpr upper (field values 2) } }
    else if record = lit "keyattr" then
      .ok { card with keyAttributes := card.keyAttributes ++ [List.intercalate [colon] (values.filter (· ≠ []))] }
    else .ok card

/-- `parse_card_status`; `none` if the listing names no reader and no card. -/
def parseCardStatus (output : Str) : Except Exc (Option CardInfo) := do
  let card ← (splitlines output).foldlM (scanCardLine table lower upper) {}
  return if card.serial = [] ∧ card.aid = [] ∧ card.reader = [] then none else some card

end Listing

end GpgMeister
