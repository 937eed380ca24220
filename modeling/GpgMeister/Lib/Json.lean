/-
# JSON

Values, the canonical text of one (sorted keys, no white space, everything but
the characters that must be escaped written as it is), and a decoder that
reads text one character at a time with a stack of the containers it is in.
The decoder has the three ways to fail of the modelled language: a syntax
error, an integer of too many digits, and nesting beyond a limit.

What decoding makes of an encoded value is in `GpgMeister.Lib.JsonRoundTrip`.
-/
import GpgMeister.Lib.Utf8
import Mathlib.Data.Nat.Digits.Defs
import Mathlib.Data.List.Sort

namespace GpgMeister

/-- The code point of an ASCII character. -/
abbrev ch (c : Char) : CodePoint := codePoint c

namespace Json

def isDigit (c : CodePoint) : Bool := 0x30 ≤ c.val && c.val ≤ 0x39

/-! ### Numbers -/

/-- Where the decoder stands in a number. -/
inductive NumState
  | minus
  | zero
  | digits
  /-- After the point. -/
  | dot
  | frac
  /-- After the `e`; `float` if there was a point. -/
  | exp (float : Bool)
  | expSign (float : Bool)
  | expDigits
  deriving DecidableEq

/-- The state after one more character, if it continues the number. -/
def numStep (s : NumState) (c : CodePoint) : Option NumState :=
  match s with
  | .minus => if c = ch '0' then some .zero else if isDigit c then some .digits else none
  | .zero => if c = ch '.' then some .dot else if c = ch 'e' ∨ c = ch 'E' then some (.exp false) else none
  | .digits =>
    if isDigit c then some .digits
    else if c = ch '.' then some .dot else if c = ch 'e' ∨ c = ch 'E' then some (.exp false) else none
  | .dot => if isDigit c then some .frac else none
  | .frac =>
    if isDigit c then some .frac else if c = ch 'e' ∨ c = ch 'E' then some (.exp true) else none
  | .exp float =>
    if c = ch '+' ∨ c = ch '-' then some (.expSign float) else if isDigit c then some .expDigits else none
  | .expSign _ => if isDigit c then some .expDigits else none
  | .expDigits => if isDigit c then some .expDigits else none

/-- The state a number begins in. -/
def numStart (c : CodePoint) : Option NumState :=
  if c = ch '-' then some .minus else numStep .minus c

def numRun : Option NumState → Str → Option NumState
  | s, [] => s
  | s, c :: r => numRun (s.bind (numStep · c)) r

/-- The text of a float: a number with a fraction or an exponent. -/
structure FloatText where
  text : Str
  ok : ∃ c r, text = c :: r ∧ (numRun (numStart c) r = some .frac ∨ numRun (numStart c) r = some .expDigits)

/-- A float, by its text. -/
inductive Float
  | nan
  | infinity
  | negInfinity
  | finite (x : FloatText)

end Json

/-- A JSON value, with a `dict` as the list of its items in order. -/
inductive Json
  | null
  | bool (b : Bool)
  | int (i : ℤ)
  | float (x : Json.Float)
  | str (s : Str)
  | arr (xs : List Json)
  | obj (members : List (Str × Json))

namespace Json

/-- How `json.loads` fails. -/
inductive Error
  /-- `JSONDecodeError` -/
  | decode
  /-- `ValueError`: more digits than an integer literal may have. -/
  | digits
  /-- `RecursionError` -/
  | recursion
  deriving DecidableEq

/-- `sys.get_int_max_str_digits()` -/
def maxStrDigits : ℕ := 4300

/-! ### Encoding -/

/-- The order of the keys: by code points. -/
def keyLe : Str → Str → Bool
  | [], _ => true
  | _ :: _, [] => false
  | a :: s, b :: t => a < b || (a = b && keyLe s t)

def digitChar (d : ℕ) : CodePoint := Fin.ofNat _ (0x30 + d)

def decimal (n : ℕ) : Str := if n = 0 then lit "0" else (Nat.digits 10 n).reverse.map digitChar

def intText : ℤ → Str
  | .ofNat n => decimal n
  | .negSucc n => ch '-' :: decimal (n + 1)

def floatText : Float → Str
  | .nan => lit "NaN"
  | .infinity => lit "Infinity"
  | .negInfinity => lit "-Infinity"
  | .finite x => x.text

def hexDigit (d : ℕ) : CodePoint := if d < 10 then Fin.ofNat _ (0x30 + d) else Fin.ofNat _ (0x57 + d)

theorem hexDigit_spec {c : CodePoint} (h : c ∈ (List.range 16).map hexDigit) :
    isSpace c = false ∧ c.val < 0x80 := by
  have hall : ((List.range 16).map hexDigit).all (fun c => isSpace c = false ∧ c.val < 0x80) = true := by
    decide
  simpa using List.all_eq_true.mp hall c h

/-- The escapes of two characters. -/
def shortEscapes : List (CodePoint × CodePoint) :=
  [(ch '"', ch '"'), (ch '\\', ch '\\'), (0x0A, ch 'n'), (0x0D, ch 'r'), (0x09, ch 't'), (0x0C, ch 'f'),
    (0x08, ch 'b')]

def escapeChar (c : CodePoint) : Str :=
  match shortEscapes.lookup c with
  | some e => [ch '\\', e]
  | none =>
    if c.val < 0x20 then lit "\\u00" ++ [hexDigit (c.val / 16), hexDigit (c.val % 16)] else [c]

def strText (s : Str) : Str := ch '"' :: s.flatMap escapeChar ++ [ch '"']

/-- The items of a container, with commas between them. -/
def join : List Str → Str
  | [] => []
  | [x] => x
  | x :: y :: xs => x ++ ch ',' :: join (y :: xs)

def memberText (m : Str × Str) : Str := strText m.1 ++ ch ':' :: m.2

def sortKeys {α : Type} (ms : List (Str × α)) : List (Str × α) :=
  ms.insertionSort fun a b => keyLe a.1 b.1 = true

mutual

/-- The text of a value. -/
def encode : Json → Str
  | .null => lit "null"
  | .bool true => lit "true"
  | .bool false => lit "false"
  | .int i => intText i
  | .float x => floatText x
  | .str s => strText s
  | .arr xs => ch '[' :: join (encodeList xs) ++ [ch ']']
  | .obj ms => ch '\x7b' :: join ((sortKeys (encodeMembers ms)).map memberText) ++ [ch '\x7d']

def encodeList : List Json → List Str
  | [] => []
  | x :: xs => encode x :: encodeList xs

def encodeMembers : List (Str × Json) → List (Str × Str)
  | [] => []
  | (k, x) :: ms => (k, encode x) :: encodeMembers ms

end

mutual

/-- The value with the keys of every `dict` in order. -/
def canon : Json → Json
  | .arr xs => .arr (canonList xs)
  | .obj ms => .obj (sortKeys (canonMembers ms))
  | v => v

def canonList : List Json → List Json
  | [] => []
  | x :: xs => canon x :: canonList xs

def canonMembers : List (Str × Json) → List (Str × Json)
  | [] => []
  | (k, x) :: ms => (k, canon x) :: canonMembers ms

end

mutual

/-- How deep containers are nested. -/
def depth : Json → ℕ
  | .arr xs => depthList xs + 1
  | .obj ms => depthMembers ms + 1
  | _ => 0

def depthList : List Json → ℕ
  | [] => 0
  | x :: xs => max (depth x) (depthList xs)

def depthMembers : List (Str × Json) → ℕ
  | [] => 0
  | (_, x) :: ms => max (depth x) (depthMembers ms)

end

mutual

/-- Every integer has few enough digits to be written. -/
def shortInts : Json → Bool
  | .int i => (Nat.digits 10 i.natAbs).length ≤ maxStrDigits
  | .arr xs => shortIntsList xs
  | .obj ms => shortIntsMembers ms
  | _ => true

def shortIntsList : List Json → Bool
  | [] => true
  | x :: xs => shortInts x && shortIntsList xs

def shortIntsMembers : List (Str × Json) → Bool
  | [] => true
  | (_, x) :: ms => shortInts x && shortIntsMembers ms

end

/-- `json.dumps(v, sort_keys=True, separators=(",", ":"), ensure_ascii=False)` -/
def dumps (limit : ℕ) (v : Json) : Except Error Str :=
  if limit < depth v then .error .recursion
  else if shortInts v then .ok (encode v)
  else .error .digits

/-! ### Decoding -/

/-- A container that is open while a value in it is read. -/
inductive Frame
  /-- The items so far, the last first. -/
  | arr (done : List Json)
  /-- The items so far and the key of the value. -/
  | obj (members : List (Str × Json)) (key : Str)

/-- Where the decoder stands in a string. -/
inductive Escape
  | plain
  /-- After the backslash. -/
  | backslash
  /-- After `\u` and some hexadecimal digits of this value. -/
  | hex (more value : ℕ)

/-- What a string is for. -/
inductive StrFor
  | value
  | key (members : List (Str × Json))

/-- What the decoder expects. -/
inductive Mode
  | value
  /-- A value or the end of the list. -/
  | firstItem
  /-- A key or the end of the `dict`. -/
  | firstKey
  | key (members : List (Str × Json))
  | colon (members : List (Str × Json)) (key : Str)
  /-- The rest of a string; `done` is what was read, the last first, and
  `high` tells that its last character is a high surrogate from an escape. -/
  | string (use : StrFor) (done : Str) (high : Bool) (esc : Escape)
  | number (s : NumState) (done : Str)
  | literal (rest : Str) (v : Json)
  /-- A value is over. -/
  | after (v : Json)

structure Config where
  stack : List Frame
  mode : Mode

def isWs (c : CodePoint) : Bool := c.val = 0x20 || c.val = 0x09 || c.val = 0x0A || c.val = 0x0D

/-- `d[k] = v` -/
def insert (ms : List (Str × Json)) (k : Str) (v : Json) : List (Str × Json) :=
  match ms with
  | [] => [(k, v)]
  | m :: ms => if m.1 = k then (k, v) :: ms else m :: insert ms k v

def digitVal (c : CodePoint) : ℕ := c.val - 0x30

def ofDecimal (ds : Str) : ℕ := Nat.ofDigits 10 (ds.reverse.map digitVal)

/-- The integer of a text that the decoder read as one. -/
def ofIntText (t : Str) : Except Error Json :=
  match t with
  | [] => .error .decode
  | c :: r =>
    if c = ch '-' then if r.length ≤ maxStrDigits then .ok (.int (- (ofDecimal r : ℤ))) else .error .digits
    else if (c :: r).length ≤ maxStrDigits then .ok (.int (ofDecimal (c :: r))) else .error .digits

/-- The float of a text that the decoder read as one. -/
def ofFloatText (t : Str) : Except Error Json :=
  match t with
  | [] => .error .decode
  | c :: r =>
    if h : numRun (numStart c) r = some .frac ∨ numRun (numStart c) r = some .expDigits then
      .ok (.float (.finite ⟨c :: r, c, r, rfl, h⟩))
    else .error .decode

/-- The number that ends here. A number that ends in the middle of a fraction
or an exponent is one that ended before it, which is then a syntax error. -/
def finishNumber (s : NumState) (done : Str) : Except Error Json :=
  match s with
  | .minus => .error .decode
  | .zero | .digits => ofIntText done.reverse
  | .frac | .expDigits => ofFloatText done.reverse
  | .dot | .exp false | .expSign false => do
    let _ ← ofIntText (done.reverse.takeWhile fun c => isDigit c || c = ch '-')
    .error .decode
  | .exp true | .expSign true => .error .decode

/-- The first character of a value. -/
def valueStart (limit : ℕ) (stack : List Frame) (c : CodePoint) : Except Error Config :=
  if c = ch '"' then .ok ⟨stack, .string .value [] false .plain⟩
  else if c = ch '\x7b' then if stack.length < limit then .ok ⟨stack, .firstKey⟩ else .error .recursion
  else if c = ch '[' then
    if stack.length < limit then .ok ⟨.arr [] :: stack, .firstItem⟩ else .error .recursion
  else if c = ch 'n' then .ok ⟨stack, .literal (lit "ull") .null⟩
  else if c = ch 't' then .ok ⟨stack, .literal (lit "rue") (.bool true)⟩
  else if c = ch 'f' then .ok ⟨stack, .literal (lit "alse") (.bool false)⟩
  else if c = ch 'N' then .ok ⟨stack, .literal (lit "aN") (.float .nan)⟩
  else if c = ch 'I' then .ok ⟨stack, .literal (lit "nfinity") (.float .infinity)⟩
  else
    match numStart c with
    | some s => .ok ⟨stack, .number s [c]⟩
    | none => .error .decode

/-- A character after a value. -/
def afterStep (stack : List Frame) (v : Json) (c : CodePoint) : Except Error Config :=
  if isWs c then .ok ⟨stack, .after v⟩
  else
    match stack with
    | [] => .error .decode
    | .arr done :: stack =>
      if c = ch ',' then .ok ⟨.arr (v :: done) :: stack, .value⟩
      else if c = ch ']' then .ok ⟨stack, .after (.arr (v :: done).reverse)⟩
      else .error .decode
    | .obj ms k :: stack =>
      if c = ch ',' then .ok ⟨stack, .key (insert ms k v)⟩
      else if c = ch '\x7d' then .ok ⟨stack, .after (.obj (insert ms k v))⟩
      else .error .decode

def hexVal (c : CodePoint) : Option ℕ :=
  if isDigit c then some (c.val - 0x30)
  else if 0x61 ≤ c.val ∧ c.val ≤ 0x66 then some (c.val - 0x57)
  else if 0x41 ≤ c.val ∧ c.val ≤ 0x46 then some (c.val - 0x37)
  else none

/-- The character an escape of two stands for. -/
def unescape (c : CodePoint) : Option CodePoint :=
  if c = ch '/' then some (ch '/') else (shortEscapes.map Prod.swap).lookup c

/-- The code point of a `\u` escape goes to the end of the string, into one
with a high surrogate from an escape right before it if it is a low one. -/
def pushEscape (use : StrFor) (done : Str) (high : Bool) (n : ℕ) : Mode :=
  match done with
  | h :: done' =>
    if high ∧ 0xDC00 ≤ n ∧ n ≤ 0xDFFF then
      .string use (Fin.ofNat _ (0x10000 + (h.val - 0xD800) * 0x400 + (n - 0xDC00)) :: done') false .plain
    else .string use (Fin.ofNat _ n :: done) (0xD800 ≤ n && n ≤ 0xDBFF) .plain
  | [] => .string use (Fin.ofNat _ n :: done) (0xD800 ≤ n && n ≤ 0xDBFF) .plain

/-- A character of a string. -/
def stringStep (use : StrFor) (done : Str) (high : Bool) (c : CodePoint) : Escape → Except Error Mode
  | .plain =>
    if c = ch '"' then
      match use with
      | .value => .ok (.after (.str done.reverse))
      | .key ms => .ok (.colon ms done.reverse)
    else if c = ch '\\' then .ok (.string use done high .backslash)
    else if c.val < 0x20 then .error .decode
    else .ok (.string use (c :: done) false .plain)
  | .backslash =>
    if c = ch 'u' then .ok (.string use done high (.hex 3 0))
    else
      match unescape c with
      | some e => .ok (.string use (e :: done) false .plain)
      | none => .error .decode
  | .hex more n =>
    match hexVal c with
    | none => .error .decode
    | some d =>
      match more with
      | 0 => .ok (pushEscape use done high (n * 16 + d))
      | m + 1 => .ok (.string use done high (.hex m (n * 16 + d)))

/-- One character. -/
def step (limit : ℕ) (s : Config) (c : CodePoint) : Except Error Config :=
  match s.mode with
  | .value => if isWs c then .ok s else valueStart limit s.stack c
  | .firstItem =>
    if isWs c then .ok s
    else if c = ch ']' then
      match s.stack with
      | _ :: stack => .ok ⟨stack, .after (.arr [])⟩
      | [] => .error .decode
    else valueStart limit s.stack c
  | .firstKey =>
    if isWs c then .ok s
    else if c = ch '\x7d' then .ok ⟨s.stack, .after (.obj [])⟩
    else if c = ch '"' then .ok ⟨s.stack, .string (.key []) [] false .plain⟩
    else .error .decode
  | .key ms =>
    if isWs c then .ok s
    else if c = ch '"' then .ok ⟨s.stack, .string (.key ms) [] false .plain⟩
    else .error .decode
  | .colon ms k =>
    if isWs c then .ok s
    else if c = ch ':' then .ok ⟨.obj ms k :: s.stack, .value⟩
    else .error .decode
  | .string use done high esc => do
    let mode ← stringStep use done high c esc
    .ok ⟨s.stack, mode⟩
  | .number st done =>
    if st = .minus ∧ c = ch 'I' then .ok ⟨s.stack, .literal (lit "nfinity") (.float .negInfinity)⟩
    else
      match numStep st c with
      | some st' => .ok ⟨s.stack, .number st' (c :: done)⟩
      | none => do
        let v ← finishNumber st done
        afterStep s.stack v c
  | .literal rest v =>
    match rest with
    | [] => .error .decode
    | d :: rest =>
      if c = d then .ok ⟨s.stack, if rest = [] then .after v else .literal rest v⟩ else .error .decode
  | .after v => afterStep s.stack v c

/-- The end of the text. -/
def finish (s : Config) : Except Error Json :=
  match s.mode with
  | .after v => if s.stack.isEmpty then .ok v else .error .decode
  | .number st done => do
    let v ← finishNumber st done
    if s.stack.isEmpty then .ok v else .error .decode
  | _ => .error .decode

def run (limit : ℕ) : Config → Str → Except Error Json
  | s, [] => finish s
  | s, c :: r => (step limit s c).bind fun s' => run limit s' r

/-- A byte order mark. -/
def bom : CodePoint := 0xFEFF

/-- `json.loads(text)` -/
def loads (limit : ℕ) (text : Str) : Except Error Json :=
  if text.head? = some bom then .error .decode else run limit ⟨[], .value⟩ text

/-! ### Decoding octets

`json.loads` of octets guesses their encoding from the first four, and lets
surrogates through whatever it is. -/

/-- Groups of `n + 1` octets as numbers, the first octet the highest with
`be`; `none` if the last group is short. -/
def units (be : Bool) (n : ℕ) : ℕ → Bytes → Option (List ℕ)
  | 0, [] => some []
  | 0, _ => none
  | _ + 1, [] => some []
  | fuel + 1, b :: r =>
    let group := (b :: r).take (n + 1)
    if group.length < n + 1 then none
    else
      let digits := (if be then group.reverse else group).map UInt8.toNat
      (units be n fuel (r.drop n)).map (Nat.ofDigits 256 digits :: ·)

/-- UTF-16 code units as code points. -/
def joinSurrogates : List ℕ → Str
  | [] => []
  | [u] => [Fin.ofNat _ u]
  | h :: l :: r =>
    if 0xD800 ≤ h ∧ h ≤ 0xDBFF ∧ 0xDC00 ≤ l ∧ l ≤ 0xDFFF then
      Fin.ofNat _ (0x10000 + (h - 0xD800) * 0x400 + (l - 0xDC00)) :: joinSurrogates r
    else Fin.ofNat _ h :: joinSurrogates (l :: r)

def decodeUtf16 (be : Bool) (b : Bytes) : Option Str := (units be 1 b.length b).map joinSurrogates

def decodeUtf32 (be : Bool) (b : Bytes) : Option Str :=
  (units be 3 b.length b).bind fun us => if us.all (· < 0x110000) then some (us.map (Fin.ofNat _)) else none

/-- `b.decode(detect_encoding(b), "surrogatepass")` -/
def decodeDetected (b : Bytes) : Option Str :=
  if [0x00, 0x00, 0xFE, 0xFF] <+: b then decodeUtf32 true (b.drop 4)
  else if [0xFF, 0xFE, 0x00, 0x00] <+: b then decodeUtf32 false (b.drop 4)
  else if [0xFE, 0xFF] <+: b then decodeUtf16 true (b.drop 2)
  else if [0xFF, 0xFE] <+: b then decodeUtf16 false (b.drop 2)
  else if [0xEF, 0xBB, 0xBF] <+: b then Utf8.decodeSurrogatePass (b.drop 3)
  else
    match b with
    | b0 :: b1 :: b2 :: b3 :: _ =>
      if b0 = 0 then if b1 ≠ 0 then decodeUtf16 true b else decodeUtf32 true b
      else if b1 = 0 then if b2 ≠ 0 ∨ b3 ≠ 0 then decodeUtf16 false b else decodeUtf32 false b
      else Utf8.decodeSurrogatePass b
    | [b0, b1] =>
      if b0 = 0 then decodeUtf16 true b
      else if b1 = 0 then decodeUtf16 false b
      else Utf8.decodeSurrogatePass b
    | _ => Utf8.decodeSurrogatePass b

/-- `json.loads(data)`; `none` is `UnicodeDecodeError`. -/
def loadsBytes (limit : ℕ) (data : Bytes) : Option (Except Error Json) :=
  (decodeDetected data).map (loads limit)

end Json
end GpgMeister
