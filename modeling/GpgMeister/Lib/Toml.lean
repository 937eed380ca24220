/-
# TOML

A reader of TOML 1.0 documents, statement by statement, as `tomllib` is
written: blank lines, comments, tables, and keys with a string on one line, a
decimal integer or a boolean. Where a statement of another form begins (a
quoted or dotted key, an array of tables, a value of another type), `rest` is
what reads on.

A document whose lines are written one after the other is read line by line
(`statements_lines`): what a line does to the tables that were read before it
is `Document.line`.
-/
import GpgMeister.Lib.Dict

namespace GpgMeister

/-- A value of a TOML document. -/
inductive Toml
  | str (s : Str)
  | int (i : ℤ)
  | bool (b : Bool)
  | table (items : List (Str × Toml))
  /-- A float, a date, a time or an array. -/
  | other (text : Str)

namespace Toml

open Json (isDigit hexVal ofDecimal decimal intText maxStrDigits)

inductive Error
  /-- `TOMLDecodeError` -/
  | decode
  /-- `ValueError`: more digits than an integer may have. -/
  | digits
  deriving DecidableEq

/-- Why a statement is not read here. -/
inductive Stop
  | error (e : Error)
  | elsewhere
  deriving DecidableEq

def isWs (c : CodePoint) : Bool := c = ch ' ' || c.val = 0x09

def isBareKeyChar (c : CodePoint) : Bool :=
  isDigit c || (0x41 ≤ c.val && c.val ≤ 0x5A) || (0x61 ≤ c.val && c.val ≤ 0x7A) || c = ch '-' || c = ch '_'

/-- A control character that stands in no string on one line and in no comment. -/
def isIllegal (c : CodePoint) : Bool := (c.val < 0x20 && c.val ≠ 0x09) || c.val = 0x7F

def skipWs (src : Str) : Str := src.dropWhile isWs

/-! ### Values -/

/-- `BASIC_STR_ESCAPE_REPLACEMENTS` -/
def escapes : List (CodePoint × CodePoint) :=
  [(ch 'b', 0x08), (ch 't', 0x09), (ch 'n', 0x0A), (ch 'f', 0x0C), (ch 'r', 0x0D), (ch '"', ch '"'),
    (ch '\\', ch '\\')]

/-- The character of a `\u` escape, if it is one. -/
def scalar (n : ℕ) : Option CodePoint :=
  if h : n < 0x110000 then if n < 0xD800 ∨ 0xDFFF < n then some ⟨n, h⟩ else none else none

/-- The rest of a string on one line; `done` is what was read, the last first. -/
def basicStr : Json.Escape → (done : Str) → Str → Except Error (Str × Str)
  | _, _, [] => .error .decode
  | .plain, done, c :: src =>
    if c = ch '"' then .ok (done.reverse, src)
    else if c = ch '\\' then basicStr .backslash done src
    else if isIllegal c then .error .decode
    else basicStr .plain (c :: done) src
  | .backslash, done, c :: src =>
    if c = ch 'u' then basicStr (.hex 3 0) done src
    else if c = ch 'U' then basicStr (.hex 7 0) done src
    else
      match escapes.lookup c with
      | some e => basicStr .plain (e :: done) src
      | none => .error .decode
  | .hex more n, done, c :: src =>
    match hexVal c, more with
    | none, _ => .error .decode
    | some d, 0 =>
      match scalar (n * 16 + d) with
      | some e => basicStr .plain (e :: done) src
      | none => .error .decode
    | some d, m + 1 => basicStr (.hex m (n * 16 + d)) done src

/-- What comes after a value that ends here. -/
def endsValue (src : Str) : Bool := src.head?.all fun c => c = lineFeed || isWs c || c = ch '#'

/-- A decimal integer without a sign. -/
def natural (negative : Bool) (src : Str) : Except Stop (Toml × Str) :=
  let ds := src.takeWhile isDigit
  let src := src.dropWhile isDigit
  if ds = [] ∨ (ds.head? = some (ch '0') ∧ ds ≠ [ch '0']) ∨ endsValue src = false then .error .elsewhere
  else if maxStrDigits < ds.length then .error (.error .digits)
  else .ok (.int (if negative then - (ofDecimal ds : ℤ) else ofDecimal ds), src)

/-- `parse_value` -/
def parseValue (src : Str) : Except Stop (Toml × Str) :=
  match src with
  | [] => .error (.error .decode)
  | c :: r =>
    if c = ch '"' then
      if (lit "\"\"").isPrefixOf r then .error .elsewhere
      else
        match basicStr .plain [] r with
        | .ok (s, src) => .ok (.str s, src)
        | .error e => .error (.error e)
    else if (lit "true").isPrefixOf src then .ok (.bool true, src.drop 4)
    else if (lit "false").isPrefixOf src then .ok (.bool false, src.drop 5)
    else if c = ch '-' then natural true r
    else if c = ch '+' then natural false r
    else natural false src

/-! ### Statements -/

/-- What was read so far. -/
structure Document where
  data : List (Str × Toml) := []
  /-- The table that keys go to. -/
  header : Option Str := none
  /-- The tables that were declared. -/
  declared : List Str := []

namespace Document

/-- `nest[key] = value`, for a new key -/
def add (items : List (Str × Toml)) (key : Str) (value : Toml) : Except Error (List (Str × Toml)) :=
  if key ∈ items.map Prod.fst then .error .decode else .ok (items ++ [(key, value)])

/-- `key_value_rule`, for a key of one part -/
def put (d : Document) (key : Str) (value : Toml) : Except Error Document :=
  match d.header with
  | none => (add d.data key value).map fun data => { d with data }
  | some name =>
    match d.data.lookup name with
    | some (.table items) =>
      (add items key value).map fun items =>
        { d with data := d.data.map fun m => if m.1 = name then (name, .table items) else m }
    | _ => .error .decode

/-- `create_dict_rule`, for a key of one part -/
def declare (d : Document) (name : Str) : Except Error Document :=
  if name ∈ d.declared then .error .decode
  else
    match d.data.lookup name with
    | none => .ok { data := d.data ++ [(name, .table [])], header := some name, declared := name :: d.declared }
    | some (.table _) => .ok { d with header := some name, declared := name :: d.declared }
    | some _ => .error .decode

end Document

/-- A statement that is neither blank nor a comment. -/
def statement (d : Document) (src : Str) : Except Stop (Document × Str) :=
  match src with
  | [] => .error (.error .decode)
  | c :: r =>
    if isBareKeyChar c then
      let key := src.takeWhile isBareKeyChar
      match skipWs (src.dropWhile isBareKeyChar) with
      | [] => .error (.error .decode)
      | e :: src =>
        if e = ch '=' then do
          let (value, src) ← parseValue (skipWs src)
          let d ← (d.put key value).mapError .error
          return (d, src)
        else if e = ch '.' then .error .elsewhere
        else .error (.error .decode)
    else if c = ch '[' then
      let src := skipWs r
      let name := src.takeWhile isBareKeyChar
      if name = [] then .error .elsewhere
      else
        match skipWs (src.dropWhile isBareKeyChar) with
        | [] => .error (.error .decode)
        | e :: src =>
          if e = ch ']' then do
            let d ← (d.declare name).mapError .error
            return (d, src)
          else if e = ch '.' then .error .elsewhere
          else .error (.error .decode)
    else if c = ch '"' ∨ c = ch '\'' then .error .elsewhere
    else .error (.error .decode)

/-- `skip_comment`, up to the end of the line -/
def skipComment (src : Str) : Except Stop Str :=
  match src with
  | [] => .ok []
  | c :: r =>
    if c = ch '#' then
      if (r.takeWhile (· ≠ lineFeed)).any isIllegal then .error (.error .decode)
      else .ok (r.dropWhile (· ≠ lineFeed))
    else .ok src

/-- The statements of a document, one after the other. Each of them is at least
one character, so that `fuel` need not be more than there are. -/
def statements (rest : Document → Str → Except Error (List (Str × Toml))) :
    (fuel : ℕ) → Document → Str → Except Error (List (Str × Toml))
  | 0, _, _ => .error .decode
  | fuel + 1, d, src =>
    match skipWs src with
    | [] => .ok d.data
    | c :: r =>
      if c = lineFeed then statements rest fuel d r
      else
        let read := if c = ch '#' then .ok (d, c :: r) else statement d (c :: r)
        match read.bind fun p => (skipComment (skipWs p.2)).map fun src => (p.1, src) with
        | .error .elsewhere => rest d (c :: r)
        | .error (.error e) => .error e
        | .ok (d, []) => .ok d.data
        | .ok (d, c :: r) => if c = lineFeed then statements rest fuel d r else .error .decode

/-- `src.replace("\r\n", "\n")` -/
def replaceCrLf : Str → Str
  | c :: e :: src => if c = carriageReturn ∧ e = lineFeed then lineFeed :: replaceCrLf src else c :: replaceCrLf (e :: src)
  | src => src

/-- `tomllib.loads(text)` -/
def loads (rest : Document → Str → Except Error (List (Str × Toml))) (text : Str) :
    Except Error (List (Str × Toml)) :=
  let src := replaceCrLf text
  statements rest (src.length + 1) {} src

/-! ### Values on a line -/

/-- What the reader makes of a text before the end of its line. -/
def ReadsAs (text : Str) (value : Except Error Toml) : Prop :=
  ∀ src, parseValue (skipWs (text ++ lineFeed :: src)) =
    match value with
    | .ok v => .ok (v, lineFeed :: src)
    | .error e => .error (.error e)

theorem skipWs_cons {c : CodePoint} {src : Str} (h : isWs c = false) : skipWs (c :: src) = c :: src := by
  rw [skipWs, List.dropWhile_cons, h]
  rfl

theorem isWs_of_isDigit {c : CodePoint} (h : isDigit c = true) : isWs c = false := by
  have hne : c ≠ ch ' ' := by
    rintro rfl
    exact absurd h (by decide)
  simp only [isDigit, Bool.and_eq_true, decide_eq_true_eq] at h
  simp only [isWs, Bool.or_eq_false_iff, decide_eq_false_iff_not]
  exact ⟨hne, by omega⟩

theorem readsAs_bool (b : Bool) : ReadsAs (if b then lit "true" else lit "false") (.ok (.bool b)) := by
  intro src
  cases b <;> rfl

theorem takeWhile_append_lineFeed {p : CodePoint → Bool} (hp : p lineFeed = false) {t : Str}
    (ht : ∀ c ∈ t, p c = true) (src : Str) : (t ++ lineFeed :: src).takeWhile p = t ∧
      (t ++ lineFeed :: src).dropWhile p = lineFeed :: src := by
  rw [List.takeWhile_append_of_pos ht, List.dropWhile_append_of_pos ht, List.takeWhile_cons, List.dropWhile_cons, hp]
  simp

theorem decimal_ne_nil (n : ℕ) : decimal n ≠ [] := by
  rcases Json.decimal_cases n with ⟨-, h⟩ | ⟨d, ds, h, -⟩ <;> rw [h] <;> simp [lit]

theorem isDigit_of_mem_decimal {n : ℕ} {c : CodePoint} (h : c ∈ decimal n) : isDigit c = true := by
  rcases Json.decimal_cases n with ⟨-, h0⟩ | ⟨d, ds, hd, -, h2, h3, -⟩
  · rw [h0] at h
    rw [List.mem_singleton.mp h]
    rfl
  · rw [hd] at h
    rcases List.mem_cons.mp h with rfl | h
    · exact h2
    · exact h3 c h

theorem natural_decimal {n : ℕ} (hn : (Nat.digits 10 n).length ≤ maxStrDigits) (negative : Bool) (src : Str) :
    natural negative (decimal n ++ lineFeed :: src) =
      .ok (.int (if negative then - (n : ℤ) else n), lineFeed :: src) := by
  obtain ⟨htake, hdrop⟩ := takeWhile_append_lineFeed (p := isDigit) rfl (fun c hc => isDigit_of_mem_decimal hc) src
    (t := decimal n)
  unfold natural
  rw [htake, hdrop]
  dsimp only
  have hform : ¬ (decimal n = [] ∨ ((decimal n).head? = some (ch '0') ∧ decimal n ≠ [ch '0']) ∨
      endsValue (lineFeed :: src) = false) := by
    rintro (hnil | ⟨hzero, hne⟩ | hend)
    · exact decimal_ne_nil n hnil
    · rcases Json.decimal_cases n with ⟨-, h0⟩ | ⟨d, ds, hd, h1, -⟩
      · exact hne h0
      · rw [hd] at hzero
        rw [Option.some.inj hzero] at h1
        exact absurd h1 (by decide)
    · cases hend
  have hlen : ¬ maxStrDigits < (decimal n).length := by
    rcases Json.decimal_cases n with ⟨-, h0⟩ | ⟨d, ds, hd, -, -, -, hl⟩
    · rw [h0]
      decide
    · rw [hd, hl]
      omega
  rw [if_neg hform, if_neg hlen, Json.ofDecimal_decimal]

/-- What begins with a digit is a number. -/
theorem parseValue_digits {t src : Str} (hne : t ≠ []) (ht : ∀ c ∈ t, isDigit c = true) :
    parseValue (skipWs (t ++ src)) = natural false (t ++ src) := by
  obtain ⟨c, r, rfl⟩ := List.exists_cons_of_ne_nil hne
  have hc := ht c List.mem_cons_self
  have hn (e : CodePoint) (he : isDigit e = false) : c ≠ e := by
    rintro rfl
    rw [hc] at he
    cases he
  have hlit (e : CodePoint) (l : Str) (he : isDigit e = false) : (e :: l).isPrefixOf (c :: (r ++ src)) = false := by
    rw [List.isPrefixOf, beq_eq_false_iff_ne.mpr (hn e he).symm]
    rfl
  rw [List.cons_append, skipWs_cons (isWs_of_isDigit hc), parseValue]
  rw [if_neg (hn _ rfl), show lit "true" = ch 't' :: lit "rue" from rfl,
    show lit "false" = ch 'f' :: lit "alse" from rfl, hlit _ _ rfl, hlit _ _ rfl, if_neg (by simp), if_neg (by simp),
    if_neg (hn _ rfl), if_neg (hn _ rfl)]

theorem readsAs_int {i : ℤ} (hi : (Nat.digits 10 i.natAbs).length ≤ maxStrDigits) :
    ReadsAs (intText i) (.ok (.int i)) := by
  intro src
  cases i with
  | ofNat n =>
    show parseValue (skipWs (decimal n ++ lineFeed :: src)) = _
    rw [parseValue_digits (decimal_ne_nil n) (fun c hc => isDigit_of_mem_decimal hc), natural_decimal (n := n) hi]
    rfl
  | negSucc n =>
    show natural true (decimal (n + 1) ++ lineFeed :: src) = _
    rw [natural_decimal (n := n + 1) hi]
    rfl

/-- A string between its quotation marks. -/
theorem readsAs_str {body : Str} {s : Except Error Str} (hq : body.head? ≠ some (ch '"'))
    (hs : ∀ src, basicStr .plain [] (body ++ ch '"' :: src) = s.map fun s => (s, src)) :
    ReadsAs (ch '"' :: body ++ [ch '"']) (s.map .str) := by
  intro src
  have htriple : (lit "\"\"").isPrefixOf (body ++ ch '"' :: lineFeed :: src) = false := by
    cases body with
    | nil => rfl
    | cons c body =>
      have hc : ch '"' ≠ c := fun h => hq (by rw [h]; rfl)
      show ((ch '"' == c) && _) = false
      rw [beq_eq_false_iff_ne.mpr hc]
      rfl
  rw [List.cons_append, List.cons_append, List.append_assoc, skipWs_cons rfl, parseValue, if_pos rfl]
  rw [List.cons_append, List.nil_append, htriple, if_neg (by simp), hs]
  cases s <;> rfl

/-! ### Documents of lines -/

/-- A line of a document; `value` is what the text after the key reads as. -/
inductive Line
  | blank
  | header (name : Str)
  | item (key text : Str) (value : Except Error Toml)

namespace Line

def text : Line → Str
  | .blank => []
  | .header name => ch '[' :: name ++ [ch ']']
  | .item key text _ => key ++ lit " = " ++ text

def BareKey (key : Str) : Prop := key ≠ [] ∧ ∀ c ∈ key, isBareKeyChar c = true

instance (key : Str) : Decidable (BareKey key) := by unfold BareKey; infer_instance

/-- The line is of a form that is read here. -/
def Reads : Line → Prop
  | .blank => True
  | .header name => BareKey name
  | .item key text value => BareKey key ∧ ReadsAs text value

end Line

/-- What a line does. -/
def Document.line (d : Document) : Line → Except Error Document
  | .blank => .ok d
  | .header name => d.declare name
  | .item key _ value => value.bind fun v => d.put key v

section Lines

variable {rest : Document → Str → Except Error (List (Str × Toml))} {fuel : ℕ} {d : Document}

theorem isBareKeyChar_range {c : CodePoint} (h : isBareKeyChar c = true) :
    isWs c = false ∧ c ≠ lineFeed ∧ c ≠ ch '#' ∧ c ≠ ch '[' := by
  have hne (e : CodePoint) (he : isBareKeyChar e = false) : c ≠ e := by
    rintro rfl
    rw [h] at he
    cases he
  have htab : c.val ≠ 0x09 := fun ht => hne 0x09 rfl (Fin.ext ht)
  refine ⟨?_, hne _ rfl, hne _ rfl, hne _ rfl⟩
  simp only [isWs, Bool.or_eq_false_iff, decide_eq_false_iff_not]
  exact ⟨hne _ rfl, htab⟩

/-- A key, up to the character that is none of its. -/
theorem takeWhile_key {key : Str} (hk : ∀ c ∈ key, isBareKeyChar c = true) {c : CodePoint}
    (hc : isBareKeyChar c = false) (src : Str) : (key ++ c :: src).takeWhile isBareKeyChar = key ∧
      (key ++ c :: src).dropWhile isBareKeyChar = c :: src := by
  rw [List.takeWhile_append_of_pos hk, List.dropWhile_append_of_pos hk, List.takeWhile_cons, List.dropWhile_cons, hc]
  simp

theorem statement_item {key text src : Str} {value : Except Error Toml} (hk : Line.BareKey key)
    (hv : ReadsAs text value) : statement d (key ++ lit " = " ++ text ++ lineFeed :: src) =
      match d.line (.item key text value) with
      | .ok d => .ok (d, lineFeed :: src)
      | .error e => .error (.error e) := by
  obtain ⟨c, k, rfl⟩ := List.exists_cons_of_ne_nil hk.1
  obtain ⟨htake, hdrop⟩ := takeWhile_key hk.2 (c := ch ' ') rfl (ch '=' :: ch ' ' :: (text ++ lineFeed :: src))
  have hsrc : (c :: k) ++ lit " = " ++ text ++ lineFeed :: src =
      c :: (k ++ ch ' ' :: ch '=' :: ch ' ' :: (text ++ lineFeed :: src)) := by
    simp [lit, List.append_assoc]
  rw [hsrc]
  unfold statement
  dsimp only
  rw [if_pos (hk.2 c List.mem_cons_self), ← List.cons_append, htake, hdrop]
  show (if ch '=' = ch '=' then _ else _) = _
  rw [if_pos rfl]
  have hval := hv src
  rw [show skipWs (ch ' ' :: (text ++ lineFeed :: src)) = skipWs (text ++ lineFeed :: src) from rfl, hval]
  cases value with
  | error e => rfl
  | ok v =>
    show (do let d ← (d.put (c :: k) v).mapError Stop.error; pure (d, lineFeed :: src)) =
      match d.put (c :: k) v with
      | .ok d => _
      | .error e => _
    cases d.put (c :: k) v <;> rfl

theorem statement_header {name src : Str} (hn : Line.BareKey name) :
    statement d (ch '[' :: name ++ [ch ']'] ++ lineFeed :: src) =
      match d.line (.header name) with
      | .ok d => .ok (d, lineFeed :: src)
      | .error e => .error (.error e) := by
  obtain ⟨c, k, rfl⟩ := List.exists_cons_of_ne_nil hn.1
  obtain ⟨htake, hdrop⟩ := takeWhile_key hn.2 (c := ch ']') rfl (lineFeed :: src)
  have hws := (isBareKeyChar_range (hn.2 c List.mem_cons_self)).1
  have hsrc : ch '[' :: (c :: k) ++ [ch ']'] ++ lineFeed :: src = ch '[' :: ((c :: k) ++ ch ']' :: lineFeed :: src) := by
    simp
  rw [hsrc]
  unfold statement
  dsimp only
  rw [if_neg (by decide), if_pos rfl, List.cons_append, skipWs_cons hws, ← List.cons_append, htake, hdrop,
    if_neg (List.cons_ne_nil c k)]
  show (if ch ']' = ch ']' then _ else _) = _
  rw [if_pos rfl]
  show (do let d ← (d.declare (c :: k)).mapError Stop.error; pure (d, lineFeed :: src)) =
    match d.declare (c :: k) with
    | .ok d => _
    | .error e => _
  cases d.declare (c :: k) <;> rfl

/-- One line. -/
theorem statements_line {l : Line} (hl : l.Reads) (src : Str) :
    statements rest (fuel + 1) d (l.text ++ lineFeed :: src) =
      match d.line l with
      | .ok d => statements rest fuel d src
      | .error e => .error e := by
  cases l with
  | blank => rfl
  | header name =>
    have hs := @statement_header d _ src hl
    show statements rest (fuel + 1) d (ch '[' :: (name ++ [ch ']']) ++ lineFeed :: src) = _
    rw [List.cons_append, statements]
    rw [skipWs_cons rfl]
    dsimp only
    rw [if_neg (by decide), if_neg (by decide), ← List.cons_append]
    rw [show ch '[' :: (name ++ [ch ']']) ++ lineFeed :: src = ch '[' :: name ++ [ch ']'] ++ lineFeed :: src from rfl, hs]
    cases d.line (.header name) <;> rfl
  | item key text value =>
    have hs := @statement_item d _ _ src _ hl.1 hl.2
    obtain ⟨c, k, rfl⟩ := List.exists_cons_of_ne_nil hl.1.1
    obtain ⟨hws, hlf, hhash, -⟩ := isBareKeyChar_range (hl.1.2 c List.mem_cons_self)
    show statements rest (fuel + 1) d (c :: (k ++ lit " = " ++ text ++ lineFeed :: src)) = _
    rw [statements, skipWs_cons hws]
    dsimp only
    rw [if_neg hlf, if_neg hhash]
    rw [show c :: (k ++ lit " = " ++ text ++ lineFeed :: src) = (c :: k) ++ lit " = " ++ text ++ lineFeed :: src from rfl,
      hs]
    cases d.line (.item (c :: k) text value) <;> rfl

/-- The lines of a document, one after the other. -/
theorem statements_lines : ∀ {lines : List Line} {d : Document}, (∀ l ∈ lines, l.Reads) →
    statements rest (fuel + 1 + lines.length) d (lines.flatMap fun l => l.text ++ [lineFeed]) =
      (lines.foldlM Document.line d).map Document.data
  | [], _, _ => rfl
  | l :: lines, d, h => by
    have hl := h l List.mem_cons_self
    have ih := fun d => @statements_lines lines d fun l hm => h l (List.mem_cons_of_mem _ hm)
    rw [List.flatMap_cons, List.append_assoc, List.length_cons, ← Nat.add_assoc, List.foldlM_cons]
    show statements rest (fuel + 1 + lines.length + 1) d (l.text ++ lineFeed :: _) = _
    rw [statements_line hl]
    cases d.line l with
    | error e => rfl
    | ok d' => exact ih d'

end Lines

/-! ### Keys, and then tables -/

/-- A document that is read has no line with a value that is not. -/
theorem ok_of_foldlM_line : ∀ {lines : List Line} {d d' : Document}, lines.foldlM Document.line d = .ok d' →
    ∀ {key text value}, Line.item key text value ∈ lines → ∃ v, value = .ok v
  | [], _, _, _, _, _, _, hm => absurd hm List.not_mem_nil
  | l :: lines, d, d', h, key, text, value, hm => by
    rw [List.foldlM_cons] at h
    cases hl : d.line l with
    | error e =>
      rw [hl] at h
      cases h
    | ok d1 =>
      rw [hl] at h
      rcases List.mem_cons.mp hm with rfl | hm
      · cases value with
        | error e => cases hl
        | ok v => exact ⟨v, rfl⟩
      · exact ok_of_foldlM_line h hm

section Lines

variable {text : Toml → Str} {declared : List Str}

/-- The line of a key. -/
def itemLine (text : Toml → Str) (m : Str × Toml) : Line := .item m.1 (text m.2) (.ok m.2)

theorem Document.add_of_not_mem {items : List (Str × Toml)} {key : Str} (h : key ∉ items.map Prod.fst) (value : Toml) :
    Document.add items key value = .ok (items ++ [(key, value)]) := if_neg h

/-- The keys before the first table. -/
theorem foldlM_items : ∀ {items base : List (Str × Toml)}, ((base ++ items).map Prod.fst).Nodup →
    (items.map (itemLine text)).foldlM Document.line { data := base, header := none, declared } =
      .ok { data := base ++ items, header := none, declared }
  | [], base, _ => by rw [List.append_nil]; rfl
  | m :: items, base, h => by
    have hm : m.1 ∉ base.map Prod.fst := by
      rw [List.map_append, List.map_cons, List.nodup_append] at h
      exact fun hin => h.2.2 m.1 hin m.1 List.mem_cons_self rfl
    have hline : Document.line { data := base, header := none, declared } (itemLine text m) =
        .ok { data := base ++ [m], header := none, declared } := by
      show (Document.add base m.1 m.2).map _ = _
      rw [Document.add_of_not_mem hm]
      rfl
    rw [List.map_cons, List.foldlM_cons, hline]
    show List.foldlM _ _ _ = _
    rw [foldlM_items (by rwa [List.append_assoc]), List.append_assoc]
    rfl

theorem lookup_last {base : List (Str × Toml)} {name : Str} (hn : name ∉ base.map Prod.fst) (v : Toml) :
    (base ++ [(name, v)]).lookup name = some v := by
  induction base with
  | nil => rw [List.nil_append, Json.lookup_cons_eq, if_pos rfl]
  | cons m base ih =>
    rw [List.map_cons, List.mem_cons, not_or] at hn
    rw [List.cons_append, Json.lookup_cons_eq, if_neg hn.1, ih hn.2]

theorem map_last {base : List (Str × Toml)} {name : Str} (hn : name ∉ base.map Prod.fst) (v w : Toml) :
    (base ++ [(name, v)]).map (fun m => if m.1 = name then (name, w) else m) = base ++ [(name, w)] := by
  rw [List.map_append, List.map_singleton, if_pos rfl]
  congr 1
  conv_rhs => rw [← List.map_id base]
  refine List.map_congr_left fun m hm => if_neg ?_
  rintro rfl
  exact hn (List.mem_map_of_mem hm)

/-- The keys of a table. -/
theorem foldlM_tableItems {base : List (Str × Toml)} {name : Str} (hn : name ∉ base.map Prod.fst) :
    ∀ {items done : List (Str × Toml)}, ((done ++ items).map Prod.fst).Nodup →
      (items.map (itemLine text)).foldlM Document.line
          { data := base ++ [(name, .table done)], header := some name, declared } =
        .ok { data := base ++ [(name, .table (done ++ items))], header := some name, declared }
  | [], done, _ => by rw [List.append_nil]; rfl
  | m :: items, done, h => by
    have hm : m.1 ∉ done.map Prod.fst := by
      rw [List.map_append, List.map_cons, List.nodup_append] at h
      exact fun hin => h.2.2 m.1 hin m.1 List.mem_cons_self rfl
    have hline : Document.line { data := base ++ [(name, .table done)], header := some name, declared }
        (itemLine text m) = .ok { data := base ++ [(name, .table (done ++ [m]))], header := some name, declared } := by
      show Document.put { data := base ++ [(name, .table done)], header := some name, declared } m.1 m.2 = _
      unfold Document.put
      dsimp only
      rw [lookup_last hn]
      dsimp only
      rw [Document.add_of_not_mem hm]
      dsimp only [Except.map]
      rw [map_last hn]
    rw [List.map_cons, List.foldlM_cons, hline]
    show List.foldlM _ _ _ = _
    rw [foldlM_tableItems hn (by rwa [List.append_assoc]), List.append_assoc]
    rfl

/-- The lines of a table. -/
def tableLines (text : Toml → Str) (t : Str × List (Str × Toml)) : List Line :=
  .blank :: .header t.1 :: t.2.map (itemLine text)

/-- The tables. -/
theorem foldlM_tables : ∀ {tables : List (Str × List (Str × Toml))} {d : Document},
    ((d.data.map Prod.fst) ++ tables.map Prod.fst).Nodup → (∀ name ∈ d.declared, name ∈ d.data.map Prod.fst) →
    (∀ t ∈ tables, (t.2.map Prod.fst).Nodup) →
    ((tables.flatMap (tableLines text)).foldlM Document.line d).map Document.data =
      .ok (d.data ++ tables.map fun t => (t.1, .table t.2))
  | [], d, _, _, _ => by rw [List.map_nil, List.append_nil]; rfl
  | t :: tables, d, hn, hd, ht => by
    have hname : t.1 ∉ d.data.map Prod.fst := by
      rw [List.map_cons, List.nodup_append] at hn
      exact fun hin => hn.2.2 t.1 hin t.1 List.mem_cons_self rfl
    have hlookup : d.data.lookup t.1 = none := by
      rw [List.lookup_eq_none_iff]
      intro m hm
      rw [bne_iff_ne]
      intro he
      exact hname (he ▸ List.mem_map_of_mem hm)
    have hdecl : d.declare t.1 =
        .ok { data := d.data ++ [(t.1, .table [])], header := some t.1, declared := t.1 :: d.declared } := by
      rw [Document.declare, if_neg fun hin => hname (hd t.1 hin), hlookup]
    have hitems := @foldlM_tableItems text (t.1 :: d.declared) _ _ hname t.2 []
      (by simpa using ht t List.mem_cons_self)
    have hfold : (tableLines text t).foldlM Document.line d =
        .ok { data := d.data ++ [(t.1, .table t.2)], header := some t.1, declared := t.1 :: d.declared } := by
      rw [tableLines, List.foldlM_cons]
      show List.foldlM _ _ _ = _
      rw [List.foldlM_cons]
      show (d.declare t.1 >>= fun s => List.foldlM _ s _) = _
      rw [hdecl]
      exact hitems
    rw [List.flatMap_cons, List.foldlM_append, hfold]
    show Except.map _ (List.foldlM _ _ _) = _
    rw [foldlM_tables, List.map_cons, List.append_assoc]
    · rfl
    · simpa using hn
    · intro name hin
      rw [List.map_append, List.mem_append]
      rcases List.mem_cons.mp hin with rfl | hin
      · exact .inr List.mem_cons_self
      · exact .inl (hd name hin)
    · exact fun t' hm => ht t' (List.mem_cons_of_mem _ hm)

end Lines

end Toml
end GpgMeister
