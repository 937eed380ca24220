/-
# The configuration file

`services/config_service.py`: the writer of the settings, and the reader that
checks them.

* `loads_saved`: what has been saved is loaded again if and only if the texts
  the user may choose hold no delete character (which the writer leaves as it
  is and TOML does not allow) and no lone surrogate, and the integers can be
  written.
-/
import GpgMeister.Lib.Program
import GpgMeister.Models.Config

namespace GpgMeister
namespace ConfigService

/-! ### Saving -/

inductive Error
  | configServiceError
  | runtimeError
  | typeError
  | valueError
  | unicodeEncodeError
  deriving DecidableEq

/-- `_TOML_STR_ESCAPES` -/
def tomlStrEscapes : List (CodePoint × Str) :=
  [(ch '"', lit "\\\""), (ch '\\', lit "\\\\"), (lineFeed, lit "\\n"), (carriageReturn, lit "\\r")]

/-- `f"{n:04x}"`, for a number below 0x10000 -/
def hex4 (n : ℕ) : Str :=
  [Json.hexDigit (n / 4096), Json.hexDigit (n / 256 % 16), Json.hexDigit (n / 16 % 16), Json.hexDigit (n % 16)]

def escapeControl (c : CodePoint) : Str := if c.val < 0x20 ∧ c.val ≠ 0x09 then lit "\\u" ++ hex4 c.val else [c]

/-- The text between the quotation marks. -/
def escape (s : Str) : Str :=
  (s.flatMap fun c => (tomlStrEscapes.lookup c).getD [c]).flatMap escapeControl

/-- `_format_toml_value(value)` -/
def formatTomlValue : Toml → Except Error Str
  | .bool b => .ok (if b then lit "true" else lit "false")
  | .int i => if (Nat.digits 10 i.natAbs).length ≤ Json.maxStrDigits then .ok (Json.intText i) else .error .valueError
  | .str s => .ok (ch '"' :: escape s ++ [ch '"'])
  | _ => .error .typeError

/-- `f"{key} = {_format_toml_value(value)}"` -/
def formatItem (m : Str × Toml) : Except Error Str := do
  return m.1 ++ lit " = " ++ (← formatTomlValue m.2)

def isTable : Toml → Bool
  | .table _ => true
  | _ => false

/-- The items that are a `dict`. -/
def tablesOf (obj : List (Str × Toml)) : List (Str × List (Str × Toml)) :=
  obj.filterMap fun m =>
    match m.2 with
    | .table items => some (m.1, items)
    | _ => none

def dumpLines (obj : List (Str × Toml)) : Except Error (List Str) := do
  let lines ← (obj.filter fun m => ! isTable m.2).mapM formatItem
  (tablesOf obj).foldlM
    (fun lines table => do
      let items ← table.2.mapM formatItem
      return (if lines = [] then [] else lines ++ [[]]) ++ (ch '[' :: table.1 ++ [ch ']']) :: items)
    lines

/-- `_dump_toml(obj)` -/
def dumpToml (obj : List (Str × Toml)) : Except Error Bytes := do
  let lines ← dumpLines obj
  match Utf8.encode ([lineFeed].intercalate lines ++ [lineFeed]) with
  | some data => return data
  | none => throw .unicodeEncodeError

/-- What is at the path of the configuration. -/
inductive Entry
  /-- A symbolic link, and whether there is something where it leads. -/
  | link (leads : Bool)
  | file (mode : ℕ) (data : Bytes)
  deriving DecidableEq

/-- `save(config, path)`; calls of the operating system do not fail -/
def save (config : AppConfig) : Program (Option Entry) Error Unit := do
  if let some (.link _) ← get then Program.raise .runtimeError
  let data ← Program.ofExcept (dumpToml config.modelDump)
  set (some (Entry.file 0o600 data))

/-! ### Loading -/

inductive PermissionStatus
  | ok
  | symlink
  | groupReadable
  | worldReadable
  | groupWritable
  | worldWritable
  deriving DecidableEq

/-- `report(path).status`, on POSIX and for a path that is there -/
def report : Entry → PermissionStatus
  | .link _ => .symlink
  | .file mode _ =>
    if mode &&& 0o002 ≠ 0 then .worldWritable
    else if mode &&& 0o020 ≠ 0 then .groupWritable
    else if mode &&& 0o004 ≠ 0 then .worldReadable
    else if mode &&& 0o040 ≠ 0 then .groupReadable
    else .ok

variable (types : ConfigTypes) (rest : Toml.Document → Str → Except Toml.Error (List (Str × Toml)))

/-- The configuration in the file. -/
def parse (data : Bytes) : Except Error AppConfig :=
  match Utf8.decodeStrict data with
  | none => .error .configServiceError
  | some text =>
    match Toml.loads rest text with
    | .error .decode => .error .configServiceError
    | .error .digits => .error .valueError
    | .ok obj =>
      match AppConfig.modelValidate types obj with
      | none => .error .configServiceError
      | some config => .ok config

/-- `load(path)` -/
def load : Program (Option Entry) Error AppConfig := do
  match ← get with
  | none | some (.link false) => return {}
  | some (.link true) => Program.raise .configServiceError
  | some (.file mode data) =>
    -- `ensure_safe_to_load(path)`
    let status := report (.file mode data)
    if status = .groupWritable ∨ status = .worldWritable then Program.raise .configServiceError
    if status = .groupReadable ∨ status = .worldReadable then set (some (Entry.file 0o600 data))
    Program.ofExcept (parse types rest data)

/-! ### The lines of a file -/

/-- What can be written. -/
def Formats : Toml → Prop
  | .bool _ | .str _ => True
  | .int i => (Nat.digits 10 i.natAbs).length ≤ Json.maxStrDigits
  | _ => False

def valueText : Toml → Str
  | .bool b => if b then lit "true" else lit "false"
  | .int i => Json.intText i
  | .str s => ch '"' :: escape s ++ [ch '"']
  | _ => []

def deleteChar : CodePoint := 0x7F

/-- What the reader makes of a value that was written. -/
def reading : Toml → Except Toml.Error Toml
  | .str s => if deleteChar ∈ s then .error .decode else .ok (.str s)
  | v => .ok v

def lineOf (m : Str × Toml) : Toml.Line := .item m.1 (valueText m.2) (reading m.2)

def scalarsOf (obj : List (Str × Toml)) : List (Str × Toml) := obj.filter fun m => ! isTable m.2

def tableLinesOf (t : Str × List (Str × Toml)) : List Toml.Line := .blank :: .header t.1 :: t.2.map lineOf

/-- The lines of a file. -/
def linesOf (obj : List (Str × Toml)) : List Toml.Line :=
  (scalarsOf obj).map lineOf ++ (tablesOf obj).flatMap tableLinesOf

/-- The items of the file, and those of its tables. -/
def itemsOf (obj : List (Str × Toml)) : List (Str × Toml) := scalarsOf obj ++ (tablesOf obj).flatMap Prod.snd

theorem formatTomlValue_eq_ok {v : Toml} {text : Str} :
    formatTomlValue v = .ok text ↔ Formats v ∧ valueText v = text := by
  cases v with
  | str s => simp [formatTomlValue, Formats, valueText]
  | bool b => simp [formatTomlValue, Formats, valueText]
  | int i =>
    simp only [formatTomlValue, Formats, valueText]
    split_ifs with h <;> simp [h]
  | table items => simp [formatTomlValue, Formats]
  | other text => simp [formatTomlValue, Formats]

theorem formatItem_eq_ok {m : Str × Toml} {text : Str} :
    formatItem m = .ok text ↔ Formats m.2 ∧ (lineOf m).text = text := by
  have hmap : formatItem m = .ok text ↔ ∃ t, formatTomlValue m.2 = .ok t ∧ m.1 ++ lit " = " ++ t = text := by
    unfold formatItem
    cases formatTomlValue m.2 with
    | error e => exact iff_of_false (fun h => by cases h) (by rintro ⟨t, h, -⟩; cases h)
    | ok t =>
      show Except.ok (m.1 ++ lit " = " ++ t) = Except.ok text ↔ _
      simp
  rw [hmap]
  simp only [formatTomlValue_eq_ok]
  constructor
  · rintro ⟨t, ⟨hf, rfl⟩, rfl⟩
    exact ⟨hf, rfl⟩
  · rintro ⟨hf, rfl⟩
    exact ⟨_, ⟨hf, rfl⟩, rfl⟩

theorem mapM_formatItem_eq_ok : ∀ {items : List (Str × Toml)} {lines : List Str}, items.mapM formatItem = .ok lines ↔
    (∀ m ∈ items, Formats m.2) ∧ (items.map lineOf).map Toml.Line.text = lines
  | [], lines => by
    rw [List.mapM_nil]
    show Except.ok [] = Except.ok lines ↔ _
    simp
  | m :: items, lines => by
    have hcons : (m :: items).mapM formatItem = .ok lines ↔
        ∃ t ts, formatItem m = .ok t ∧ items.mapM formatItem = .ok ts ∧ t :: ts = lines := by
      rw [List.mapM_cons]
      cases formatItem m with
      | error e => exact iff_of_false (fun h => by cases h) (by rintro ⟨t, ts, h, -⟩; cases h)
      | ok t =>
        show (items.mapM formatItem >>= fun ts => pure (t :: ts)) = _ ↔ _
        cases items.mapM formatItem with
        | error e => exact iff_of_false (fun h => by cases h) (by rintro ⟨t, ts, -, h, -⟩; cases h)
        | ok ts =>
          show Except.ok (t :: ts) = Except.ok lines ↔ _
          simp
    rw [hcons]
    simp only [formatItem_eq_ok, @mapM_formatItem_eq_ok items, List.forall_mem_cons, List.map_cons]
    constructor
    · rintro ⟨t, ts, ⟨h, rfl⟩, ⟨hs, rfl⟩, rfl⟩
      exact ⟨⟨h, hs⟩, rfl⟩
    · rintro ⟨⟨h, hs⟩, rfl⟩
      exact ⟨_, _, ⟨h, rfl⟩, ⟨hs, rfl⟩, rfl⟩

theorem foldlM_tables_eq_ok : ∀ {tables : List (Str × List (Str × Toml))} {before lines : List Str}, before ≠ [] →
    (tables.foldlM
        (fun lines table => do
          let items ← table.2.mapM formatItem
          return (if lines = [] then [] else lines ++ [[]]) ++ (ch '[' :: table.1 ++ [ch ']']) :: items)
        before = Except.ok lines ↔
      (∀ m ∈ tables.flatMap Prod.snd, Formats m.2) ∧
        before ++ (tables.flatMap tableLinesOf).map Toml.Line.text = lines)
  | [], before, lines, _ => by
    rw [List.foldlM_nil]
    show Except.ok before = Except.ok lines ↔ _
    simp
  | t :: tables, before, lines, h => by
    have ih (items : List Str) := @foldlM_tables_eq_ok tables
      (before ++ [[]] ++ (ch '[' :: t.1 ++ [ch ']']) :: items) lines (by simp)
    rw [List.foldlM_cons, if_neg h]
    simp only [List.flatMap_cons, List.forall_mem_append]
    cases hitems : t.2.mapM formatItem with
    | error e =>
      refine iff_of_false (fun hok => by cases hok) fun hf => ?_
      have hok := mapM_formatItem_eq_ok.mpr ⟨hf.1.1, rfl⟩
      rw [hitems] at hok
      cases hok
    | ok items =>
      obtain ⟨hf, rfl⟩ := mapM_formatItem_eq_ok.mp hitems
      refine (ih _).trans ?_
      rw [and_iff_right hf]
      simp [tableLinesOf, Toml.Line.text, List.append_assoc]

/-- What the writer writes, for a table that does not begin with a table. -/
theorem dumpLines_eq_ok {obj : List (Str × Toml)} {lines : List Str} (hne : scalarsOf obj ≠ []) :
    dumpLines obj = .ok lines ↔ (∀ m ∈ itemsOf obj, Formats m.2) ∧ (linesOf obj).map Toml.Line.text = lines := by
  unfold dumpLines itemsOf
  rw [List.forall_mem_append]
  show (do let lines ← (scalarsOf obj).mapM formatItem; _) = _ ↔ _
  cases hitems : (scalarsOf obj).mapM formatItem with
  | error e =>
    refine iff_of_false (fun hok => by cases hok) fun hf => ?_
    have hok := mapM_formatItem_eq_ok.mpr ⟨hf.1.1, rfl⟩
    rw [hitems] at hok
    cases hok
  | ok items =>
    obtain ⟨hf, rfl⟩ := mapM_formatItem_eq_ok.mp hitems
    refine (foldlM_tables_eq_ok (by simpa using hne)).trans ?_
    rw [and_iff_right hf, linesOf, List.map_append]

/-! ### The text of a file -/

/-- The lines of a file, each with its end. -/
def textOf (obj : List (Str × Toml)) : Str := (linesOf obj).flatMap fun l => l.text ++ [lineFeed]

theorem intercalate_append : ∀ {lines : List Str}, lines ≠ [] →
    [lineFeed].intercalate lines ++ [lineFeed] = lines.flatMap (· ++ [lineFeed])
  | [], h => absurd rfl h
  | [l], _ => by simp
  | l :: l' :: lines, _ => by
    rw [List.intercalate_cons_cons, List.append_assoc, intercalate_append (List.cons_ne_nil _ _)]
    rfl

theorem dumpToml_eq_ok {obj : List (Str × Toml)} {data : Bytes} (hne : scalarsOf obj ≠ []) :
    dumpToml obj = .ok data ↔ (∀ m ∈ itemsOf obj, Formats m.2) ∧ Utf8.encode (textOf obj) = some data := by
  have htext {lines : List Str} (h : (linesOf obj).map Toml.Line.text = lines) :
      [lineFeed].intercalate lines ++ [lineFeed] = textOf obj := by
    rw [intercalate_append, textOf, ← h, List.flatMap_map]
    rw [← h]
    simpa [linesOf] using fun h => absurd h hne
  unfold dumpToml
  cases hlines : dumpLines obj with
  | error e =>
    refine iff_of_false (fun hok => by cases hok) fun hf => ?_
    have hok := (dumpLines_eq_ok hne).mpr ⟨hf.1, rfl⟩
    rw [hlines] at hok
    cases hok
  | ok lines =>
    obtain ⟨hf, hl⟩ := (dumpLines_eq_ok hne).mp hlines
    rw [and_iff_right hf, ← htext hl]
    show (match Utf8.encode ([lineFeed].intercalate lines ++ [lineFeed]) with
      | some data => pure data
      | none => throw Error.unicodeEncodeError) = Except.ok data ↔ _
    cases Utf8.encode ([lineFeed].intercalate lines ++ [lineFeed]) with
    | none => exact iff_of_false (fun h => by cases h) (fun h => by cases h)
    | some d =>
      show Except.ok d = Except.ok data ↔ _
      simp

/-! ### Characters -/

/-- What one character becomes. -/
def escapeChar (c : CodePoint) : Str := ((tomlStrEscapes.lookup c).getD [c]).flatMap escapeControl

theorem escape_eq (s : Str) : escape s = s.flatMap escapeChar := List.flatMap_assoc

theorem escapeChar_cases (c : CodePoint) :
    (c = ch '"' ∧ escapeChar c = lit "\\\"") ∨ (c = ch '\\' ∧ escapeChar c = lit "\\\\") ∨
      (c = lineFeed ∧ escapeChar c = lit "\\n") ∨ (c = carriageReturn ∧ escapeChar c = lit "\\r") ∨
      (c.val < 0x20 ∧ escapeChar c = lit "\\u" ++ hex4 c.val) ∨
      (c ≠ ch '"' ∧ c ≠ ch '\\' ∧ (0x20 ≤ c.val ∨ c.val = 0x09) ∧ escapeChar c = [c]) := by
  by_cases h1 : c = ch '"'
  · exact .inl ⟨h1, by rw [h1]; rfl⟩
  by_cases h2 : c = ch '\\'
  · exact .inr (.inl ⟨h2, by rw [h2]; rfl⟩)
  by_cases h3 : c = lineFeed
  · exact .inr (.inr (.inl ⟨h3, by rw [h3]; rfl⟩))
  by_cases h4 : c = carriageReturn
  · exact .inr (.inr (.inr (.inl ⟨h4, by rw [h4]; rfl⟩)))
  have hlookup : tomlStrEscapes.lookup c = none := by
    simp [tomlStrEscapes, h1, h2, h3, h4]
  have hone : escapeChar c = escapeControl c := by
    rw [escapeChar, hlookup]
    simp
  refine .inr (.inr (.inr (.inr ?_)))
  rw [hone, escapeControl]
  split_ifs with hc
  · exact .inl ⟨hc.1, rfl⟩
  · refine .inr ⟨h1, h2, ?_, rfl⟩
    omega

theorem basicStr_hex4 {n : ℕ} (hn : n < 0x20) (done src : Str) :
    Toml.basicStr (.hex 3 0) done (hex4 n ++ src) = Toml.basicStr .plain (⟨n, by omega⟩ :: done) src := by
  have h0 : n / 4096 = 0 := by omega
  have h1 : n / 256 % 16 = 0 := by omega
  have hval : (((0 * 16 + 0) * 16 + 0) * 16 + n / 16 % 16) * 16 + n % 16 = n := by omega
  have hzero : Json.hexVal (Json.hexDigit 0) = some 0 := Json.hexVal_hexDigit (by decide)
  rw [hex4, h0, h1]
  show Toml.basicStr (.hex 3 0) done (_ :: _ :: _ :: _ :: src) = _
  simp only [Toml.basicStr, hzero, Json.hexVal_hexDigit (show n / 16 % 16 < 16 by omega),
    Json.hexVal_hexDigit (show n % 16 < 16 by omega), hval]
  rw [Toml.scalar, dif_pos (by omega), if_pos (by omega)]

/-- A character is read back, unless it is the delete character. -/
theorem basicStr_escapeChar (c : CodePoint) (done src : Str) :
    Toml.basicStr .plain done (escapeChar c ++ src) =
      if c = deleteChar then .error .decode else Toml.basicStr .plain (c :: done) src := by
  rcases escapeChar_cases c with ⟨rfl, h⟩ | ⟨rfl, h⟩ | ⟨rfl, h⟩ | ⟨rfl, h⟩ | ⟨hc, h⟩ | ⟨h1, h2, hc, h⟩
  · rw [h]; rfl
  · rw [h]; rfl
  · rw [h]; rfl
  · rw [h]; rfl
  · have hne : c ≠ deleteChar := by
      rintro rfl
      exact absurd hc (by decide)
    rw [h, if_neg hne, List.append_assoc]
    exact basicStr_hex4 hc done src
  · rw [h, List.singleton_append, Toml.basicStr, if_neg h1, if_neg h2]
    by_cases hd : c = deleteChar
    · rw [if_pos hd, if_pos]
      rw [hd]
      rfl
    · rw [if_neg hd, if_neg]
      have hval : c.val ≠ 0x7F := fun h => hd (Fin.ext h)
      simp only [Toml.isIllegal, Bool.or_eq_true, Bool.and_eq_true, decide_eq_true_eq, decide_not, Bool.not_eq_true']
      simp only [decide_eq_false_iff_not]
      omega

theorem basicStr_escape (src : Str) : ∀ (s done : Str), Toml.basicStr .plain done (escape s ++ ch '"' :: src) =
    if deleteChar ∈ s then .error .decode else .ok (done.reverse ++ s, src)
  | [], done => by
    show Except.ok (done.reverse, src) = _
    simp
  | c :: s, done => by
    have ih := basicStr_escape src s (c :: done)
    rw [escape_eq] at ih
    rw [escape_eq, List.flatMap_cons, List.append_assoc, basicStr_escapeChar, ih]
    by_cases hc : c = deleteChar
    · rw [if_pos hc, if_pos (by rw [hc]; exact List.mem_cons_self)]
    · rw [if_neg hc]
      have hm : deleteChar ∈ c :: s ↔ deleteChar ∈ s := by
        rw [List.mem_cons]
        exact or_iff_right (Ne.symm hc)
      simp only [hm, List.reverse_cons, List.append_assoc, List.singleton_append]

/-- How the reader reads what was written. -/
theorem readsAs_valueText {v : Toml} (hv : Formats v) : Toml.ReadsAs (valueText v) (reading v) := by
  cases v with
  | bool b => exact Toml.readsAs_bool b
  | int i => exact Toml.readsAs_int hv
  | str s =>
    have hhead : (escape s).head? ≠ some (ch '"') := by
      cases s with
      | nil => simp [escape]
      | cons c s =>
        rw [escape_eq, List.flatMap_cons]
        rcases escapeChar_cases c with ⟨-, h⟩ | ⟨-, h⟩ | ⟨-, h⟩ | ⟨-, h⟩ | ⟨-, h⟩ | ⟨h1, -, -, h⟩
        all_goals rw [h]
        · show some (ch '\\') ≠ _
          decide
        · show some (ch '\\') ≠ _
          decide
        · show some (ch '\\') ≠ _
          decide
        · show some (ch '\\') ≠ _
          decide
        · show some (ch '\\') ≠ _
          decide
        · exact fun he => h1 (Option.some.inj he)
    have hread := Toml.readsAs_str (s := if deleteChar ∈ s then .error .decode else .ok s) hhead fun src => by
      rw [basicStr_escape]
      split_ifs <;> rfl
    have hmap : (if deleteChar ∈ s then .error .decode else .ok s : Except Toml.Error Str).map .str =
        reading (.str s) := by
      show _ = if deleteChar ∈ s then _ else _
      split_ifs <;> rfl
    rw [← hmap]
    exact hread
  | table items => exact hv.elim
  | other text => exact hv.elim

/-! ### Files -/

/-- Bare keys, none of them twice. -/
structure WellKeyed (obj : List (Str × Toml)) : Prop where
  scalars : scalarsOf obj ≠ []
  bare : ∀ m ∈ itemsOf obj, Toml.Line.BareKey m.1
  names : ∀ t ∈ tablesOf obj, Toml.Line.BareKey t.1
  unique : (obj.map Prod.fst).Nodup
  uniqueIn : ∀ t ∈ tablesOf obj, (t.2.map Prod.fst).Nodup

/-- The items of the document that is read. -/
def readItems (obj : List (Str × Toml)) : List (Str × Toml) :=
  scalarsOf obj ++ (tablesOf obj).map fun t => (t.1, .table t.2)

theorem tables_eq : ∀ obj : List (Str × Toml),
    (tablesOf obj).map (fun t => (t.1, Toml.table t.2)) = obj.filter fun m => isTable m.2
  | [] => rfl
  | (k, v) :: obj => by
    have ih := tables_eq obj
    cases v with
    | table items => exact congrArg ((k, Toml.table items) :: ·) ih
    | str s => exact ih
    | int i => exact ih
    | bool b => exact ih
    | other text => exact ih

theorem readItems_perm (obj : List (Str × Toml)) : (readItems obj).Perm obj := by
  rw [readItems, tables_eq, scalarsOf]
  refine List.perm_append_comm.trans ?_
  exact List.filter_append_perm (fun m : Str × Toml => isTable m.2) obj

section Files

variable {obj : List (Str × Toml)} {rest : Toml.Document → Str → Except Toml.Error (List (Str × Toml))}

theorem mem_linesOf {l : Toml.Line} (h : l ∈ linesOf obj) :
    l = .blank ∨ (∃ t ∈ tablesOf obj, l = .header t.1) ∨ ∃ m ∈ itemsOf obj, l = lineOf m := by
  rw [linesOf, List.mem_append, List.mem_map, List.mem_flatMap] at h
  rcases h with ⟨m, hm, rfl⟩ | ⟨t, ht, h⟩
  · exact .inr (.inr ⟨m, List.mem_append_left _ hm, rfl⟩)
  · rw [tableLinesOf, List.mem_cons, List.mem_cons, List.mem_map] at h
    rcases h with rfl | rfl | ⟨m, hm, rfl⟩
    · exact .inl rfl
    · exact .inr (.inl ⟨t, ht, rfl⟩)
    · exact .inr (.inr ⟨m, List.mem_append_right _ (List.mem_flatMap.mpr ⟨t, ht, hm⟩), rfl⟩)

theorem lineOf_mem_linesOf {m : Str × Toml} (h : m ∈ itemsOf obj) : lineOf m ∈ linesOf obj := by
  rw [itemsOf, List.mem_append, List.mem_flatMap] at h
  rw [linesOf, List.mem_append, List.mem_flatMap]
  rcases h with h | ⟨t, ht, h⟩
  · exact .inl (List.mem_map_of_mem h)
  · exact .inr ⟨t, ht, List.mem_cons_of_mem _ (List.mem_cons_of_mem _ (List.mem_map_of_mem h))⟩

theorem reads_linesOf (hk : WellKeyed obj) (hf : ∀ m ∈ itemsOf obj, Formats m.2) :
    ∀ l ∈ linesOf obj, l.Reads := by
  intro l hl
  rcases mem_linesOf hl with rfl | ⟨t, ht, rfl⟩ | ⟨m, hm, rfl⟩
  · trivial
  · exact hk.names t ht
  · exact ⟨hk.bare m hm, readsAs_valueText (hf m hm)⟩

theorem foldlM_linesOf (hk : WellKeyed obj) (hr : ∀ m ∈ itemsOf obj, reading m.2 = .ok m.2) :
    ((linesOf obj).foldlM Toml.Document.line {}).map Toml.Document.data = .ok (readItems obj) := by
  have hline {items : List (Str × Toml)} (h : ∀ m ∈ items, m ∈ itemsOf obj) :
      items.map lineOf = items.map (Toml.itemLine valueText) :=
    List.map_congr_left fun m hm => by rw [lineOf, hr m (h m hm)]; rfl
  have htables : (tablesOf obj).flatMap tableLinesOf = (tablesOf obj).flatMap (Toml.tableLines valueText) := by
    refine List.flatMap_congr fun t ht => ?_
    rw [tableLinesOf, hline fun m hm => List.mem_append_right _ (List.mem_flatMap.mpr ⟨t, ht, hm⟩)]
    rfl
  have hunique : ((readItems obj).map Prod.fst).Nodup := ((readItems_perm obj).map Prod.fst).nodup_iff.mpr hk.unique
  rw [readItems, List.map_append, List.map_map] at hunique
  rw [linesOf, hline fun m hm => List.mem_append_left _ hm, htables, List.foldlM_append]
  have htop := @Toml.foldlM_items valueText [] (scalarsOf obj) []
    (List.Nodup.of_append_left hunique)
  rw [show ({} : Toml.Document) = { data := [], header := none, declared := [] } from rfl, htop]
  exact Toml.foldlM_tables hunique (by simp) hk.uniqueIn

/-- A character of a file that is not of a string is none that `p` holds of. -/
theorem mem_valueText {p : CodePoint → Prop} (hp : ∀ c : CodePoint, 0x20 ≤ c.val ∧ c.val < 0x7F → ¬ p c) {v : Toml}
    (hv : Formats v) {c : CodePoint} (hc : c ∈ valueText v) (h : p c) : ∃ s, v = .str s ∧ ∃ x ∈ s, c ∈ escapeChar x := by
  have hdigit {n : ℕ} (hd : c ∈ Json.decimal n) : False := by
    have hdig := Toml.isDigit_of_mem_decimal hd
    simp only [Json.isDigit, Bool.and_eq_true, decide_eq_true_eq] at hdig
    exact hp c (by omega) h
  cases v with
  | bool b =>
    have hall : (lit "true" ++ lit "false").all (fun c => 0x20 ≤ c.val && c.val < 0x7F) = true := by decide
    have hin : c ∈ lit "true" ++ lit "false" := by
      unfold valueText at hc
      cases b
      · exact List.mem_append_right _ hc
      · exact List.mem_append_left _ hc
    exact absurd h (hp c (by simpa using List.all_eq_true.mp hall c hin))
  | int i =>
    cases i with
    | ofNat n => exact (hdigit (n := n) hc).elim
    | negSucc n =>
      rcases List.mem_cons.mp (show c ∈ ch '-' :: Json.decimal (n + 1) from hc) with rfl | hd
      · exact absurd h (hp _ (by decide))
      · exact (hdigit hd).elim
  | str s =>
    have hq : ¬ p (ch '"') := hp _ (by decide)
    have hin : c ∈ ch '"' :: escape s ++ [ch '"'] := hc
    rw [escape_eq, List.cons_append, List.mem_cons, List.mem_append, List.mem_singleton, List.mem_flatMap] at hin
    rcases hin with rfl | ⟨x, hx, hcx⟩ | rfl
    · exact absurd h hq
    · exact ⟨s, rfl, x, hx, hcx⟩
    · exact absurd h hq
  | table items => exact hv.elim
  | other text => exact hv.elim

theorem mem_textOf {p : CodePoint → Prop} (hp : ∀ c : CodePoint, 0x20 ≤ c.val ∧ c.val < 0x7F → ¬ p c)
    (hlf : ¬ p lineFeed) (hk : WellKeyed obj) (hf : ∀ m ∈ itemsOf obj, Formats m.2) {c : CodePoint}
    (hc : c ∈ textOf obj) (h : p c) : ∃ m ∈ itemsOf obj, ∃ s, m.2 = .str s ∧ ∃ x ∈ s, c ∈ escapeChar x := by
  have hkey {key : Str} (hb : Toml.Line.BareKey key) (hin : c ∈ key) : False := by
    have hbare := hb.2 c hin
    refine hp c ?_ h
    simp only [Toml.isBareKeyChar, Json.isDigit, Bool.or_eq_true, Bool.and_eq_true, decide_eq_true_eq] at hbare
    rcases hbare with (((hbare | hbare) | hbare) | rfl) | rfl
    · omega
    · omega
    · omega
    · decide
    · decide
  rw [textOf, List.mem_flatMap] at hc
  obtain ⟨l, hl, hc⟩ := hc
  rw [List.mem_append, List.mem_singleton] at hc
  rcases hc with hc | rfl
  · rcases mem_linesOf hl with rfl | ⟨t, ht, rfl⟩ | ⟨m, hm, rfl⟩
    · exact absurd hc List.not_mem_nil
    · have hin : c ∈ ch '[' :: t.1 ++ [ch ']'] := hc
      rw [List.cons_append, List.mem_cons, List.mem_append, List.mem_singleton] at hin
      rcases hin with rfl | hin | rfl
      · exact absurd h (hp _ (by decide))
      · exact (hkey (hk.names t ht) hin).elim
      · exact absurd h (hp _ (by decide))
    · have hin : c ∈ m.1 ++ lit " = " ++ valueText m.2 := hc
      rw [List.mem_append, List.mem_append] at hin
      rcases hin with (hin | hin) | hin
      · exact (hkey (hk.bare m hm) hin).elim
      · have hall : (lit " = ").all (fun c => 0x20 ≤ c.val && c.val < 0x7F) = true := by decide
        exact absurd h (hp c (by simpa using List.all_eq_true.mp hall c hin))
      · exact ⟨m, hm, mem_valueText hp (hf m hm) hin h⟩
  · exact absurd h hlf

/-- What a character becomes, other than itself, is printable. -/
theorem printable_of_mem_escapeChar {c x : CodePoint} (h : c ∈ escapeChar x) :
    (0x20 ≤ c.val ∧ c.val < 0x7F) ∨ (c = x ∧ (0x20 ≤ c.val ∨ c.val = 0x09)) := by
  have hlit {l : Str} (hl : l.all (fun c => 0x20 ≤ c.val && c.val < 0x7F) = true) (hin : c ∈ l) :
      0x20 ≤ c.val ∧ c.val < 0x7F := by simpa using List.all_eq_true.mp hl c hin
  rcases escapeChar_cases x with ⟨-, he⟩ | ⟨-, he⟩ | ⟨-, he⟩ | ⟨-, he⟩ | ⟨hx, he⟩ | ⟨-, -, hx, he⟩
  · exact .inl (hlit (by decide) (he ▸ h))
  · exact .inl (hlit (by decide) (he ▸ h))
  · exact .inl (hlit (by decide) (he ▸ h))
  · exact .inl (hlit (by decide) (he ▸ h))
  · rw [he, List.mem_append] at h
    rcases h with h | h
    · exact .inl (hlit (by decide) h)
    · have hall : (List.range 0x20).all (fun n => (hex4 n).all fun c => 0x20 ≤ c.val && c.val < 0x7F) = true := by
        decide +kernel
      exact .inl (hlit (List.all_eq_true.mp hall x.val (List.mem_range.mpr hx)) h)
  · rw [he, List.mem_singleton] at h
    exact .inr ⟨h, h ▸ hx⟩

theorem replaceCrLf_of_not_mem : ∀ {s : Str}, carriageReturn ∉ s → Toml.replaceCrLf s = s
  | [], _ => rfl
  | [c], _ => rfl
  | c :: e :: s, h => by
    rw [List.mem_cons, not_or] at h
    rw [Toml.replaceCrLf, if_neg fun hc => h.1 hc.1.symm, replaceCrLf_of_not_mem h.2]

theorem length_le_textOf (lines : List Toml.Line) :
    lines.length ≤ (lines.flatMap fun l => l.text ++ [lineFeed]).length := by
  induction lines with
  | nil => exact le_rfl
  | cons l lines ih =>
    rw [List.flatMap_cons, List.length_append, List.length_append, List.length_singleton, List.length_cons]
    omega

/-- **A file is read line by line.** -/
theorem loads_textOf (hk : WellKeyed obj) (hf : ∀ m ∈ itemsOf obj, Formats m.2) :
    Toml.loads rest (textOf obj) = ((linesOf obj).foldlM Toml.Document.line {}).map Toml.Document.data := by
  have hcr : carriageReturn ∉ textOf obj := by
    intro hc
    obtain ⟨m, -, s, -, x, -, hx⟩ := mem_textOf (p := (· = carriageReturn))
      (fun c hc he => by rw [he] at hc; exact absurd hc (by decide)) (by decide) hk hf hc rfl
    rcases printable_of_mem_escapeChar hx with hp | ⟨-, hp⟩
    · exact absurd hp (by decide)
    · exact absurd hp (by decide)
  have hlen := length_le_textOf (linesOf obj)
  have hfuel : (textOf obj).length + 1 = (textOf obj).length - (linesOf obj).length + 1 + (linesOf obj).length := by
    rw [textOf] at *
    omega
  unfold Toml.loads
  rw [replaceCrLf_of_not_mem hcr]
  dsimp only
  rw [hfuel]
  exact Toml.statements_lines (reads_linesOf hk hf)

/-- The text can be encoded if and only if every string can. -/
theorem noSurrogate_textOf (hk : WellKeyed obj) (hf : ∀ m ∈ itemsOf obj, Formats m.2) :
    (textOf obj).any Utf8.isSurrogate = false ↔
      ∀ m ∈ itemsOf obj, ∀ s, m.2 = .str s → ∀ c ∈ s, Utf8.isSurrogate c = false := by
  have hrange {c : CodePoint} (h : Utf8.isSurrogate c = true) : 0x7F < c.val := by
    simp only [Utf8.isSurrogate, Bool.and_eq_true, decide_eq_true_eq] at h
    omega
  rw [List.any_eq_false]
  constructor
  · intro h m hm s hs c hc
    by_contra hsur
    have hsur : Utf8.isSurrogate c = true := by simpa using hsur
    have hself : escapeChar c = [c] := by
      have := hrange hsur
      rcases escapeChar_cases c with ⟨rfl, -⟩ | ⟨rfl, -⟩ | ⟨rfl, -⟩ | ⟨rfl, -⟩ | ⟨hx, -⟩ | ⟨-, -, -, he⟩
      · exact absurd hsur (by decide)
      · exact absurd hsur (by decide)
      · exact absurd hsur (by decide)
      · exact absurd hsur (by decide)
      · omega
      · exact he
    refine h c ?_ hsur
    rw [textOf, List.mem_flatMap]
    refine ⟨lineOf m, lineOf_mem_linesOf hm, List.mem_append_left _ ?_⟩
    show c ∈ m.1 ++ lit " = " ++ valueText m.2
    rw [hs]
    show c ∈ m.1 ++ lit " = " ++ (ch '"' :: escape s ++ [ch '"'])
    have hin : c ∈ escape s := by
      rw [escape_eq, List.mem_flatMap]
      exact ⟨c, hc, by rw [hself]; exact List.mem_singleton_self c⟩
    simp [hin]
  · intro h c hc hsur
    obtain ⟨m, hm, s, hs, x, hx, hcx⟩ := mem_textOf (p := fun c => Utf8.isSurrogate c = true)
      (fun c hc hs => by have := hrange hs; omega) (by decide) hk hf hc hsur
    have hlt := hrange hsur
    rcases printable_of_mem_escapeChar hcx with hp | ⟨rfl, -⟩
    · omega
    · rw [h m hm s hs c hx] at hsur
      cases hsur

/-- What comes back as it was. -/
def Storable : Toml → Prop
  | .str s => ∀ c ∈ s, c ≠ deleteChar ∧ Utf8.isSurrogate c = false
  | v => Formats v

theorem formats_of_storable {v : Toml} (h : Storable v) : Formats v := by
  cases v with
  | str s => trivial
  | int i => exact h
  | bool b => trivial
  | table items => exact h
  | other text => exact h

/-- What is storable is read back. -/
theorem loads_of_storable (hk : WellKeyed obj) (h : ∀ m ∈ itemsOf obj, Storable m.2) :
    ∃ data, dumpToml obj = .ok data ∧ Utf8.decodeStrict data = some (textOf obj) ∧
      Toml.loads rest (textOf obj) = .ok (readItems obj) := by
  have hf (m : Str × Toml) (hm : m ∈ itemsOf obj) : Formats m.2 := formats_of_storable (h m hm)
  obtain ⟨data, hdata⟩ := Utf8.encode_isSome.mpr ((noSurrogate_textOf hk hf).mpr fun m hm s hs c hc => by
    have hstr := h m hm
    rw [hs] at hstr
    exact (hstr c hc).2)
  refine ⟨data, (dumpToml_eq_ok hk.scalars).mpr ⟨hf, hdata⟩, Utf8.decodeStrict_encode hdata, ?_⟩
  rw [loads_textOf hk hf]
  refine foldlM_linesOf hk fun m hm => ?_
  have hv := h m hm
  cases hm2 : m.2 with
  | str s =>
    rw [hm2] at hv
    exact if_neg fun hd => (hv _ hd).1 rfl
  | int i => rfl
  | bool b => rfl
  | table items => rfl
  | other text => rfl

/-- And only that is read at all. -/
theorem storable_of_loads (hk : WellKeyed obj) {data : Bytes} {text : Str} {items : List (Str × Toml)}
    (hdump : dumpToml obj = .ok data) (htext : Utf8.decodeStrict data = some text)
    (hloads : Toml.loads rest text = .ok items) : ∀ m ∈ itemsOf obj, Storable m.2 := by
  obtain ⟨hf, hdata⟩ := (dumpToml_eq_ok hk.scalars).mp hdump
  have hsur := (noSurrogate_textOf hk hf).mp (Utf8.encode_isSome.mp ⟨data, hdata⟩)
  rw [Utf8.decodeStrict_encode hdata, Option.some.injEq] at htext
  subst htext
  rw [loads_textOf hk hf] at hloads
  intro m hm
  have hform := hf m hm
  cases hm2 : m.2 with
  | str s =>
    intro c hc
    refine ⟨fun hd => ?_, hsur m hm s hm2 c hc⟩
    cases hfold : (linesOf obj).foldlM Toml.Document.line {} with
    | error e =>
      rw [hfold] at hloads
      cases hloads
    | ok d =>
      obtain ⟨v, hv⟩ := Toml.ok_of_foldlM_line hfold (lineOf_mem_linesOf hm)
      rw [hm2] at hv
      have hbad : reading (.str s) = .error .decode := if_pos (hd ▸ hc)
      rw [hbad] at hv
      cases hv
  | int i => rwa [hm2] at hform
  | bool b => trivial
  | table items => rwa [hm2] at hform
  | other text => rwa [hm2] at hform

end Files

/-! ### The settings -/

/-- The texts and integers that the validators take as they are, with nothing in
them that cannot be stored. -/
structure Savable (c : AppConfig) : Prop where
  path : ∀ s ∈ c.gpgBinaryPath, Storable (.str s)
  trust : ∀ t ∈ c.gpgBinaryTrustedHash, Storable (.str t.path) ∧ Storable (.str t.sha256) ∧
    (∀ i ∈ t.device, Storable (.int i)) ∧ ∀ i ∈ t.inode, Storable (.int i)

theorem mem_present {items : List (Str × Option Toml)} {m : Str × Toml} :
    m ∈ present items ↔ (m.1, some m.2) ∈ items := by
  rw [present, List.mem_filterMap]
  constructor
  · rintro ⟨⟨k, o⟩, hin, ho⟩
    obtain ⟨v, rfl, rfl⟩ := Option.map_eq_some_iff.mp ho
    exact hin
  · exact fun hin => ⟨_, hin, rfl⟩

theorem mem_tablesOf {obj : List (Str × Toml)} {t : Str × List (Str × Toml)} :
    t ∈ tablesOf obj ↔ (t.1, Toml.table t.2) ∈ obj := by
  rw [tablesOf, List.mem_filterMap]
  constructor
  · rintro ⟨⟨k, v⟩, hin, hv⟩
    cases v with
    | table items =>
      obtain rfl := Option.some.inj hv
      exact hin
    | str s => cases hv
    | int i => cases hv
    | bool b => cases hv
    | other text => cases hv
  · exact fun hin => ⟨_, hin, rfl⟩

/-- The tables of the settings. -/
theorem mem_tablesOf_modelDump {c : AppConfig} {t : Str × List (Str × Toml)} :
    t ∈ tablesOf c.modelDump ↔ t = (lit "audit", c.audit.modelDump) ∨
      ∃ trust ∈ c.gpgBinaryTrustedHash, t = (lit "gpg_binary_trusted_hash", trust.modelDump) := by
  obtain ⟨k, items⟩ := t
  have hpath (o : Option Str) : some (Toml.table items) ≠ o.map .str := by cases o <;> simp
  rw [mem_tablesOf, AppConfig.modelDump, mem_present]
  simp only [List.mem_cons, List.not_mem_nil, Prod.mk.injEq, Option.some.injEq, reduceCtorEq, hpath, and_false, false_or,
    or_false, Toml.table.injEq]
  rw [or_comm]
  refine or_congr Iff.rfl ?_
  cases c.gpgBinaryTrustedHash with
  | none => simp
  | some trust => simp

/-- The items of the settings that are not tables. -/
theorem mem_scalarsOf_modelDump {c : AppConfig} {m : Str × Toml} (h : m ∈ scalarsOf c.modelDump) :
    m.1 ∈ AppConfig.fieldNames := by
  have hall := List.all_eq_true.mp c.keys_modelDump.2 m (List.mem_of_mem_filter h)
  simpa using hall

theorem keys_trust (t : GPGBinaryTrust) : (t.modelDump.map Prod.fst).Nodup ∧
    t.modelDump.all (fun m => m.1 ∈ [lit "path", lit "sha256", lit "device", lit "inode"]) = true := by
  obtain ⟨path, sha256, device, inode⟩ := t
  cases device <;> cases inode <;> exact ⟨of_decide_eq_true rfl, rfl⟩

theorem wellKeyed_modelDump (c : AppConfig) : WellKeyed c.modelDump := by
  have hbare : ∀ key ∈ AppConfig.fieldNames ++ [lit "enabled", lit "hash_chain"] ++
      [lit "path", lit "sha256", lit "device", lit "inode"], Toml.Line.BareKey key := by
    have hall : (AppConfig.fieldNames ++ [lit "enabled", lit "hash_chain"] ++
        [lit "path", lit "sha256", lit "device", lit "inode"]).all
          (fun key => ! key.isEmpty && key.all Toml.isBareKeyChar) = true := by
      decide +kernel
    intro key hkey
    simpa [Toml.Line.BareKey] using List.all_eq_true.mp hall key hkey
  have htables {t : Str × List (Str × Toml)} (ht : t ∈ tablesOf c.modelDump) : t.1 ∈ AppConfig.fieldNames ∧
      (t.2.map Prod.fst).Nodup ∧ ∀ m ∈ t.2, m.1 ∈ [lit "enabled", lit "hash_chain"] ++
        [lit "path", lit "sha256", lit "device", lit "inode"] := by
    have hname := List.all_eq_true.mp c.keys_modelDump.2 _ (mem_tablesOf.mp ht)
    refine ⟨by simpa using hname, ?_⟩
    rcases mem_tablesOf_modelDump.mp ht with rfl | ⟨trust, -, rfl⟩
    · refine ⟨of_decide_eq_true rfl, fun m hm => List.mem_append_left _ ?_⟩
      have hall : c.audit.modelDump.all (fun m => m.1 ∈ [lit "enabled", lit "hash_chain"]) = true := rfl
      simpa using List.all_eq_true.mp hall m hm
    · obtain ⟨hnodup, hall⟩ := keys_trust trust
      refine ⟨hnodup, fun m hm => List.mem_append_right _ ?_⟩
      simpa using List.all_eq_true.mp hall m hm
  refine ⟨List.cons_ne_nil _ _, fun m hm => hbare m.1 ?_, fun t ht => hbare t.1 ?_, c.keys_modelDump.1,
    fun t ht => (htables ht).2.1⟩
  · rw [List.append_assoc]
    rcases List.mem_append.mp hm with hm | hm
    · exact List.mem_append_left _ (mem_scalarsOf_modelDump hm)
    · obtain ⟨t, ht, hm⟩ := List.mem_flatMap.mp hm
      exact List.mem_append_right _ ((htables ht).2.2 m hm)
  · rw [List.append_assoc]
    exact List.mem_append_left _ (htables ht).1

theorem mem_scalarsOf {obj : List (Str × Toml)} {m : Str × Toml} :
    m ∈ scalarsOf obj ↔ m ∈ obj ∧ isTable m.2 = false := by
  rw [scalarsOf, List.mem_filter, Bool.not_eq_true']

/-- A text of printable characters. -/
theorem storable_ascii {s : Str} (h : ∀ c ∈ s, c.val < 0x7F) : Storable (.str s) := by
  intro c hc
  have hlt := h c hc
  refine ⟨?_, ?_⟩
  · rintro rfl
    exact absurd hlt (by decide)
  · rw [← Bool.not_eq_true]
    simp only [Utf8.isSurrogate, Bool.and_eq_true, decide_eq_true_eq]
    omega

theorem storable_lit {s : Str} (h : s.all (fun c => c.val < 0x7F) = true) : Storable (.str s) :=
  storable_ascii fun c hc => by simpa using List.all_eq_true.mp h c hc

theorem storable_small {i : ℤ} (h : 0 ≤ i ∧ i ≤ 3600) : Storable (.int i) := by
  show (Nat.digits 10 i.natAbs).length ≤ Json.maxStrDigits
  have hle : (Nat.digits 10 i.natAbs).length ≤ 4 := (Nat.digits_length_le_iff (by decide) _).mpr (by omega)
  exact hle.trans (by decide)

theorem storable_trust {t : GPGBinaryTrust} : (∀ m ∈ t.modelDump, Storable m.2) ↔
    Storable (.str t.path) ∧ Storable (.str t.sha256) ∧ (∀ i ∈ t.device, Storable (.int i)) ∧
      ∀ i ∈ t.inode, Storable (.int i) := by
  obtain ⟨path, sha256, device, inode⟩ := t
  cases device <;> cases inode <;> simp [GPGBinaryTrust.modelDump, present]

/-- The values of the settings, but for those that may be missing. -/
theorem storable_modelDump {types : ConfigTypes} {c : AppConfig} (hc : c.Accepts types) :
    (∀ m ∈ itemsOf c.modelDump, Storable m.2) ↔ Savable c := by
  constructor
  · intro h
    refine ⟨fun s hs => ?_, fun t ht => storable_trust.mp fun m hm => ?_⟩
    · refine h (lit "gpg_binary_path", .str s) (List.mem_append_left _ (mem_scalarsOf.mpr ⟨mem_present.mpr ?_, rfl⟩))
      rw [Option.mem_def.mp hs]
      simp
    · refine h m (List.mem_append_right _ (List.mem_flatMap.mpr ⟨_, mem_tablesOf_modelDump.mpr (.inr ⟨t, ht, rfl⟩), hm⟩))
  · intro h m hm
    rcases List.mem_append.mp hm with hm | hm
    · obtain ⟨hm, htable⟩ := mem_scalarsOf.mp hm
      obtain ⟨k, v⟩ := m
      have hin := mem_present.mp hm
      simp only [List.mem_cons, List.not_mem_nil, or_false, Prod.mk.injEq, Option.some.injEq] at hin
      rcases hin with ⟨-, rfl⟩ | ⟨-, rfl⟩ | ⟨-, rfl⟩ | ⟨-, hv⟩ | ⟨-, hv⟩ | ⟨-, rfl⟩ | ⟨-, rfl⟩ | ⟨-, rfl⟩ | ⟨-, rfl⟩ |
        ⟨-, rfl⟩ | ⟨-, rfl⟩ | ⟨-, rfl⟩ | ⟨-, rfl⟩
      · exact storable_ascii fun x hx => hc.locale_printable hx
      · exact storable_lit (by cases c.appearance <;> rfl)
      · exact storable_lit (by cases c.lastOpenPage <;> rfl)
      · obtain ⟨s, hs, rfl⟩ := Option.map_eq_some_iff.mp hv.symm
        exact h.path s hs
      · obtain ⟨t, -, rfl⟩ := Option.map_eq_some_iff.mp hv.symm
        cases htable
      · exact storable_lit (by cases c.cipher <;> rfl)
      · exact storable_lit (by cases c.kdfProfile <;> rfl)
      · exact storable_small hc.clipboard
      · exact storable_small ⟨by have := hc.reminder.1; omega, by have := hc.reminder.2; omega⟩
      · trivial
      · trivial
      · trivial
      · cases htable
    · obtain ⟨t, ht, hm⟩ := List.mem_flatMap.mp hm
      rcases mem_tablesOf_modelDump.mp ht with rfl | ⟨trust, htrust, rfl⟩
      · rcases List.mem_cons.mp hm with rfl | hm
        · trivial
        · rw [List.mem_singleton.mp hm]
          trivial
      · exact storable_trust.mpr (h.trust trust htrust) m hm

section SaveAndLoad

variable {types : ConfigTypes} {rest : Toml.Document → Str → Except Toml.Error (List (Str × Toml))} {c : AppConfig}

/-- A file that was saved is parsed if and only if its settings are storable, and
then gives them back. -/
theorem parse_dumpToml (hc : c.Accepts types) {config : AppConfig} :
    (∃ data, dumpToml c.modelDump = .ok data ∧ parse types rest data = .ok config) ↔ Savable c ∧ config = c := by
  have hk := wellKeyed_modelDump c
  constructor
  · rintro ⟨data, hdump, hparse⟩
    unfold parse at hparse
    split at hparse
    · cases hparse
    · next text htext =>
      split at hparse
      · cases hparse
      · cases hparse
      · next items hloads =>
        have hstore := storable_of_loads hk hdump htext hloads
        obtain ⟨data', hdump', htext', hloads'⟩ := @loads_of_storable _ rest hk hstore
        rw [hdump, Except.ok.injEq] at hdump'
        rw [← hdump', htext, Option.some.injEq] at htext'
        rw [← htext', hloads, Except.ok.injEq] at hloads'
        refine ⟨(storable_modelDump hc).mp hstore, ?_⟩
        rw [hloads', AppConfig.modelValidate_modelDump hc (readItems_perm _)] at hparse
        exact (Except.ok.inj hparse).symm
  · rintro ⟨hs, rfl⟩
    obtain ⟨data, hdump, htext, hloads⟩ := @loads_of_storable _ rest hk ((storable_modelDump hc).mpr hs)
    refine ⟨data, hdump, ?_⟩
    unfold parse
    rw [htext]
    dsimp only
    rw [hloads]
    dsimp only
    rw [AppConfig.modelValidate_modelDump hc (readItems_perm _)]

theorem run_save {s : Option Entry} (hs : ∀ leads, s ≠ some (.link leads)) : (save c).run s =
    match dumpToml c.modelDump with
    | .ok data => .ok () (some (.file 0o600 data))
    | .error e => .error e s := by
  rcases s with _ | leads | ⟨mode, data⟩
  · unfold save
    cases dumpToml c.modelDump <;> rfl
  · exact absurd rfl (hs leads)
  · unfold save
    cases dumpToml c.modelDump <;> rfl

/-- A file that nobody else can write is parsed. -/
theorem run_load (data : Bytes) : (load types rest).run (some (.file 0o600 data)) =
    match parse types rest data with
    | .ok config => .ok config (some (.file 0o600 data))
    | .error e => .error e (some (.file 0o600 data)) := by
  have hparse : (load types rest).run (some (.file 0o600 data)) =
      (Program.ofExcept (parse types rest data)).run (some (.file 0o600 data)) := rfl
  rw [hparse]
  cases parse types rest data <;> rfl

/-- A load after a save, where there is no link in the way. -/
theorem run_save_load {s s' : Option Entry} (hs : ∀ leads, s ≠ some (.link leads)) {config : AppConfig} :
    (save c >>= fun _ => load types rest).run s = .ok config s' ↔
      ∃ data, dumpToml c.modelDump = .ok data ∧ parse types rest data = .ok config ∧ s' = some (.file 0o600 data) := by
  rw [EStateM.run_bind, run_save hs]
  cases dumpToml c.modelDump with
  | error e => exact iff_of_false (fun h => by cases h) (by rintro ⟨data, h, -⟩; cases h)
  | ok data =>
    dsimp only
    rw [run_load]
    cases hparse : parse types rest data with
    | error e =>
      refine iff_of_false (fun h => by cases h) ?_
      rintro ⟨data', hd, hp, -⟩
      obtain rfl := Except.ok.inj hd
      rw [hparse] at hp
      cases hp
    | ok config' =>
      constructor
      · intro h
        cases h
        exact ⟨data, rfl, hparse, rfl⟩
      · rintro ⟨data', hd, hp, rfl⟩
        obtain rfl := Except.ok.inj hd
        rw [hparse] at hp
        obtain rfl := Except.ok.inj hp
        rfl

/-- **What has been saved is loaded again** if and only if it can be stored, and no
link is in the way. -/
theorem loads_saved (hc : c.Accepts types) {s : Option Entry} :
    (∃ s', (save c >>= fun _ => load types rest).run s = .ok c s') ↔
      (∀ leads, s ≠ some (.link leads)) ∧ Savable c := by
  by_cases hs : ∀ leads, s ≠ some (.link leads)
  · simp only [run_save_load hs]
    rw [and_iff_right hs]
    constructor
    · rintro ⟨s', data, hdump, hparse, -⟩
      exact ((parse_dumpToml hc).mp ⟨data, hdump, hparse⟩).1
    · intro h
      obtain ⟨data, hdump, hparse⟩ := (@parse_dumpToml types rest c hc _).mpr ⟨h, rfl⟩
      exact ⟨_, data, hdump, hparse, rfl⟩
  · refine iff_of_false ?_ fun h => hs h.1
    rintro ⟨s', h⟩
    rw [not_forall] at hs
    obtain ⟨leads, hl⟩ := hs
    rw [not_ne_iff] at hl
    subst hl
    cases h

end SaveAndLoad

/-! ### Two files -/

theorem val_shift {n : ℕ} (h : n < 0x80) : (Fin.ofNat 0x110000 n).val = n := Nat.mod_eq_of_lt (by omega)

theorem asciiLower_eq_hyphen {c : CodePoint} (h : asciiLower c = ch '-') : c = ch '-' := by
  unfold asciiLower at h
  split_ifs at h with hu
  · simp only [isAsciiUpper, Bool.and_eq_true, decide_eq_true_eq] at hu
    have hv := congrArg Fin.val h
    rw [val_shift (by omega), show (ch '-').val = 0x2D from rfl] at hv
    omega
  · exact h

theorem asciiUpper_eq_hyphen {c : CodePoint} (h : asciiUpper c = ch '-') : c = ch '-' := by
  unfold asciiUpper at h
  split_ifs at h with hl
  · simp only [isAsciiLower, Bool.and_eq_true, decide_eq_true_eq] at hl
    have hv := congrArg Fin.val h
    rw [val_shift (by omega), show (ch '-').val = 0x2D from rfl] at hv
    omega
  · exact h

theorem isAsciiLower_asciiUpper (c : CodePoint) : isAsciiLower (asciiUpper c) = false := by
  unfold asciiUpper
  split_ifs with hl
  · simp only [isAsciiLower, Bool.and_eq_true, decide_eq_true_eq] at hl
    rw [isAsciiLower, val_shift (by omega), ← Bool.not_eq_true]
    simp only [Bool.and_eq_true, decide_eq_true_eq]
    omega
  · simpa using hl

/-- The maps of ASCII letters. -/
def sampleTypes : ConfigTypes where
  lower s := s.map asciiLower
  upper s := s.map asciiUpper
  int
    | .int i => some i
    | .bool b => some b.toNat
    | _ => none
  bool
    | .bool b => some b
    | .int i => if i = 0 then some false else if i = 1 then some true else none
    | _ => none
  lower_ascii _ _ := rfl
  upper_ascii _ _ := rfl
  upper_not_lower s c hc := by
    obtain ⟨x, -, rfl⟩ := List.mem_map.mp hc
    exact isAsciiLower_asciiUpper x
  hyphen_lower s hs := by
    obtain ⟨x, hx, he⟩ := List.mem_map.mp hs
    exact asciiLower_eq_hyphen he ▸ hx
  hyphen_upper s hs := by
    obtain ⟨x, hx, he⟩ := List.mem_map.mp hs
    exact asciiUpper_eq_hyphen he ▸ hx
  int_int _ := rfl
  bool_bool _ := rfl

def noRest (_ : Toml.Document) (_ : Str) : Except Toml.Error (List (Str × Toml)) := .error .decode

/-- Settings with a binary that the user has approved. -/
def sampleConfig : AppConfig where
  locale := lit "pt-BR"
  gpgBinaryPath := some (lit "C:\\Program Files\\\"GnuPG\"\\gpg.exe")
  gpgBinaryTrustedHash := some { path := lit "/opt/gpg\n", sha256 := lit "ab", inode := some (-3) }

theorem loads_saved_sample :
    ∃ s', (save sampleConfig >>= fun _ => load sampleTypes noRest).run none = .ok sampleConfig s' := by
  have hlocale : validateLocale sampleTypes (lit "pt_br") = some sampleConfig.locale := by decide +kernel
  refine (@loads_saved sampleTypes noRest sampleConfig ⟨.inr ⟨_, hlocale⟩, by decide, by decide⟩ none).mpr
    ⟨by simp, ?_, ?_⟩
  · rintro s ⟨rfl⟩
    exact storable_lit rfl
  · rintro t ⟨rfl⟩
    exact ⟨storable_lit rfl, storable_lit rfl, by simp, by simp [Storable, Formats, Json.maxStrDigits]⟩

/-- A path with a delete character. -/
def deletePath : AppConfig := { gpgBinaryPath := some (lit "/opt/gpg" ++ [deleteChar]) }

/-- The path is accepted and saved, and the file is refused. -/
theorem not_loads_saved : deletePath.Accepts sampleTypes ∧
    ∃ s', (save deletePath >>= fun _ => load sampleTypes noRest).run none = .error .configServiceError s' := by
  have hrun : (match (save deletePath >>= fun _ => load sampleTypes noRest).run none with
      | .ok _ _ => false
      | .error e _ => e = .configServiceError) = true := by
    decide +kernel
  refine ⟨⟨.inl rfl, by decide, by decide⟩, ?_⟩
  split at hrun
  · cases hrun
  · next e s' h => exact ⟨s', by rw [h, of_decide_eq_true hrun]⟩

end ConfigService
end GpgMeister
