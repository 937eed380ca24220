/-
# Text, bytes and ways to cut them

Bytes are lists of octets, text is a list of code points: a code point is a
number below 0x110000, surrogates included, as in the strings of the modelled
language. A string is cut into lines at every line boundary (`splitlines`),
or into fields at white space (`fields`); cutting at a larger class of
separators refines the cut at a smaller one (`splitOnP_flatMap`), and a reader
of lines that finds nothing in an empty line cannot tell `splitlines` from the
cut at every boundary (`flatMap_splitlines`).
-/
import Mathlib.Data.List.DropRight
import Mathlib.Tactic

namespace GpgMeister

abbrev Bytes := List UInt8

/-- A Unicode code point, a surrogate or not. -/
abbrev CodePoint := Fin 0x110000

abbrev Str := List CodePoint

instance neZero_codePoints : NeZero 0x110000 := ⟨by decide⟩
instance lawfulBEq_codePoint : LawfulBEq CodePoint := inferInstance
instance lawfulBEq_str : LawfulBEq Str := inferInstance

/-- The code point of a character. -/
def codePoint (c : Char) : CodePoint :=
  ⟨c.toNat, by
    rcases c.valid with h | h
    · exact lt_trans h (by decide)
    · exact h.2⟩

/-- The text of a literal. -/
def lit (s : String) : Str := s.toList.map codePoint

/-- The octets of an ASCII literal. -/
def ascii (s : String) : Bytes := s.toList.map fun c => c.toNat.toUInt8

def lineFeed : CodePoint := 0x0A
def carriageReturn : CodePoint := 0x0D

/-- White space, as `str.split` and `str.strip` read it. -/
def isSpace (c : CodePoint) : Bool :=
  (0x09 ≤ c.val && c.val ≤ 0x0D) || (0x1C ≤ c.val && c.val ≤ 0x20) || c.val = 0x85 || c.val = 0xA0 ||
    c.val = 0x1680 || (0x2000 ≤ c.val && c.val ≤ 0x200A) || c.val = 0x2028 || c.val = 0x2029 ||
    c.val = 0x202F || c.val = 0x205F || c.val = 0x3000

/-- The characters at which `str.splitlines` ends a line. -/
def isLineBoundary (c : CodePoint) : Bool :=
  (0x0A ≤ c.val && c.val ≤ 0x0D) || (0x1C ≤ c.val && c.val ≤ 0x1E) || c.val = 0x85 || c.val = 0x2028 ||
    c.val = 0x2029

theorem isSpace_of_isLineBoundary {c : CodePoint} (h : isLineBoundary c = true) : isSpace c = true := by
  simp only [isLineBoundary, isSpace, Bool.or_eq_true, Bool.and_eq_true, decide_eq_true_eq] at h ⊢
  omega

/-! ### Cuts -/

section Cuts

variable {α β : Type} {p q : α → Bool}

/-- A cut at fewer separators, cut again, is the cut at all of them. -/
theorem splitOnP_flatMap (h : ∀ x, q x = true → p x = true) :
    ∀ s : List α, (s.splitOnP q).flatMap (List.splitOnP p) = s.splitOnP p
  | [] => by simp
  | c :: r => by
    have ih := splitOnP_flatMap h r
    rw [List.splitOnP_cons_eq_if_modifyHead, List.splitOnP_cons_eq_if_modifyHead]
    by_cases hq : q c = true
    · rw [if_pos hq, if_pos (h c hq), List.flatMap_cons, List.splitOnP_nil, ih]
      rfl
    · rw [if_neg hq]
      obtain ⟨x, xs, hx⟩ := List.exists_cons_of_ne_nil (List.splitOnP_ne_nil q r)
      rw [hx, List.flatMap_cons] at ih
      rw [hx, List.modifyHead_cons, List.flatMap_cons, List.splitOnP_cons_eq_if_modifyHead, ← ih]
      split
      · rfl
      · obtain ⟨y, ys, hy⟩ := List.exists_cons_of_ne_nil (List.splitOnP_ne_nil p x)
        rw [hy]
        rfl

/-- If a reader `f` never finds less in a part than `g`, the two find the same
in all parts together only if they do in each. -/
theorem flatMap_eq_iff {f g : α → List β} :
    ∀ {l : List α}, (∀ x ∈ l, (g x).length ≤ (f x).length) →
      (l.flatMap f = l.flatMap g ↔ ∀ x ∈ l, f x = g x)
  | [], _ => by simp
  | x :: l, h => by
    have hl : ∀ y ∈ l, (g y).length ≤ (f y).length := fun y hy => h y (List.mem_cons_of_mem _ hy)
    have hx := h x List.mem_cons_self
    rw [List.flatMap_cons, List.flatMap_cons, List.forall_mem_cons, ← flatMap_eq_iff hl]
    constructor
    · intro he
      have hlen : (l.flatMap g).length ≤ (l.flatMap f).length := by
        rw [List.length_flatMap, List.length_flatMap]
        exact List.sum_le_sum hl
      have := congrArg List.length he
      simp only [List.length_append] at this
      exact List.append_inj he (by omega)
    · rintro ⟨h1, h2⟩
      rw [h1, h2]

/-- What contains no separator stays in one part. -/
theorem splitOnP_append {a : List α} (h : ∀ x ∈ a, p x = false) (s : List α) :
    (a ++ s).splitOnP p = (s.splitOnP p).modifyHead (a ++ ·) := by
  induction a with
  | nil =>
    obtain ⟨l, ls, hl⟩ := List.exists_cons_of_ne_nil (List.splitOnP_ne_nil p s)
    rw [List.nil_append, hl]
    rfl
  | cons c a ih =>
    have ih := ih fun x hx => h x (List.mem_cons_of_mem _ hx)
    rw [List.cons_append, List.splitOnP_cons_eq_if_modifyHead, if_neg (by simp [h c]), ih]
    obtain ⟨l, ls, hl⟩ := List.exists_cons_of_ne_nil (List.splitOnP_ne_nil p s)
    rw [hl]
    rfl

/-- What is appended to a text goes on from its last part. -/
theorem splitOnP_append_of_eq (r : List α) : ∀ {s t : List α} {ls : List (List α)},
    s.splitOnP p = ls ++ [t] → (s ++ r).splitOnP p = ls ++ (t ++ r).splitOnP p
  | [], t, ls, h => by
    rw [List.splitOnP_nil, List.singleton_eq_append_iff] at h
    rcases h with ⟨rfl, h⟩ | ⟨_, h⟩
    · cases h
      rfl
    · cases h
  | c :: s, t, ls, h => by
    obtain ⟨ls', t', h'⟩ := (List.eq_nil_or_concat' (s.splitOnP p)).resolve_left (List.splitOnP_ne_nil p s)
    have ih := splitOnP_append_of_eq r h'
    rw [List.cons_append, List.splitOnP_cons_eq_if_modifyHead, ih]
    rw [List.splitOnP_cons_eq_if_modifyHead, h'] at h
    split_ifs at h ⊢ with hc
    · obtain ⟨rfl, ht⟩ := List.append_inj' (show ([] :: ls') ++ [t'] = ls ++ [t] from h) rfl
      cases ht
      rfl
    · cases ls' with
      | nil =>
        obtain ⟨rfl, ht⟩ := List.append_inj' (show [] ++ [c :: t'] = ls ++ [t] from h) rfl
        cases ht
        rw [List.cons_append, List.splitOnP_cons_eq_if_modifyHead, if_neg hc]
        rfl
      | cons l ls' =>
        obtain ⟨rfl, ht⟩ := List.append_inj' (show ((c :: l) :: ls') ++ [t'] = ls ++ [t] from h) rfl
        cases ht
        rfl

/-- The first part is what comes before the first separator. -/
theorem prefix_of_splitOnP : ∀ {s l : List α} {ls : List (List α)}, s.splitOnP p = l :: ls → l <+: s
  | [], l, ls, h => by
    rw [List.splitOnP_nil] at h
    cases h
    exact List.nil_prefix
  | c :: s, l, ls, h => by
    rw [List.splitOnP_cons_eq_if_modifyHead] at h
    obtain ⟨x, xs, hx⟩ := List.exists_cons_of_ne_nil (List.splitOnP_ne_nil p s)
    split at h
    · cases h
      exact List.nil_prefix
    · rw [hx, List.modifyHead_cons] at h
      cases h
      exact List.cons_prefix_cons.mpr ⟨rfl, prefix_of_splitOnP hx⟩

/-- A part has no separator. -/
theorem not_of_mem_splitOnP : ∀ {s l : List α}, l ∈ s.splitOnP p → ∀ c ∈ l, p c = false
  | [], l, h, c, hc => by
    rw [List.splitOnP_nil, List.mem_singleton] at h
    rw [h] at hc
    exact absurd hc List.not_mem_nil
  | d :: s, l, h, c, hc => by
    rw [List.splitOnP_cons_eq_if_modifyHead] at h
    split_ifs at h with hd
    · rcases List.mem_cons.mp h with rfl | h
      · exact absurd hc List.not_mem_nil
      · exact not_of_mem_splitOnP h c hc
    · obtain ⟨x, xs, hx⟩ := List.exists_cons_of_ne_nil (List.splitOnP_ne_nil p s)
      have hmem {l : List α} (hl : l ∈ x :: xs) : ∀ c ∈ l, p c = false := not_of_mem_splitOnP (by rw [hx]; exact hl)
      rw [hx, List.modifyHead_cons] at h
      rcases List.mem_cons.mp h with rfl | h
      · rcases List.mem_cons.mp hc with rfl | hc
        · exact Bool.eq_false_iff.mpr hd
        · exact hmem List.mem_cons_self c hc
      · exact hmem (List.mem_cons_of_mem _ h) c hc

end Cuts

/-! ### Lines -/

/-- `str.splitlines()`: `\r\n` ends one line, and no empty line follows the
last boundary. -/
def splitlines : Str → List Str
  | [] => []
  | [c] => if isLineBoundary c then [[]] else [[c]]
  | c :: d :: r =>
    if isLineBoundary c then
      if c = carriageReturn ∧ d = lineFeed then [] :: splitlines r else [] :: splitlines (d :: r)
    else
      match splitlines (d :: r) with
      | [] => [[c]]
      | l :: ls => (c :: l) :: ls

/-- The first line is the first part of the cut at every boundary, and the
other lines are the other parts but for empty ones. -/
theorem splitlines_cases {β : Type} (f : Str → List β) (hf : f [] = []) : ∀ s : Str, s = [] ∨
    ∃ l ls ps, splitlines s = l :: ls ∧ s.splitOnP isLineBoundary = l :: ps ∧
      ls.flatMap f = ps.flatMap f
  | [] => .inl rfl
  | [c] => by
    right
    rw [List.splitOnP_cons_eq_if_modifyHead, splitlines]
    split_ifs
    · exact ⟨[], [], [[]], rfl, by simp, by simp [hf]⟩
    · exact ⟨[c], [], [], rfl, by simp, rfl⟩
  | c :: d :: r => by
    right
    have flat : ∀ s : Str, (s = [] ∨ ∃ l ls ps, splitlines s = l :: ls ∧
        s.splitOnP isLineBoundary = l :: ps ∧ ls.flatMap f = ps.flatMap f) →
        (splitlines s).flatMap f = (s.splitOnP isLineBoundary).flatMap f := by
      rintro s (rfl | ⟨l, ls, ps, h1, h2, h3⟩)
      · simp [splitlines, hf]
      · rw [h1, h2, List.flatMap_cons, List.flatMap_cons, h3]
    rw [List.splitOnP_cons_eq_if_modifyHead, splitlines]
    by_cases hc : isLineBoundary c = true
    · rw [if_pos hc, if_pos hc]
      by_cases hcd : c = carriageReturn ∧ d = lineFeed
      · rw [if_pos hcd]
        refine ⟨[], splitlines r, _, rfl, rfl, ?_⟩
        rw [List.splitOnP_cons_eq_if_modifyHead, if_pos (by rw [hcd.2]; decide), List.flatMap_cons, hf]
        exact flat r (splitlines_cases f hf r)
      · rw [if_neg hcd]
        exact ⟨[], _, _, rfl, rfl, flat _ (splitlines_cases f hf (d :: r))⟩
    · rw [if_neg hc, if_neg hc]
      rcases splitlines_cases f hf (d :: r) with h | ⟨l, ls, ps, h1, h2, h3⟩
      · cases h
      · exact ⟨c :: l, ls, ps, by rw [h1], by rw [h2]; rfl, h3⟩

/-- To a reader that finds nothing in an empty line, `splitlines` is the cut
at every line boundary. -/
theorem flatMap_splitlines {β : Type} (f : Str → List β) (hf : f [] = []) (s : Str) :
    (splitlines s).flatMap f = (s.splitOnP isLineBoundary).flatMap f := by
  rcases splitlines_cases f hf s with rfl | ⟨l, ls, ps, h1, h2, h3⟩
  · simp [splitlines, hf]
  · rw [h1, h2, List.flatMap_cons, List.flatMap_cons, h3]

theorem splitlines_crlf (s : Str) : splitlines (carriageReturn :: lineFeed :: s) = [] :: splitlines s := by
  rw [splitlines, if_pos (by decide), if_pos ⟨rfl, rfl⟩]

theorem splitlines_cons_boundary {c : CodePoint} (hc : isLineBoundary c = true) :
    ∀ {s : Str}, ¬ (c = carriageReturn ∧ s.head? = some lineFeed) → splitlines (c :: s) = [] :: splitlines s
  | [], _ => by simp [splitlines, hc]
  | d :: s, h => by
    rw [splitlines, if_pos hc, if_neg]
    simpa using h

theorem splitlines_cons_of_not {c : CodePoint} (hc : isLineBoundary c = false) :
    ∀ s : Str, splitlines (c :: s) = (c :: (splitlines s).headD []) :: (splitlines s).tail
  | [] => by simp [splitlines, hc]
  | d :: s => by
    rw [splitlines, if_neg (by simp [hc])]
    cases splitlines (d :: s) <;> rfl

theorem splitlines_ne_nil : ∀ {s : Str}, s ≠ [] → splitlines s ≠ []
  | [], h => absurd rfl h
  | c :: s, _ => by
    by_cases hc : isLineBoundary c = true
    · by_cases hcr : c = carriageReturn ∧ s.head? = some lineFeed
      · obtain ⟨rfl, hs⟩ := hcr
        obtain ⟨s', rfl⟩ := List.head?_eq_some_iff.mp hs
        rw [splitlines_crlf]
        exact List.cons_ne_nil _ _
      · rw [splitlines_cons_boundary hc hcr]
        exact List.cons_ne_nil _ _
    · rw [splitlines_cons_of_not (Bool.eq_false_iff.mpr hc)]
      exact List.cons_ne_nil _ _

/-- What ends with a line feed is cut into lines by itself. -/
theorem splitlines_append_lineFeed (r : Str) : ∀ a : Str,
    splitlines (a ++ lineFeed :: r) = splitlines (a ++ [lineFeed]) ++ splitlines r
  | [] => by
    have hlf : isLineBoundary lineFeed = true := by decide
    have hcr (s : Str) : ¬ (lineFeed = carriageReturn ∧ s.head? = some lineFeed) := fun h => absurd h.1 (by decide)
    rw [List.nil_append, List.nil_append, splitlines_cons_boundary hlf (hcr r), splitlines_cons_boundary hlf (hcr [])]
    rfl
  | [c] => by
    have ih := splitlines_append_lineFeed r []
    rw [List.nil_append, List.nil_append] at ih
    rw [List.cons_append, List.cons_append, List.nil_append, List.nil_append]
    by_cases hc : isLineBoundary c = true
    · by_cases hcr : c = carriageReturn
      · rw [hcr, splitlines_crlf, splitlines_crlf]
        rfl
      · rw [splitlines_cons_boundary hc fun h => hcr h.1, splitlines_cons_boundary hc fun h => hcr h.1, ih]
        rfl
    · have hc' := Bool.eq_false_iff.mpr hc
      rw [splitlines_cons_of_not hc', splitlines_cons_of_not hc', ih]
      rfl
  | c :: d :: a => by
    have ih := splitlines_append_lineFeed r (d :: a)
    have ih2 := splitlines_append_lineFeed r a
    have hne := splitlines_ne_nil (show (d :: a) ++ [lineFeed] ≠ [] by simp)
    rw [List.cons_append, show c :: d :: a ++ [lineFeed] = c :: (d :: a ++ [lineFeed]) from rfl]
    by_cases hc : isLineBoundary c = true
    · by_cases hcr : c = carriageReturn ∧ d = lineFeed
      · obtain ⟨rfl, rfl⟩ := hcr
        show splitlines (carriageReturn :: lineFeed :: (a ++ lineFeed :: r)) =
          splitlines (carriageReturn :: lineFeed :: (a ++ [lineFeed])) ++ _
        rw [splitlines_crlf, splitlines_crlf, ih2]
        rfl
      · have hcr' (s : Str) : ¬ (c = carriageReturn ∧ (d :: a ++ s).head? = some lineFeed) := by simpa using hcr
        rw [splitlines_cons_boundary hc (hcr' _), splitlines_cons_boundary hc (hcr' _), ih]
        rfl
    · have hc' := Bool.eq_false_iff.mpr hc
      rw [splitlines_cons_of_not hc', splitlines_cons_of_not hc', ih]
      obtain ⟨l, ls, hl⟩ := List.exists_cons_of_ne_nil hne
      rw [hl]
      rfl

/-- A line. -/
theorem splitlines_line : ∀ {l : Str}, (∀ c ∈ l, isLineBoundary c = false) → splitlines (l ++ [lineFeed]) = [l]
  | [], _ => rfl
  | c :: l, h => by
    rw [List.forall_mem_cons] at h
    rw [List.cons_append, splitlines_cons_of_not h.1, splitlines_line h.2]
    rfl

/-- The lines are parts of the cut at every boundary. -/
theorem splitlines_sublist : ∀ s : Str, (splitlines s).Sublist (s.splitOnP isLineBoundary)
  | [] => List.nil_sublist _
  | c :: s => by
    have ih := splitlines_sublist s
    rw [List.splitOnP_cons_eq_if_modifyHead]
    by_cases hc : isLineBoundary c = true
    · rw [if_pos hc]
      by_cases hcr : c = carriageReturn ∧ s.head? = some lineFeed
      · obtain ⟨rfl, hs⟩ := hcr
        obtain ⟨s', rfl⟩ := List.head?_eq_some_iff.mp hs
        rw [splitlines_crlf, List.splitOnP_cons_eq_if_modifyHead, if_pos (by decide)]
        exact ((splitlines_sublist s').cons []).cons_cons []
      · rw [splitlines_cons_boundary hc hcr]
        exact ih.cons_cons []
    · rw [if_neg hc, splitlines_cons_of_not (Bool.eq_false_iff.mpr hc)]
      rcases splitlines_cases (fun _ => ([] : List Unit)) rfl s with rfl | ⟨l, ls, ps, h1, h2, -⟩
      · exact List.Sublist.refl _
      · rw [h1, h2] at ih
        rw [h1, h2]
        exact (List.cons_sublist_cons.mp ih).cons_cons (c :: l)
termination_by s => s.length

/-- `part in text` -/
def contains (text part : Str) : Bool := text.tails.any part.isPrefixOf

/-- How often the part begins in the text, not counting where it begins within
the next `skip` characters, or within itself. -/
def countAfter (part : Str) : (skip : ℕ) → Str → ℕ
  | _, [] => 0
  | skip + 1, _ :: s => countAfter part skip s
  | 0, c :: s => if part.isPrefixOf (c :: s) then countAfter part (part.length - 1) s + 1 else countAfter part 0 s

/-- `text.count(part)`, of a part that is not empty. -/
def count (text part : Str) : ℕ := countAfter part 0 text

/-! ### Fields -/

/-- `str.split()`: the parts between white space that are not empty. -/
def fields (s : Str) : List Str := (s.splitOnP isSpace).filter (· ≠ [])

@[simp] theorem fields_nil : fields [] = [] := by simp [fields]

/-- The fields of a text are those of its lines. -/
theorem fields_eq_flatMap (s : Str) :
    fields s = (s.splitOnP isLineBoundary).flatMap fields := by
  unfold fields
  rw [← splitOnP_flatMap (fun _ => isSpace_of_isLineBoundary) s, List.filter_flatMap]

theorem fields_append_space {c : CodePoint} (hc : isSpace c = true) (a r : Str) :
    fields (a ++ c :: r) = fields a ++ fields r := by
  unfold fields
  rw [List.splitOnP_append_cons a r hc, List.filter_append]

theorem fields_eq_nil : ∀ {s : Str}, fields s = [] ↔ ∀ c ∈ s, isSpace c = true
  | [] => by simp
  | c :: s => by
    rw [List.forall_mem_cons]
    by_cases hc : isSpace c = true
    · have h : fields (c :: s) = fields s := fields_append_space hc [] s
      rw [h, fields_eq_nil, and_iff_right hc]
    · refine iff_of_false ?_ fun h => hc h.1
      rw [fields, List.splitOnP_cons_eq_if_modifyHead, if_neg hc]
      obtain ⟨l, ls, hl⟩ := List.exists_cons_of_ne_nil (List.splitOnP_ne_nil isSpace s)
      simp [hl]

/-- White space at the end is in no field. -/
theorem fields_append_of_space {w : Str} (h : ∀ c ∈ w, isSpace c = true) (a : Str) :
    fields (a ++ w) = fields a := by
  cases w with
  | nil => rw [List.append_nil]
  | cons c w =>
    rw [List.forall_mem_cons] at h
    rw [fields_append_space h.1, fields_eq_nil.mpr h.2, List.append_nil]

theorem fields_append_of_space_left {w : Str} (h : ∀ c ∈ w, isSpace c = true) (s : Str) :
    fields (w ++ s) = fields s := by
  induction w with
  | nil => rfl
  | cons c w ih =>
    rw [List.forall_mem_cons] at h
    exact (fields_append_space h.1 [] (w ++ s)).trans (ih h.2)

/-- A word is one field. -/
theorem fields_of_noSpace {s : Str} (hs : s ≠ []) (h : ∀ c ∈ s, isSpace c = false) : fields s = [s] := by
  rw [fields, List.splitOnP_eq_singleton h]
  simp [hs]

/-- `str.strip()`. -/
def strip (s : Str) : Str := (s.dropWhile isSpace).rdropWhile isSpace

theorem strip_strip (s : Str) : strip (strip s) = strip s := by
  have hstart : (strip s).dropWhile isSpace = strip s := by
    refine List.dropWhile_eq_self_iff.mpr fun hl hc => ?_
    obtain ⟨r, hr⟩ := List.rdropWhile_prefix isSpace (l := s.dropWhile isSpace)
    have hdrop : s.dropWhile isSpace = strip s ++ r := hr.symm
    have hlen : 0 < (s.dropWhile isSpace).length := by
      rw [hdrop, List.length_append]
      omega
    have hhead : (s.dropWhile isSpace)[0] = (strip s)[0] := by
      simp only [hdrop, List.getElem_append_left hl]
    have hno : ¬ isSpace (s.dropWhile isSpace)[0] = true := List.dropWhile_get_zero_not isSpace s hlen
    rw [hhead] at hno
    exact hno hc
  rw [strip, hstart, strip, List.rdropWhile_idempotent]

/-- White space around a text is in no field. -/
theorem fields_strip (s : Str) : fields (strip s) = fields s := by
  have h1 : ∀ c ∈ s.takeWhile isSpace, isSpace c = true := fun c hc => List.mem_takeWhile_imp hc
  have h2 : ∀ c ∈ (s.dropWhile isSpace).rtakeWhile isSpace, isSpace c = true := fun c hc =>
    List.mem_rtakeWhile_imp hc
  calc fields (strip s) = fields (strip s ++ (s.dropWhile isSpace).rtakeWhile isSpace) :=
        (fields_append_of_space h2 _).symm
    _ = fields (s.dropWhile isSpace) := by rw [strip, List.rdropWhile_append_rtakeWhile]
    _ = fields (s.takeWhile isSpace ++ s.dropWhile isSpace) := (fields_append_of_space_left h1 _).symm
    _ = fields s := by rw [List.takeWhile_append_dropWhile]

/-- Without white space, nothing is stripped. -/
theorem strip_of_noSpace {s : Str} (h : ∀ c ∈ s, isSpace c = false) : strip s = s := by
  have hd : s.dropWhile isSpace = s := by
    cases s with
    | nil => rfl
    | cons c s => rw [List.dropWhile_cons, h c List.mem_cons_self]; rfl
  rw [strip, hd]
  refine List.rdropWhile_eq_self_iff.mpr fun hl => ?_
  rw [h _ (List.getLast_mem hl)]
  simp

/-! ### Parts of a list -/

/-- No part has the separator. -/
theorem not_mem_of_mem_splitOn {α : Type} [DecidableEq α] {x : α} {s l : List α} (h : l ∈ s.splitOn x) : x ∉ l := by
  intro hx
  have := not_of_mem_splitOnP h x hx
  simp at this

theorem mem_of_mem_intercalate {α : Type} {x c : α} :
    ∀ {ls : List (List α)}, c ∈ [x].intercalate ls → c = x ∨ ∃ l ∈ ls, c ∈ l
  | [], h => absurd h List.not_mem_nil
  | [l], h => .inr ⟨l, List.mem_singleton_self l, by simpa using h⟩
  | l :: l' :: ls, h => by
    rw [List.intercalate_cons_cons, List.mem_append, List.mem_append] at h
    rcases h with (h | h) | h
    · exact .inr ⟨l, List.mem_cons_self, h⟩
    · exact .inl (List.mem_singleton.mp h)
    · exact (mem_of_mem_intercalate h).imp_right fun ⟨p, hp, hc⟩ => ⟨p, List.mem_cons_of_mem l hp, hc⟩

theorem intercalate_concat {α : Type} {x : α} {t : List α} :
    ∀ {ls : List (List α)}, [x].intercalate (ls ++ [t]) = (ls.map (· ++ [x])).flatten ++ t
  | [] => by simp
  | l :: ls => by
    obtain ⟨l', ls', h⟩ := List.exists_cons_of_ne_nil (show ls ++ [t] ≠ [] by simp)
    have ih : [x].intercalate (ls ++ [t]) = (ls.map (· ++ [x])).flatten ++ t := intercalate_concat
    rw [List.cons_append, h, List.intercalate_cons_cons, ← h, ih]
    simp

/-- A separator within. -/
theorem splitOn_eq_pair {α : Type} [DecidableEq α] {x : α} {s a b : List α} :
    s.splitOn x = [a, b] ↔ s = a ++ x :: b ∧ x ∉ a ∧ x ∉ b := by
  constructor
  · intro h
    have hs : [x].intercalate (s.splitOn x) = s := List.intercalate_splitOn x
    have hno {l : List α} (hl : l ∈ [a, b]) : x ∉ l := not_mem_of_mem_splitOn (by rw [h]; exact hl)
    rw [h, List.intercalate_cons_cons, List.intercalate_singleton] at hs
    refine ⟨?_, hno (by simp), hno (by simp)⟩
    rw [← hs, List.append_assoc, List.singleton_append]
  · rintro ⟨rfl, ha, hb⟩
    have h : [x].intercalate [a, b] = a ++ x :: b := by
      rw [List.intercalate_cons_cons, List.intercalate_singleton, List.append_assoc, List.singleton_append]
    rw [← h]
    exact List.splitOn_intercalate x (by simp [ha, hb]) (by simp)

end GpgMeister
