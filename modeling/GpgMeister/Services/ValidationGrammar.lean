/-
# The grammar of user IDs and expiry dates

The patterns of `services/validation.py` as regular expressions, and what the
validators accept. A pattern ends with `$`, which also matches in front of a
final line feed; and `date.fromisoformat` reads dates in more forms than the
one with hyphens.

* `spelled_iff`: exactly when the validators accept what is spelled.
-/
import GpgMeister.Lib.IsoDate
import GpgMeister.Lib.Pattern
import GpgMeister.Services.Validation

namespace GpgMeister
namespace Validation

open Pattern GPGService
open RegularExpression (char)

/-! ### Sets of characters -/

/-- `[first-last]` -/
def range (first last : CodePoint) : Str :=
  (List.range' first.val (last.val + 1 - first.val)).map (Fin.ofNat 0x110000)

theorem mem_range {first last c : CodePoint} : c ∈ range first last ↔ first ≤ c ∧ c ≤ last := by
  have hlast := last.isLt
  rw [range, List.mem_map, Fin.le_def, Fin.le_def]
  constructor
  · rintro ⟨n, hn, rfl⟩
    rw [List.mem_range'_1] at hn
    have hval : (Fin.ofNat 0x110000 n).val = n := Nat.mod_eq_of_lt (by omega)
    omega
  · rintro ⟨h1, h2⟩
    exact ⟨c.val, List.mem_range'_1.mpr (by omega), Fin.ext (Nat.mod_eq_of_lt c.isLt)⟩

/-- `[A-Za-z]` -/
def letters : Str := range (codePoint 'A') (codePoint 'Z') ++ range (codePoint 'a') (codePoint 'z')

/-- `[0-9]` -/
def digits : Str := range (codePoint '0') (codePoint '9')

/-- `[A-Za-z0-9]` -/
def alnum : Str := letters ++ digits

theorem isLetter_iff {c : CodePoint} : isLetter c = true ↔ c ∈ letters := by
  rw [letters, List.mem_append, mem_range, mem_range, isLetter, Bool.or_eq_true, isLower, isUpper, Bool.and_eq_true,
    Bool.and_eq_true, decide_eq_true_eq, decide_eq_true_eq, decide_eq_true_eq, decide_eq_true_eq, or_comm]
  exact Iff.rfl

theorem isDigit_iff {c : CodePoint} : Json.isDigit c = true ↔ c ∈ digits := by
  rw [digits, mem_range, Json.isDigit, Bool.and_eq_true, decide_eq_true_eq, decide_eq_true_eq]
  exact Iff.rfl

theorem isAlnum_iff {c : CodePoint} : isAlnum c = true ↔ c ∈ alnum := by
  rw [alnum, List.mem_append, isAlnum, Bool.or_eq_true, isLetter_iff, isDigit_iff]

/-! ### Patterns -/

/-- What may stand in front of the `@`, within. -/
def localInner : Str := alnum ++ lit "._%+-"

/-- What may stand in a label, within. -/
def labelInner : Str := alnum ++ lit "-"

def localPattern : RegularExpression CodePoint := word alnum localInner 62

def labelPattern : RegularExpression CodePoint := word alnum labelInner 61

/-- `[A-Za-z]{2,63}` -/
def topPattern : RegularExpression CodePoint := oneOf letters * (oneOf letters * atMost 61 (oneOf letters))

def domainPattern : RegularExpression CodePoint := many (labelPattern * char (codePoint '.')) * topPattern

/-- `_EMAIL_RE` -/
def emailPattern : RegularExpression CodePoint := localPattern * (char (codePoint '@') * domainPattern)

/-- What may stand in a name. -/
def nameInner : Str := alnum ++ lit " ._-"

/-- `_USER_NAME_RE` -/
def userNamePattern : RegularExpression CodePoint := oneOf alnum * atMost 63 (oneOf nameInner)

/-- `_EXPIRY_OFFSET_RE` -/
def expiryOffsetPattern : RegularExpression CodePoint :=
  oneOf (range (codePoint '1') (codePoint '9')) * ((oneOf digits).star * oneOf (lit "ymwd"))

/-- `$` -/
theorem matchesToEnd_iff {pattern : Str → Bool} {p : RegularExpression CodePoint}
    (h : ∀ s, pattern s = true ↔ s ∈ p.matches') {s : Str} :
    matchesToEnd pattern s = true ↔ MatchesToEnd p lineFeed s := by
  rw [matchesToEnd, Bool.or_eq_true, Bool.and_eq_true, decide_eq_true_eq, h, h, MatchesToEnd]
  refine or_congr_right ⟨fun ⟨hlast, hp⟩ => ⟨s.dropLast, hp, ?_⟩, ?_⟩
  · exact (List.dropLast_append_getLast? lineFeed hlast).symm
  · rintro ⟨t, ht, rfl⟩
    rw [List.getLast?_concat, List.dropLast_concat]
    exact ⟨rfl, ht⟩

theorem isLabel_iff {inner : CodePoint → Bool} {cs : Str} (hinner : ∀ c, inner c = true ↔ c ∈ cs)
    (hsub : ∀ c ∈ alnum, c ∈ cs) {n : ℕ} {s : Str} :
    isLabel inner (n + 2) s = true ↔ s ∈ (word alnum cs n).matches' := by
  have hends (o : Option CodePoint) : o.any isAlnum = true ↔ ∃ c ∈ alnum, o = some c := by
    cases o with
    | none => simp
    | some d => simp [isAlnum_iff]
  rw [mem_word hsub, isLabel, Bool.and_eq_true, Bool.and_eq_true, Bool.and_eq_true, decide_eq_true_eq, List.all_eq_true,
    hends, hends, and_assoc, and_assoc]
  simp only [hinner]

theorem isLocalPart_iff {s : Str} : isLocalPart s = true ↔ s ∈ localPattern.matches' := by
  have hinner (c : CodePoint) : (isAlnum c || c ∈ lit "._%+-") = true ↔ c ∈ localInner := by
    rw [Bool.or_eq_true, isAlnum_iff, decide_eq_true_eq, localInner, List.mem_append]
  exact isLabel_iff hinner fun c hc => List.mem_append_left _ hc

theorem isLabel_label_iff {s : Str} :
    isLabel (fun c => isAlnum c || c = codePoint '-') 63 s = true ↔ s ∈ labelPattern.matches' := by
  have hinner (c : CodePoint) : (isAlnum c || c = codePoint '-') = true ↔ c ∈ labelInner := by
    rw [Bool.or_eq_true, isAlnum_iff, decide_eq_true_eq, labelInner, List.mem_append]
    exact or_congr_right List.mem_singleton.symm
  exact isLabel_iff hinner fun c hc => List.mem_append_left _ hc

theorem mem_topPattern {s : Str} :
    s ∈ topPattern.matches' ↔ 2 ≤ s.length ∧ s.length ≤ 63 ∧ s.all isLetter = true := by
  rw [topPattern, mem_oneOf_mul]
  simp only [mem_oneOf_mul, mem_atMost_oneOf, List.all_eq_true, isLetter_iff]
  constructor
  · rintro ⟨c, hc, t, ⟨d, hd, r, ⟨hlen, hall⟩, rfl⟩, rfl⟩
    refine ⟨by simp, by simp; omega, ?_⟩
    rw [List.forall_mem_cons, List.forall_mem_cons]
    exact ⟨hc, hd, hall⟩
  · rintro ⟨h2, h63, hall⟩
    match s, h2, h63, hall with
    | c :: d :: r, _, h63, hall =>
      rw [List.forall_mem_cons, List.forall_mem_cons] at hall
      simp only [List.length_cons] at h63
      exact ⟨c, hall.1, d :: r, ⟨d, hall.2.1, r, ⟨by omega, hall.2.2⟩, rfl⟩, rfl⟩

theorem mem_of_mem_localPattern {l : Str} (h : l ∈ localPattern.matches') : ∀ c ∈ l, c ∈ localInner :=
  ((mem_word fun _ hc => List.mem_append_left _ hc).mp h).2.1

theorem mem_of_mem_labelPattern {l : Str} (h : l ∈ labelPattern.matches') : ∀ c ∈ l, c ∈ labelInner :=
  ((mem_word fun _ hc => List.mem_append_left _ hc).mp h).2.1

theorem mem_of_mem_topPattern {l : Str} (h : l ∈ topPattern.matches') : ∀ c ∈ l, c ∈ letters := fun c hc =>
  isLetter_iff.mp (List.all_eq_true.mp (mem_topPattern.mp h).2.2 c hc)

theorem mem_labelPattern_mul {l : Str} : l ∈ (labelPattern * char (codePoint '.')).matches' ↔
    ∃ w ∈ labelPattern.matches', l = w ++ [codePoint '.'] := by
  rw [RegularExpression.matches'_mul, RegularExpression.matches'_char, Language.mem_mul]
  constructor
  · rintro ⟨w, hw, b, rfl, rfl⟩
    exact ⟨w, hw, rfl⟩
  · rintro ⟨w, hw, rfl⟩
    exact ⟨w, hw, _, rfl, rfl⟩

/-- Labels that each end with a dot are what a split finds between dots. -/
theorem isDomain_iff {s : Str} : isDomain s = true ↔ s ∈ domainPattern.matches' := by
  have hdot : codePoint '.' ∉ labelInner ∧ codePoint '.' ∉ letters := by decide
  rw [domainPattern, RegularExpression.matches'_mul, Language.mem_mul, isDomain,
    Bool.and_eq_true, Bool.and_eq_true, Bool.and_eq_true,
    Bool.and_eq_true, decide_eq_true_eq, decide_eq_true_eq, decide_eq_true_eq, List.all_eq_true, and_assoc, and_assoc,
    and_assoc, ← mem_topPattern]
  simp only [isLabel_label_iff]
  constructor
  · rintro ⟨hlen, hlabels, htop⟩
    obtain ⟨init, top, hsplit⟩ :=
      (List.eq_nil_or_concat' (s.splitOn (codePoint '.'))).resolve_left (List.splitOn_ne_nil _ _)
    have hs : [codePoint '.'].intercalate (s.splitOn (codePoint '.')) = s := List.intercalate_splitOn _
    rw [hsplit, intercalate_concat] at hs
    rw [hsplit, List.length_append, List.length_singleton] at hlen
    rw [hsplit, List.dropLast_concat] at hlabels
    rw [hsplit, List.getLastD_concat] at htop
    refine ⟨_, mem_many.mpr ⟨init.map (· ++ [codePoint '.']), ?_, rfl, fun l hl => ?_⟩, top, htop, hs⟩
    · intro hnil
      rw [List.map_eq_nil_iff.mp hnil] at hlen
      simp at hlen
    · obtain ⟨w, hw, rfl⟩ := List.mem_map.mp hl
      exact mem_labelPattern_mul.mpr ⟨w, hlabels w hw, rfl⟩
  · rintro ⟨a, ha, top, htop, rfl⟩
    obtain ⟨L, hne, rfl, hL⟩ := mem_many.mp ha
    obtain ⟨init, hinit, rfl⟩ : ∃ init : List Str, (∀ w ∈ init, w ∈ labelPattern.matches') ∧
        L = init.map (· ++ [codePoint '.']) := by
      refine ⟨L.map List.dropLast, fun w hw => ?_, ?_⟩
      · obtain ⟨l, hl, rfl⟩ := List.mem_map.mp hw
        obtain ⟨w, hw, rfl⟩ := mem_labelPattern_mul.mp (hL l hl)
        rwa [List.dropLast_concat]
      · have hback : ∀ l ∈ L, l = l.dropLast ++ [codePoint '.'] := fun l hl => by
          obtain ⟨w, -, rfl⟩ := mem_labelPattern_mul.mp (hL l hl)
          rw [List.dropLast_concat]
        calc L = L.map id := (List.map_id L).symm
          _ = L.map fun l => l.dropLast ++ [codePoint '.'] := List.map_congr_left hback
          _ = (L.map List.dropLast).map (· ++ [codePoint '.']) := by
            rw [List.map_map]
            rfl
    have hsplit : ((init.map (· ++ [codePoint '.'])).flatten ++ top).splitOn (codePoint '.') = init ++ [top] := by
      rw [← intercalate_concat]
      refine List.splitOn_intercalate _ (fun l hl => ?_) (by simp)
      rcases List.mem_append.mp hl with hl | hl
      · exact fun hm => hdot.1 (mem_of_mem_labelPattern (hinit l hl) _ hm)
      · rw [List.mem_singleton.mp hl]
        exact fun hm => hdot.2 (mem_of_mem_topPattern htop _ hm)
    rw [hsplit, List.dropLast_concat, List.getLastD_concat]
    refine ⟨?_, hinit, htop⟩
    have hpos : init ≠ [] := fun h => hne (by rw [h]; rfl)
    have := List.length_pos_iff.mpr hpos
    rw [List.length_append, List.length_singleton]
    omega

theorem mem_of_mem_domainPattern {d : Str} (h : d ∈ domainPattern.matches') :
    ∀ c ∈ d, c ∈ labelInner ++ lit "." := by
  rw [domainPattern, RegularExpression.matches'_mul, Language.mem_mul] at h
  obtain ⟨a, ha, top, htop, rfl⟩ := h
  obtain ⟨L, -, rfl, hL⟩ := mem_many.mp ha
  intro c hc
  rcases List.mem_append.mp hc with hc | hc
  · obtain ⟨l, hl, hcl⟩ := List.mem_flatten.mp hc
    obtain ⟨w, hw, rfl⟩ := mem_labelPattern_mul.mp (hL l hl)
    rcases List.mem_append.mp hcl with hcl | hcl
    · exact List.mem_append_left _ (mem_of_mem_labelPattern hw c hcl)
    · exact List.mem_append_right _ hcl
  · have hletter := mem_of_mem_topPattern htop c hc
    exact List.mem_append_left _ (List.mem_append_left _ (List.mem_append_left _ hletter))

theorem mem_emailPattern {s : Str} :
    s ∈ emailPattern.matches' ↔
      ∃ l ∈ localPattern.matches', ∃ d ∈ domainPattern.matches', s = l ++ codePoint '@' :: d := by
  rw [emailPattern, RegularExpression.matches'_mul, RegularExpression.matches'_mul, RegularExpression.matches'_char,
    Language.mem_mul]
  constructor
  · rintro ⟨l, hl, r, hr, rfl⟩
    obtain ⟨a, rfl, d, hd, rfl⟩ := Language.mem_mul.mp hr
    exact ⟨l, hl, d, hd, rfl⟩
  · rintro ⟨l, hl, d, hd, rfl⟩
    exact ⟨l, hl, _, Language.mem_mul.mpr ⟨_, rfl, d, hd, rfl⟩, rfl⟩

theorem isAddress_iff {s : Str} : isAddress s = true ↔ s ∈ emailPattern.matches' := by
  have hat : codePoint '@' ∉ localInner ∧ codePoint '@' ∉ labelInner ++ lit "." := by decide
  rw [mem_emailPattern]
  constructor
  · intro h
    unfold isAddress at h
    split at h
    · next l d hsplit =>
      rw [Bool.and_eq_true] at h
      exact ⟨l, isLocalPart_iff.mp h.1, d, isDomain_iff.mp h.2, (splitOn_eq_pair.mp hsplit).1⟩
    · cases h
  · rintro ⟨l, hl, d, hd, rfl⟩
    have hsplit : (l ++ codePoint '@' :: d).splitOn (codePoint '@') = [l, d] :=
      splitOn_eq_pair.mpr ⟨rfl, fun hm => hat.1 (mem_of_mem_localPattern hl _ hm),
        fun hm => hat.2 (mem_of_mem_domainPattern hd _ hm)⟩
    unfold isAddress
    rw [hsplit]
    exact Bool.and_eq_true_iff.mpr ⟨isLocalPart_iff.mpr hl, isDomain_iff.mpr hd⟩

theorem isUserName_iff {s : Str} : isUserName s = true ↔ s ∈ userNamePattern.matches' := by
  have hinner (c : CodePoint) : (isAlnum c || c ∈ lit " ._-") = true ↔ c ∈ nameInner := by
    rw [Bool.or_eq_true, isAlnum_iff, decide_eq_true_eq, nameInner, List.mem_append]
  rw [userNamePattern, mem_oneOf_mul, isUserName, Bool.and_eq_true, Bool.and_eq_true, decide_eq_true_eq,
    List.all_eq_true]
  simp only [mem_atMost_oneOf, hinner]
  cases s with
  | nil => simp
  | cons c s =>
    rw [List.length_cons, List.head?_cons, Option.any_some, isAlnum_iff, List.forall_mem_cons]
    constructor
    · rintro ⟨⟨hlen, hc⟩, -, hall⟩
      exact ⟨c, hc, s, ⟨by omega, hall⟩, rfl⟩
    · rintro ⟨d, hd, t, ⟨hlen, hall⟩, he⟩
      obtain ⟨rfl, rfl⟩ := List.cons.inj he
      exact ⟨⟨by omega, hd⟩, List.mem_append_left _ hd, hall⟩

theorem isExpiryOffset_iff {s : Str} : isExpiryOffset s = true ↔ s ∈ expiryOffsetPattern.matches' := by
  have hdigit {c : CodePoint} : Json.isDigit c = true ∧ c ≠ codePoint '0' ↔ c ∈ range (codePoint '1') (codePoint '9') := by
    rw [mem_range, Json.isDigit, Bool.and_eq_true, decide_eq_true_eq, decide_eq_true_eq, Fin.le_def, Fin.le_def, ne_eq,
      Fin.ext_iff]
    show (0x30 ≤ c.val ∧ c.val ≤ 0x39) ∧ ¬ c.val = 0x30 ↔ 0x31 ≤ c.val ∧ c.val ≤ 0x39
    omega
  rw [expiryOffsetPattern, mem_oneOf_mul, RegularExpression.matches'_mul]
  constructor
  · intro h
    rw [isExpiryOffset, Bool.and_eq_true, Bool.and_eq_true, List.all_eq_true] at h
    obtain ⟨⟨hall, hhead⟩, hlast⟩ := h
    rcases List.eq_nil_or_concat' s with rfl | ⟨t, u, rfl⟩
    · cases hlast
    · rw [List.dropLast_concat] at hall hhead
      rw [List.getLast?_concat, Option.any_some, decide_eq_true_eq] at hlast
      cases t with
      | nil => cases hhead
      | cons c t =>
        rw [List.forall_mem_cons] at hall
        rw [List.head?_cons, Option.any_some, decide_eq_true_eq] at hhead
        have ht : t ∈ (oneOf digits).star.matches' := mem_star_oneOf.mpr fun d hd => isDigit_iff.mp (hall.2 d hd)
        exact ⟨c, hdigit.mp ⟨hall.1, hhead⟩, t ++ [u],
          Language.mem_mul.mpr ⟨t, ht, [u], mem_oneOf_singleton.mpr hlast, rfl⟩, rfl⟩
  · rintro ⟨c, hc, r, hr, rfl⟩
    obtain ⟨t, ht, b, hb, rfl⟩ := Language.mem_mul.mp hr
    obtain ⟨u, hu, rfl⟩ := mem_oneOf.mp hb
    have hall : ∀ d ∈ t, Json.isDigit d = true := fun d hd => isDigit_iff.mpr (mem_star_oneOf.mp ht d hd)
    obtain ⟨hdigitc, hzero⟩ := hdigit.mpr hc
    show isExpiryOffset ((c :: t) ++ [u]) = true
    rw [isExpiryOffset, List.dropLast_concat, List.getLast?_concat, Option.any_some, List.head?_cons, Option.any_some,
      Bool.and_eq_true, Bool.and_eq_true, List.all_eq_true, List.forall_mem_cons, decide_eq_true_eq, decide_eq_true_eq]
    exact ⟨⟨⟨hdigitc, hall⟩, hzero⟩, hu⟩

/-! ### Dates -/

/-- Four digits, two and two, with hyphens in between. -/
structure DateForm (y m d s : Str) : Prop where
  year : y.length = 4
  month : m.length = 2
  day : d.length = 2
  digits : (y ++ m ++ d).all Json.isDigit = true
  text : s = y ++ IsoDate.hyphen :: (m ++ IsoDate.hyphen :: d)

/-- A date `YYYY-MM-DD` -/
def IsDate (s : Str) : Prop :=
  ∃ y m d, DateForm y m d s ∧
    IsoDate.isCalendarDate (Json.ofDecimal y) (Json.ofDecimal m) (Json.ofDecimal d) = true

/-- The parser reads dates with hyphens as what they are. -/
def ReadsDates (isoDate : Str → Bool) : Prop :=
  ∀ y m d s, DateForm y m d s →
    isoDate s = IsoDate.isCalendarDate (Json.ofDecimal y) (Json.ofDecimal m) (Json.ofDecimal d)

theorem readsDates_fromIsoFormat : ReadsDates IsoDate.fromIsoFormat := by
  rintro y m d _ ⟨hy, hm, hd, hdigits, rfl⟩
  exact IsoDate.fromIsoFormat_written hy hm hd hdigits

/-- `0`, an offset or a date. -/
def IsExpiry (s : Str) : Prop := s = noExpiry ∨ s ∈ expiryOffsetPattern.matches' ∨ IsDate s

/-! ### What is accepted -/

theorem ok_eq_ok_iff {s v : Str} {p : Prop} (hp : p) : (Except.ok s : Except Exc Str) = .ok v ↔ p ∧ v = s := by
  rw [Except.ok.injEq, and_iff_right hp, eq_comm]

theorem validateEmail_eq_ok {repr : Str → Str} {s v : Str} :
    validateEmail repr s = .ok v ↔ MatchesToEnd emailPattern lineFeed s ∧ v = s := by
  rw [← matchesToEnd_iff fun _ => isAddress_iff, validateEmail]
  split_ifs with h
  · exact ok_eq_ok_iff h
  · exact iff_of_false (by simp) fun hp => h hp.1

theorem validateExpiry_eq_ok {isoDate : Str → Bool} {repr : Str → Str} {s v : Str} :
    validateExpiry isoDate repr s = .ok v ↔
      (s = noExpiry ∨ MatchesToEnd expiryOffsetPattern lineFeed s ∨ isoDate s = true) ∧ v = s := by
  rw [← matchesToEnd_iff fun _ => isExpiryOffset_iff, validateExpiry]
  split_ifs with h1 h2 h3
  · exact ok_eq_ok_iff (.inl h1)
  · exact ok_eq_ok_iff (.inr (.inl h2))
  · exact ok_eq_ok_iff (.inr (.inr h3))
  · refine iff_of_false (by simp) fun hp => ?_
    rcases hp.1 with h | h | h
    · exact h1 h
    · exact h2 h
    · exact h3 h

/-- What has been stripped does not end with white space. -/
theorem isSpace_of_getLast?_strip {s : Str} {c : CodePoint} (h : (strip s).getLast? = some c) : isSpace c = false := by
  have hne : (s.dropWhile isSpace).rdropWhile isSpace ≠ [] := by
    intro hnil
    rw [strip, hnil] at h
    cases h
  have hlast := List.rdropWhile_last_not isSpace (s.dropWhile isSpace) hne
  rw [strip, List.getLast?_eq_some_getLast hne] at h
  rw [Option.some.inj h] at hlast
  simpa using hlast

/-- A name does not end with a line feed, since it has been stripped. -/
theorem of_validateUserName_eq_ok {s v : Str} (h : validateUserName s = .ok v) :
    v ∈ userNamePattern.matches' ∧ contains v (lit "--") = false := by
  unfold validateUserName at h
  dsimp only at h
  split_ifs at h with hnil hcond
  rw [not_or] at hcond
  obtain ⟨hmatch, hhyphens⟩ := hcond
  obtain rfl := Except.ok.inj h
  refine ⟨?_, Bool.eq_false_iff.mpr hhyphens⟩
  rcases (matchesToEnd_iff fun _ => isUserName_iff).mp (Bool.of_not_eq_false hmatch) with hmem | ⟨t, -, he⟩
  · exact hmem
  · have hlast : (strip s).getLast? = some lineFeed := by rw [he, List.getLast?_concat]
    exact absurd (isSpace_of_getLast?_strip hlast) (by decide)

/-! ### Plain text -/

/-- A control character, of either set. -/
def isControl (c : CodePoint) : Bool := c.val < 0x20 || (0x7F ≤ c.val && c.val < 0xA0)

/-- Nothing that moves the cursor or encloses an email address. -/
def isPlain (c : CodePoint) : Bool := ! isControl c && c ≠ codePoint '<' && c ≠ codePoint '>'

def Plain (s : Str) : Prop := ∀ c ∈ s, isPlain c = true

theorem plain_of_subset {s : Str} (h : ∀ c ∈ s, c ∈ alnum ++ lit " ._%+-@") : Plain s := by
  have hall : (alnum ++ lit " ._%+-@").all isPlain = true := by decide +kernel
  exact fun c hc => List.all_eq_true.mp hall c (h c hc)

/-- Inclusions of sets that are written out. -/
theorem subset_of_all {l m : Str} (h : l.all (fun c => c ∈ m) = true) : ∀ c ∈ l, c ∈ m := fun c hc =>
  of_decide_eq_true (List.all_eq_true.mp h c hc)

theorem mem_of_mem_emailPattern {s : Str} (h : s ∈ emailPattern.matches') :
    ∀ c ∈ s, c ∈ alnum ++ lit "._%+-@" := by
  have hsub {l : Str} (hl : ∀ c ∈ l, c ∈ lit "._%+-@") : ∀ c ∈ alnum ++ l, c ∈ alnum ++ lit "._%+-@" := fun c hc =>
    List.mem_append.mpr ((List.mem_append.mp hc).imp_right (hl c))
  obtain ⟨l, hl, d, hd, rfl⟩ := mem_emailPattern.mp h
  intro c hc
  rcases List.mem_append.mp hc with hc | hc
  · exact hsub (subset_of_all (by decide)) c (mem_of_mem_localPattern hl c hc)
  · rcases List.mem_cons.mp hc with rfl | hc
    · exact List.mem_append_right _ (by decide)
    · have hdomain := mem_of_mem_domainPattern hd c hc
      rw [labelInner, List.append_assoc] at hdomain
      exact hsub (subset_of_all (by decide)) c hdomain

theorem mem_of_mem_userNamePattern {s : Str} (h : s ∈ userNamePattern.matches') : s ≠ [] ∧ ∀ c ∈ s, c ∈ nameInner := by
  obtain ⟨c, hc, t, ht, rfl⟩ := mem_oneOf_mul.mp h
  refine ⟨List.cons_ne_nil c t, List.forall_mem_cons.mpr ⟨List.mem_append_left _ hc, ?_⟩⟩
  exact (mem_atMost_oneOf.mp ht).2

theorem mem_of_mem_expiryOffsetPattern {s : Str} (h : s ∈ expiryOffsetPattern.matches') : ∀ c ∈ s, c ∈ alnum := by
  have hdigit {c : CodePoint} (hc : c ∈ digits) : c ∈ alnum := List.mem_append_right _ hc
  obtain ⟨c, hc, r, hr, rfl⟩ := mem_oneOf_mul.mp h
  rw [RegularExpression.matches'_mul] at hr
  obtain ⟨t, ht, b, hb, rfl⟩ := Language.mem_mul.mp hr
  obtain ⟨u, hu, rfl⟩ := mem_oneOf.mp hb
  have hfirst : ∀ d ∈ range (codePoint '1') (codePoint '9'), d ∈ digits := subset_of_all (by decide)
  have hlast : ∀ d ∈ lit "ymwd", d ∈ alnum := subset_of_all (by decide)
  intro d hd
  rcases List.mem_cons.mp hd with rfl | hd
  · exact hdigit (hfirst _ hc)
  · rcases List.mem_append.mp hd with hd | hd
    · exact hdigit (mem_star_oneOf.mp ht d hd)
    · rw [List.mem_singleton.mp hd]
      exact hlast u hu

theorem mem_of_isDate {s : Str} (h : IsDate s) : ∀ c ∈ s, c ∈ digits ++ lit "-" := by
  obtain ⟨y, m, d, ⟨-, -, -, hdigits, rfl⟩, -⟩ := h
  rw [List.all_eq_true] at hdigits
  intro c hc
  have hcases : c ∈ y ++ m ++ d ∨ c = IsoDate.hyphen := by
    simp only [List.mem_append, List.mem_cons] at hc ⊢
    tauto
  rcases hcases with hc | rfl
  · exact List.mem_append_left _ (isDigit_iff.mp (hdigits c hc))
  · exact List.mem_append_right _ (by decide)

theorem plain_of_mem_emailPattern {s : Str} (h : s ∈ emailPattern.matches') : Plain s := by
  refine plain_of_subset fun c hc => ?_
  have hsub : ∀ d ∈ lit "._%+-@", d ∈ lit " ._%+-@" := subset_of_all (by decide)
  exact List.mem_append.mpr ((List.mem_append.mp (mem_of_mem_emailPattern h c hc)).imp_right (hsub c))

theorem plain_of_mem_userNamePattern {s : Str} (h : s ∈ userNamePattern.matches') : Plain s := by
  refine plain_of_subset fun c hc => ?_
  have hsub : ∀ d ∈ lit " ._-", d ∈ lit " ._%+-@" := subset_of_all (by decide)
  exact List.mem_append.mpr ((List.mem_append.mp ((mem_of_mem_userNamePattern h).2 c hc)).imp_right (hsub c))

theorem plain_of_isExpiry {s : Str} (h : IsExpiry s) : Plain s := by
  have hhyphen : ∀ d ∈ lit "-", d ∈ lit " ._%+-@" := subset_of_all (by decide)
  refine plain_of_subset fun c hc => ?_
  rcases h with rfl | h | h
  · have hzero : ∀ d ∈ noExpiry, d ∈ alnum := subset_of_all (by decide)
    exact List.mem_append_left _ (hzero c hc)
  · exact List.mem_append_left _ (mem_of_mem_expiryOffsetPattern h c hc)
  · rcases List.mem_append.mp (mem_of_isDate h c hc) with hc | hc
    · exact List.mem_append_left _ (List.mem_append_right _ hc)
    · exact List.mem_append_right _ (hhyphen c hc)

/-! ### The validators -/

/-- The user ID of a name and an email address. -/
def userId (name email : Str) : Str := name ++ lit " <" ++ email ++ lit ">"

/-- A text is accepted as what its grammar spells, and nothing that is accepted
has a control character or an angle bracket. -/
structure Spelled (isoDate : Str → Bool) (repr : Str → Str) (s : Str) : Prop where
  email : (∃ v, validateEmail repr s = .ok v) ↔ s ∈ emailPattern.matches'
  expiry : (∃ v, validateExpiry isoDate repr s = .ok v) ↔ IsExpiry s
  userName : ∀ v, validateUserName s = .ok v → v ≠ [] ∧ (∀ c ∈ v, c ∈ nameInner) ∧ contains v (lit "--") = false
  plain : ∀ v, validateEmail repr s = .ok v ∨ validateExpiry isoDate repr s = .ok v ∨ validateUserName s = .ok v →
    Plain v

/-- Neither an email address nor an offset with a line feed after it, and no
date in another form. -/
structure Strict (isoDate : Str → Bool) (s : Str) : Prop where
  email : ∀ t ∈ emailPattern.matches', s ≠ t ++ [lineFeed]
  offset : ∀ t ∈ expiryOffsetPattern.matches', s ≠ t ++ [lineFeed]
  date : isoDate s = true → (∃ y m d, DateForm y m d s) ∨ s ∈ expiryOffsetPattern.matches' ∨ s = noExpiry

theorem not_plain_lineFeed (t : Str) : ¬ Plain (t ++ [lineFeed]) := fun h =>
  absurd (h lineFeed (List.mem_append_right t List.mem_cons_self)) (by decide)

/-- Without the line feeds and the other forms the validators are strict. -/
theorem Strict.spelled {isoDate : Str → Bool} (hdates : ReadsDates isoDate) {repr : Str → Str} {s : Str}
    (h : Strict isoDate s) : Spelled isoDate repr s := by
  have hemail {v : Str} (hv : validateEmail repr s = .ok v) : v = s ∧ s ∈ emailPattern.matches' := by
    obtain ⟨hmatch, rfl⟩ := validateEmail_eq_ok.mp hv
    rcases hmatch with hmem | ⟨t, ht, he⟩
    · exact ⟨rfl, hmem⟩
    · exact absurd he (h.email t ht)
  have hexpiry {v : Str} (hv : validateExpiry isoDate repr s = .ok v) : v = s ∧ IsExpiry s := by
    obtain ⟨hcases, rfl⟩ := validateExpiry_eq_ok.mp hv
    refine ⟨rfl, ?_⟩
    rcases hcases with hzero | (hoffset | ⟨t, ht, he⟩) | hdate
    · exact .inl hzero
    · exact .inr (.inl hoffset)
    · exact absurd he (h.offset t ht)
    · rcases h.date hdate with ⟨y, m, d, hform⟩ | hoffset | hzero
      · exact .inr (.inr ⟨y, m, d, hform, (hdates y m d v hform).symm.trans hdate⟩)
      · exact .inr (.inl hoffset)
      · exact .inl hzero
  refine ⟨⟨?_, ?_⟩, ⟨?_, ?_⟩, ?_, ?_⟩
  · rintro ⟨v, hv⟩
    exact (hemail hv).2
  · intro hmem
    exact ⟨s, validateEmail_eq_ok.mpr ⟨.inl hmem, rfl⟩⟩
  · rintro ⟨v, hv⟩
    exact (hexpiry hv).2
  · intro hspelled
    refine ⟨s, validateExpiry_eq_ok.mpr ⟨?_, rfl⟩⟩
    rcases hspelled with hzero | hoffset | ⟨y, m, d, hform, hdate⟩
    · exact .inl hzero
    · exact .inr (.inl (.inl hoffset))
    · exact .inr (.inr ((hdates y m d s hform).trans hdate))
  · intro v hv
    obtain ⟨hmem, hhyphens⟩ := of_validateUserName_eq_ok hv
    obtain ⟨hne, hall⟩ := mem_of_mem_userNamePattern hmem
    exact ⟨hne, hall, hhyphens⟩
  · rintro v (hv | hv | hv)
    · obtain ⟨rfl, hmem⟩ := hemail hv
      exact plain_of_mem_emailPattern hmem
    · obtain ⟨rfl, hspelled⟩ := hexpiry hv
      exact plain_of_isExpiry hspelled
    · exact plain_of_mem_userNamePattern (of_validateUserName_eq_ok hv).1

theorem Spelled.strict {isoDate : Str → Bool} {repr : Str → Str} {s : Str} (h : Spelled isoDate repr s) :
    Strict isoDate s where
  email t ht he := by
    have hspelled := h.email.mp ⟨s, validateEmail_eq_ok.mpr ⟨.inr ⟨t, ht, he⟩, rfl⟩⟩
    have hplain := plain_of_mem_emailPattern hspelled
    rw [he] at hplain
    exact not_plain_lineFeed t hplain
  offset t ht he := by
    have hspelled := h.expiry.mp ⟨s, validateExpiry_eq_ok.mpr ⟨.inr (.inl (.inr ⟨t, ht, he⟩)), rfl⟩⟩
    have hplain := plain_of_isExpiry hspelled
    rw [he] at hplain
    exact not_plain_lineFeed t hplain
  date hdate := by
    rcases h.expiry.mp ⟨s, validateExpiry_eq_ok.mpr ⟨.inr (.inr hdate), rfl⟩⟩ with hzero | hoffset | ⟨y, m, d, hform, -⟩
    · exact .inr (.inr hzero)
    · exact .inr (.inl hoffset)
    · exact .inl ⟨y, m, d, hform⟩

/-- A name has no angle bracket, so that a user ID has one reading. -/
theorem userId_inj {name name' email email' : Str} (hn : Plain name) (hn' : Plain name')
    (h : userId name email = userId name' email') : name = name' ∧ email = email' := by
  have hsplit (n e : Str) : userId n e = (n ++ [codePoint ' ']) ++ codePoint '<' :: (e ++ lit ">") := by
    simp [userId, lit]
  -- The name ends where the bracket is.
  have htake {n : Str} (e : Str) (hp : Plain n) : (userId n e).takeWhile (· ≠ codePoint '<') = n ++ [codePoint ' '] := by
    rw [hsplit, List.takeWhile_append_of_pos, List.takeWhile_cons_of_neg (by simp), List.append_nil]
    intro c hc
    rw [decide_eq_true_eq]
    rintro rfl
    rcases List.mem_append.mp hc with hc | hc
    · exact absurd (hp _ hc) (by decide)
    · exact absurd (List.mem_singleton.mp hc) (by decide)
  have hname : name = name' := by
    have h' := congrArg (List.takeWhile (· ≠ codePoint '<')) h
    rw [htake email hn, htake email' hn'] at h'
    exact List.append_cancel_right h'
  subst hname
  exact ⟨rfl, List.append_cancel_left (List.append_cancel_right h)⟩

/-- **The validators accept what is spelled, but for a final line feed and the
other forms of a date**; and a user ID of an accepted name and email address
always has one reading. -/
theorem spelled_iff {isoDate : Str → Bool} (hdates : ReadsDates isoDate) (repr : Str → Str) :
    (∀ s, Spelled isoDate repr s ↔ Strict isoDate s) ∧
      ∀ s s' t t' name name' email email', validateUserName s = .ok name → validateUserName s' = .ok name' →
        validateEmail repr t = .ok email → validateEmail repr t' = .ok email' →
        userId name email = userId name' email' → name = name' ∧ email = email' := by
  refine ⟨fun s => ⟨Spelled.strict, Strict.spelled hdates⟩, ?_⟩
  intro s s' t t' name name' email email' hname hname' _ _ he
  exact userId_inj (plain_of_mem_userNamePattern (of_validateUserName_eq_ok hname).1)
    (plain_of_mem_userNamePattern (of_validateUserName_eq_ok hname').1) he

/-- A date is strict. -/
theorem spelled_iff_date : Spelled IsoDate.fromIsoFormat id (lit "2025-01-31") := by
  refine ((spelled_iff readsDates_fromIsoFormat id).1 (lit "2025-01-31")).mpr ⟨?_, ?_, ?_⟩
  · intro t _ he
    exact absurd (congrArg List.getLast? he) (by rw [List.getLast?_concat]; decide)
  · intro t _ he
    exact absurd (congrArg List.getLast? he) (by rw [List.getLast?_concat]; decide)
  · exact fun _ => .inl ⟨lit "2025", lit "01", lit "31", by decide, by decide, by decide, by decide, by decide⟩

/-- A line feed after an email address, one after an offset, and a date without
hyphens. -/
theorem not_spelled :
    ¬ Spelled IsoDate.fromIsoFormat id (lit "a@b.de\n") ∧ ¬ Spelled IsoDate.fromIsoFormat id (lit "2y\n") ∧
      ¬ Spelled IsoDate.fromIsoFormat id (lit "20250131") := by
  refine ⟨fun h => ?_, fun h => ?_, fun h => ?_⟩
  · have hplain := h.plain (lit "a@b.de\n") (.inl (by decide +kernel))
    exact not_plain_lineFeed (lit "a@b.de") hplain
  · have hplain := h.plain (lit "2y\n") (.inr (.inl (by decide +kernel)))
    exact not_plain_lineFeed (lit "2y") hplain
  · rcases h.expiry.mp ⟨lit "20250131", by decide +kernel⟩ with he | hoffset | ⟨y, m, d, hform, -⟩
    · exact absurd he (by decide)
    · exact absurd (isExpiryOffset_iff.mpr hoffset) (by decide)
    · have hlen := congrArg List.length hform.text
      simp [hform.year, hform.month, hform.day, lit] at hlen

end Validation
end GpgMeister
