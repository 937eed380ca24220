/-
# Dates

`date.fromisoformat` of Python 3.11 and later, as CPython has it: a text of 7,
8 or 10 octets that begins with a date, in one of four forms. The date is read
from the front, and what is left of the octets is not looked at; so eight
characters of a date without hyphens may be followed by two more octets.

* `fromIsoFormat_written`: which texts of the form `YYYY-MM-DD` are dates.
-/
import GpgMeister.Lib.Json
import GpgMeister.Lib.Utf8

namespace GpgMeister
namespace IsoDate

/-! ### The calendar -/

def isLeap (y : ℕ) : Bool := y % 4 = 0 && (y % 100 ≠ 0 || y % 400 = 0)

def daysInMonth (y m : ℕ) : ℕ :=
  if m = 2 then (if isLeap y then 29 else 28) else if m ∈ [4, 6, 9, 11] then 30 else 31

/-- A year of four digits, a month and a day. -/
def isCalendarDate (y m d : ℕ) : Bool := 1 ≤ y && 1 ≤ m && m ≤ 12 && 1 ≤ d && d ≤ daysInMonth y m

/-- The number of the first day of a year; the first day of all is a Monday. -/
def firstDay (y : ℕ) : ℕ := (y - 1) * 365 + (y - 1) / 4 - (y - 1) / 100 + (y - 1) / 400 + 1

/-- The Monday of the first week. -/
def firstMonday (y : ℕ) : ℕ :=
  let weekday := (firstDay y + 6) % 7
  if weekday > 3 then firstDay y - weekday + 7 else firstDay y - weekday

def weeksInYear (y : ℕ) : ℕ :=
  if firstDay y % 7 = 4 ∨ firstDay y % 7 = 3 ∧ isLeap y = true then 53 else 52

/-- The last day of the year 9999 -/
def lastDay : ℕ := 3652059

/-- A year, a week and a day of the week. -/
def isWeekDate (y w d : ℕ) : Bool :=
  1 ≤ y && 1 ≤ w && w ≤ weeksInYear y && 1 ≤ d && d ≤ 7 && firstMonday y + (7 * (w - 1) + (d - 1)) ≤ lastDay

/-! ### The text -/

/-- `parse_digits` -/
def number (n : ℕ) (s : Str) : Option (ℕ × Str) :=
  if (s.take n).length = n ∧ (s.take n).all Json.isDigit = true then some (Json.ofDecimal (s.take n), s.drop n) else none

def hyphen : CodePoint := 0x2D

/-- What comes after the hyphen, where there has to be one. -/
def separator (uses : Bool) (s : Str) : Option Str :=
  if uses then (if s.head? = some hyphen then some s.tail else none) else some s

/-- `parse_isoformat_date`; whether it reads a date -/
def parse (s : Str) : Option Bool := do
  let (year, rest) ← number 4 s
  let uses := rest.head? = some hyphen
  let rest := if uses then rest.tail else rest
  if rest.head? = some (codePoint 'W') then
    let (week, rest) ← number 2 rest.tail
    if rest = [] then return isWeekDate year week 1
    let rest ← separator uses rest
    let (day, _) ← number 1 rest
    return isWeekDate year week day
  else
    let (month, rest) ← number 2 rest
    let rest ← separator uses rest
    let (day, _) ← number 2 rest
    return isCalendarDate year month day

/-- The number of octets of a text. -/
def octets (s : Str) : ℕ := (s.flatMap Utf8.encodeChar).length

/-- `date.fromisoformat` -/
def fromIsoFormat (s : Str) : Bool :=
  octets s ∈ [7, 8, 10] && ! s.any Utf8.isSurrogate && (parse s).getD false

/-! ### Dates with hyphens -/

theorem number_append {l : Str} (h : l.all Json.isDigit = true) (r : Str) :
    number l.length (l ++ r) = some (Json.ofDecimal l, r) := by
  rw [number, List.take_left, List.drop_left, if_pos ⟨rfl, h⟩]

/-- A text below 0x80 -/
def IsAscii (s : Str) : Prop := ∀ c ∈ s, c.val < 0x80

theorem octets_of_isAscii : ∀ {s : Str}, IsAscii s → octets s = s.length
  | [], _ => rfl
  | c :: s, h => by
    obtain ⟨hc, hs⟩ := List.forall_mem_cons.mp h
    have hlen : (Utf8.encodeChar c).length = 1 := by
      rw [Utf8.encodeChar, if_pos (by omega)]
      rfl
    have ih := octets_of_isAscii hs
    rw [octets] at ih ⊢
    rw [List.flatMap_cons, List.length_append, hlen, ih, List.length_cons, Nat.add_comm]

theorem any_isSurrogate_of_isAscii {s : Str} (h : IsAscii s) : s.any Utf8.isSurrogate = false := by
  refine List.any_eq_false.mpr fun c hc => ?_
  have := h c hc
  simp [Utf8.isSurrogate]
  omega

theorem isAscii_of_digits {s : Str} (h : s.all Json.isDigit = true) : IsAscii s := by
  intro c hc
  have hdigit := List.all_eq_true.mp h c hc
  simp only [Json.isDigit, Bool.and_eq_true, decide_eq_true_eq] at hdigit
  omega

/-- A year, a month and a day with hyphens in between are read as what they
are. -/
theorem fromIsoFormat_written {y m d : Str} (hy : y.length = 4) (hm : m.length = 2) (hd : d.length = 2)
    (hdigits : (y ++ m ++ d).all Json.isDigit = true) :
    fromIsoFormat (y ++ hyphen :: (m ++ hyphen :: d)) =
      isCalendarDate (Json.ofDecimal y) (Json.ofDecimal m) (Json.ofDecimal d) := by
  rw [List.all_append, List.all_append, Bool.and_eq_true, Bool.and_eq_true] at hdigits
  obtain ⟨⟨hyd, hmd⟩, hdd⟩ := hdigits
  have hascii : IsAscii (y ++ hyphen :: (m ++ hyphen :: d)) := by
    have hhyphen : hyphen.val < 0x80 := by decide
    intro c hc
    simp only [List.mem_append, List.mem_cons] at hc
    rcases hc with hc | rfl | hc | rfl | hc
    · exact isAscii_of_digits hyd c hc
    · exact hhyphen
    · exact isAscii_of_digits hmd c hc
    · exact hhyphen
    · exact isAscii_of_digits hdd c hc
  have hlen : octets (y ++ hyphen :: (m ++ hyphen :: d)) = 10 := by
    rw [octets_of_isAscii hascii]
    simp [hy, hm, hd]
  -- The month begins with a digit, so that it is no week.
  have hmonth : (m ++ hyphen :: d).head? ≠ some (codePoint 'W') := by
    intro h
    cases m with
    | nil => simp at hm
    | cons c m =>
      have hc := List.all_eq_true.mp hmd c List.mem_cons_self
      rw [List.cons_append, List.head?_cons, Option.some.injEq] at h
      rw [h] at hc
      exact absurd hc (by decide)
  have hyear := number_append hyd (hyphen :: (m ++ hyphen :: d))
  have hmon := number_append hmd (hyphen :: d)
  have hday := number_append hdd []
  rw [hy] at hyear
  rw [hm] at hmon
  rw [hd, List.append_nil] at hday
  have hparse : parse (y ++ hyphen :: (m ++ hyphen :: d)) =
      some (isCalendarDate (Json.ofDecimal y) (Json.ofDecimal m) (Json.ofDecimal d)) := by
    rw [parse, hyear]
    simp only [Option.bind_eq_bind, Option.bind_some, List.head?_cons, decide_true, if_true, List.tail_cons,
      if_neg hmonth, hmon, separator, hday]
    rfl
  simp [fromIsoFormat, hlen, any_isSurrogate_of_isAscii hascii, hparse]

end IsoDate
end GpgMeister
