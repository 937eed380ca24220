/-
# Patterns

What the usual pieces of a search pattern match, over the regular expressions
of Mathlib: a set of characters (`oneOf`), at most so many repetitions
(`atMost`), a word whose ends come from a smaller set (`word`), and an end that
also matches in front of a final line separator (`MatchesToEnd`, the `$` of
several languages).
-/
import Mathlib.Computability.RegularExpressions

namespace GpgMeister
namespace Pattern

variable {α : Type}

open RegularExpression (char)

/-- `[…]` -/
def oneOf (cs : List α) : RegularExpression α := cs.foldr (fun c p => char c + p) 0

/-- `P{0,n}` -/
def atMost (n : ℕ) (p : RegularExpression α) : RegularExpression α := (1 + p) ^ n

/-- `P+` -/
def many (p : RegularExpression α) : RegularExpression α := p * p.star

/-- `[ends](?:[inner]{0,n}[ends])?` -/
def word (ends inner : List α) (n : ℕ) : RegularExpression α := oneOf ends * (1 + atMost n (oneOf inner) * oneOf ends)

/-- A pattern that ends with `$`: `x` may come after what is matched. -/
def MatchesToEnd (p : RegularExpression α) (x : α) (s : List α) : Prop :=
  s ∈ p.matches' ∨ ∃ t ∈ p.matches', s = t ++ [x]

theorem mem_oneOf : ∀ {cs : List α} {s : List α}, s ∈ (oneOf cs).matches' ↔ ∃ c ∈ cs, s = [c]
  | [], s => by
    show s ∈ (0 : RegularExpression α).matches' ↔ _
    simp
  | c :: cs, s => by
    show s ∈ (char c + oneOf cs).matches' ↔ _
    rw [RegularExpression.matches'_add, Language.mem_add, mem_oneOf, RegularExpression.matches'_char]
    simp only [List.mem_cons, exists_eq_or_imp]
    exact Iff.rfl

theorem mem_oneOf_singleton {cs : List α} {c : α} : [c] ∈ (oneOf cs).matches' ↔ c ∈ cs := by
  rw [mem_oneOf]
  constructor
  · rintro ⟨d, hd, he⟩
    rw [List.singleton_inj.mp he]
    exact hd
  · intro h
    exact ⟨c, h, rfl⟩

/-- A set of characters, once and then as the pattern goes on. -/
theorem mem_oneOf_mul {cs : List α} {p : RegularExpression α} {s : List α} :
    s ∈ (oneOf cs * p).matches' ↔ ∃ c ∈ cs, ∃ t ∈ p.matches', s = c :: t := by
  rw [RegularExpression.matches'_mul, Language.mem_mul]
  constructor
  · rintro ⟨a, ha, t, ht, rfl⟩
    obtain ⟨c, hc, rfl⟩ := mem_oneOf.mp ha
    exact ⟨c, hc, t, ht, rfl⟩
  · rintro ⟨c, hc, t, ht, rfl⟩
    exact ⟨[c], mem_oneOf_singleton.mpr hc, t, ht, rfl⟩

/-- A set of characters, at most so often. -/
theorem mem_atMost_oneOf {cs : List α} : ∀ {n : ℕ} {s : List α},
    s ∈ (atMost n (oneOf cs)).matches' ↔ s.length ≤ n ∧ ∀ c ∈ s, c ∈ cs
  | 0, s => by
    rw [atMost, RegularExpression.matches'_pow, pow_zero, Language.mem_one, Nat.le_zero, List.length_eq_zero_iff]
    constructor
    · rintro rfl
      simp
    · intro h
      exact h.1
  | n + 1, s => by
    have hmatches : (atMost (n + 1) (oneOf cs)).matches' = (1 + (oneOf cs).matches') * (atMost n (oneOf cs)).matches' := by
      rw [atMost, atMost, RegularExpression.matches'_pow, RegularExpression.matches'_pow, pow_succ',
        RegularExpression.matches'_add, RegularExpression.matches'_epsilon]
    rw [hmatches, Language.mem_mul]
    constructor
    · rintro ⟨a, ha, b, hb, rfl⟩
      obtain ⟨hlen, hall⟩ := mem_atMost_oneOf.mp hb
      rcases (Language.mem_add _ _ _).mp ha with ha | ha
      · rw [(Language.mem_one _).mp ha]
        exact ⟨by simpa using Nat.le_succ_of_le hlen, hall⟩
      · obtain ⟨c, hc, rfl⟩ := mem_oneOf.mp ha
        refine ⟨by simpa using hlen, ?_⟩
        rw [List.singleton_append, List.forall_mem_cons]
        exact ⟨hc, hall⟩
    · rintro ⟨hlen, hall⟩
      cases s with
      | nil => exact ⟨[], .inl rfl, [], mem_atMost_oneOf.mpr (by simp), rfl⟩
      | cons c s =>
        rw [List.forall_mem_cons] at hall
        refine ⟨[c], .inr (mem_oneOf_singleton.mpr hall.1), s, mem_atMost_oneOf.mpr ⟨?_, hall.2⟩, rfl⟩
        rw [List.length_cons] at hlen
        omega

/-- A set of characters, any number of times. -/
theorem mem_star_oneOf {cs : List α} {s : List α} : s ∈ (oneOf cs).star.matches' ↔ ∀ c ∈ s, c ∈ cs := by
  rw [RegularExpression.matches'_star, Language.mem_kstar]
  constructor
  · rintro ⟨L, rfl, hL⟩ c hc
    obtain ⟨l, hl, hcl⟩ := List.mem_flatten.mp hc
    obtain ⟨d, hd, rfl⟩ := mem_oneOf.mp (hL l hl)
    rw [List.mem_singleton.mp hcl]
    exact hd
  · intro h
    refine ⟨s.map fun c => [c], ?_, ?_⟩
    · rw [← List.flatMap_def, List.flatMap_singleton']
    · intro l hl
      obtain ⟨c, hc, rfl⟩ := List.mem_map.mp hl
      exact mem_oneOf_singleton.mpr (h c hc)

/-- One or more. -/
theorem mem_many {p : RegularExpression α} {s : List α} :
    s ∈ (many p).matches' ↔ ∃ L : List (List α), L ≠ [] ∧ s = L.flatten ∧ ∀ l ∈ L, l ∈ p.matches' := by
  rw [many, RegularExpression.matches'_mul, RegularExpression.matches'_star, Language.mem_mul]
  constructor
  · rintro ⟨a, ha, b, hb, rfl⟩
    obtain ⟨L, rfl, hL⟩ := Language.mem_kstar.mp hb
    exact ⟨a :: L, List.cons_ne_nil a L, rfl, List.forall_mem_cons.mpr ⟨ha, hL⟩⟩
  · rintro ⟨L, hne, rfl, hL⟩
    obtain ⟨a, L', rfl⟩ := List.exists_cons_of_ne_nil hne
    rw [List.forall_mem_cons] at hL
    exact ⟨a, hL.1, L'.flatten, Language.mem_kstar.mpr ⟨L', rfl, hL.2⟩, rfl⟩

/-- A word, if its ends may also stand within it. -/
theorem mem_word {ends inner : List α} (h : ∀ c ∈ ends, c ∈ inner) {n : ℕ} {s : List α} :
    s ∈ (word ends inner n).matches' ↔
      s.length ≤ n + 2 ∧ (∀ c ∈ s, c ∈ inner) ∧ (∃ c ∈ ends, s.head? = some c) ∧ ∃ c ∈ ends, s.getLast? = some c := by
  rw [word, RegularExpression.matches'_mul, RegularExpression.matches'_add, RegularExpression.matches'_mul,
    RegularExpression.matches'_epsilon, Language.mem_mul]
  constructor
  · rintro ⟨a, ha, b, hb, rfl⟩
    obtain ⟨c, hc, rfl⟩ := mem_oneOf.mp ha
    rcases (Language.mem_add _ _ _).mp hb with hb | hb
    · rw [(Language.mem_one _).mp hb]
      exact ⟨by simp, by simpa using h c hc, ⟨c, hc, rfl⟩, ⟨c, hc, rfl⟩⟩
    · obtain ⟨m, hm, e, he, rfl⟩ := Language.mem_mul.mp hb
      obtain ⟨d, hd, rfl⟩ := mem_oneOf.mp he
      obtain ⟨hlen, hall⟩ := mem_atMost_oneOf.mp hm
      refine ⟨?_, ?_, ⟨c, hc, rfl⟩, ⟨d, hd, ?_⟩⟩
      · simp only [List.length_append, List.length_singleton]
        omega
      · rw [List.forall_mem_append, List.forall_mem_append, List.forall_mem_singleton, List.forall_mem_singleton]
        exact ⟨h c hc, hall, h d hd⟩
      · rw [← List.append_assoc, List.getLast?_concat]
  · rintro ⟨hlen, hall, ⟨c, hc, hhead⟩, ⟨d, hd, hlast⟩⟩
    obtain ⟨r, rfl⟩ : ∃ r, s = c :: r := by
      cases s with
      | nil => cases hhead
      | cons x r => exact ⟨r, by rw [Option.some.inj hhead]⟩
    refine ⟨[c], mem_oneOf_singleton.mpr hc, r, (Language.mem_add _ _ _).mpr ?_, rfl⟩
    rcases List.eq_nil_or_concat r with rfl | ⟨m, e, rfl⟩
    · exact .inl rfl
    · right
      have he : d = e := by
        rw [List.concat_eq_append, ← List.cons_append, List.getLast?_concat] at hlast
        exact (Option.some.inj hlast).symm
      subst he
      rw [List.concat_eq_append] at hlen hall ⊢
      refine Language.mem_mul.mpr ⟨m, mem_atMost_oneOf.mpr ⟨?_, fun x hx => ?_⟩, [d], mem_oneOf_singleton.mpr hd, rfl⟩
      · simp only [List.length_cons, List.length_append] at hlen
        omega
      · exact hall x (List.mem_cons_of_mem c (List.mem_append_left _ hx))

end Pattern
end GpgMeister
