/-
# Latches

A latch is set by some events and reset by others. It ends up set if
something has set it and every reset was made good later (`latch_eq_true_iff`).
-/
import Mathlib.Tactic

namespace GpgMeister

variable {α : Type} (set reset : α → Bool)

/-- A latch after some events; an event that does both sets it. -/
def latch : Bool → List α → Bool
  | b, [] => b
  | b, x :: l => latch (if set x then true else if reset x then false else b) l

/-- Every event that resets the latch sets it too or is followed by one that
does. -/
def MadeGood (l : List α) : Prop :=
  ∀ before x after, l = before ++ x :: after → reset x = true → set x = true ∨ ∃ y ∈ after, set y = true

theorem madeGood_nil : MadeGood set reset [] := by
  intro before x after h
  simp at h

theorem madeGood_cons {x : α} {l : List α} :
    MadeGood set reset (x :: l) ↔
      (reset x = true → set x = true ∨ ∃ y ∈ l, set y = true) ∧ MadeGood set reset l := by
  constructor
  · intro h
    refine ⟨h [] x l rfl, ?_⟩
    intro before y after hl
    exact h (x :: before) y after (by rw [hl, List.cons_append])
  · intro h before y after hl
    cases before with
    | nil =>
      obtain ⟨rfl, rfl⟩ := List.cons.inj hl
      exact h.1
    | cons z before =>
      obtain ⟨-, hl⟩ := List.cons.inj hl
      exact h.2 before y after hl

theorem latch_eq_true_iff : ∀ (b : Bool) (l : List α),
    latch set reset b l = true ↔ (b = true ∨ ∃ y ∈ l, set y = true) ∧ MadeGood set reset l
  | b, [] => by simp [latch, madeGood_nil]
  | b, x :: l => by
    rw [latch, latch_eq_true_iff, madeGood_cons, List.exists_mem_cons_iff]
    by_cases hs : set x = true
    · simp [hs]
    · by_cases hr : reset x = true
      · simp only [hs, hr, Bool.false_eq_true, if_false, if_true]
        tauto
      · simp [hs, hr]

end GpgMeister
