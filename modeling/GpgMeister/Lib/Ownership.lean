/-
# Resources that must be closed

Resources live on a heap, a list that only grows, and have owners. A heap is
`Kept` if every resource has at most one owner, what is owned is still open, and
what nobody owns has been closed: nothing was dropped open. A new resource with
an owner (`Kept.alloc`), a change of owner (`Kept.move`) and closing what is
given up (`Kept.release`) keep it so.
-/
import Mathlib.Tactic

namespace GpgMeister
namespace Ownership

variable {ι ρ : Type} {closed : ρ → Prop} {owns owns' : ι → ℕ → Prop} {heap : List ρ}

structure Kept (closed : ρ → Prop) (owns : ι → ℕ → Prop) (heap : List ρ) : Prop where
  unique : ∀ i j b, owns i b → owns j b → i = j
  isOpen : ∀ i b, owns i b → ∃ r, heap[b]? = some r ∧ ¬ closed r
  dropped : ∀ b r, heap[b]? = some r → ¬ closed r → ∃ i, owns i b

/-- The heap after these resources were closed. -/
def closeAll (close : ρ → ρ) (bs : List ℕ) (heap : List ρ) : List ρ :=
  bs.foldl (fun heap b => heap.modify b close) heap

section CloseAll

variable (close : ρ → ρ)

theorem getElem?_closeAll_of_not_mem : ∀ (bs : List ℕ) (heap : List ρ) {b : ℕ}, b ∉ bs →
    (closeAll close bs heap)[b]? = heap[b]?
  | [], _, _, _ => rfl
  | c :: bs, heap, b, h => by
    obtain ⟨hne, hmem⟩ := not_or.mp (mt List.mem_cons.mpr h)
    have ih := getElem?_closeAll_of_not_mem bs (heap.modify c close) hmem
    rw [closeAll, List.foldl_cons, ← closeAll, ih, List.getElem?_modify]
    simp [Ne.symm hne]

/-- What closing keeps, it keeps for everything on the heap. -/
theorem getElem?_closeAll {P : ρ → Prop} (hP : ∀ r, P r → P (close r)) :
    ∀ (bs : List ℕ) {heap : List ρ} {b : ℕ} {r : ρ}, heap[b]? = some r → P r →
      ∃ r', (closeAll close bs heap)[b]? = some r' ∧ P r'
  | [], _, _, r, h, hr => ⟨r, h, hr⟩
  | c :: bs, heap, b, r, h, hr => by
    by_cases hc : c = b
    · subst hc
      have h' : (heap.modify c close)[c]? = some (close r) := by simp [h]
      exact getElem?_closeAll hP bs h' (hP r hr)
    · have h' : (heap.modify c close)[b]? = some r := by simp [hc, h]
      exact getElem?_closeAll hP bs h' hr

variable {close}

theorem closed_of_mem (hclose : ∀ r, closed (close r)) :
    ∀ (bs : List ℕ) (heap : List ρ) {b : ℕ} {r : ρ}, b ∈ bs → (closeAll close bs heap)[b]? = some r → closed r
  | c :: bs, heap, b, r, hmem, h => by
    by_cases hb : b ∈ bs
    · exact closed_of_mem hclose bs (heap.modify c close) hb h
    · obtain rfl : b = c := (List.mem_cons.mp hmem).resolve_right hb
      have h' := (getElem?_closeAll_of_not_mem close bs (heap.modify b close) hb).symm.trans h
      rw [List.getElem?_modify] at h'
      obtain ⟨r0, -, rfl⟩ := Option.map_eq_some_iff.mp h'
      rw [if_pos rfl]
      exact hclose r0

end CloseAll

namespace Kept

/-- A new resource gets an owner. -/
theorem alloc (h : Kept closed owns heap) {i : ι} {r : ρ} (hr : ¬ closed r)
    (ho : ∀ j b, owns' j b ↔ owns j b ∨ j = i ∧ b = heap.length) : Kept closed owns' (heap ++ [r]) := by
  have hlt : ∀ j b, owns j b → b < heap.length := fun j b hj =>
    (List.getElem?_eq_some_iff.mp (h.isOpen j b hj).choose_spec.1).1
  refine ⟨?_, ?_, ?_⟩
  · intro j k b hj hk
    rcases (ho j b).mp hj with hj | ⟨rfl, rfl⟩ <;> rcases (ho k _).mp hk with hk | ⟨rfl, hb⟩
    · exact h.unique j k b hj hk
    · exact absurd hb (hlt j b hj).ne
    · exact absurd (hlt k _ hk) (lt_irrefl _)
    · rfl
  · intro j b hj
    rcases (ho j b).mp hj with hj | ⟨rfl, rfl⟩
    · obtain ⟨r', hr', hopen⟩ := h.isOpen j b hj
      exact ⟨r', by rw [List.getElem?_append_left (hlt j b hj), hr'], hopen⟩
    · exact ⟨r, by simp, hr⟩
  · intro b r' hr' hopen
    by_cases hb : b < heap.length
    · rw [List.getElem?_append_left hb] at hr'
      obtain ⟨j, hj⟩ := h.dropped b r' hr' hopen
      exact ⟨j, (ho j b).mpr (.inl hj)⟩
    · have hb' : b = heap.length := by
        have := (List.getElem?_eq_some_iff.mp hr').1
        simp only [List.length_append, List.length_singleton] at this
        omega
      exact ⟨i, (ho i b).mpr (.inr ⟨rfl, hb'⟩)⟩

/-- What `i` has goes to `j`. -/
theorem move (h : Kept closed owns heap) {i j : ι}
    (ho : ∀ k b, owns' k b ↔ owns k b ∧ k ≠ i ∨ k = j ∧ owns i b) : Kept closed owns' heap := by
  refine ⟨?_, ?_, ?_⟩
  · intro k l b hk hl
    rcases (ho k b).mp hk with ⟨hk, hki⟩ | ⟨rfl, hi⟩ <;> rcases (ho l b).mp hl with ⟨hl, hli⟩ | ⟨rfl, hi'⟩
    · exact h.unique k l b hk hl
    · exact absurd (h.unique k i b hk hi') hki
    · exact absurd (h.unique l i b hl hi) hli
    · rfl
  · intro k b hk
    rcases (ho k b).mp hk with ⟨hk, -⟩ | ⟨-, hi⟩
    · exact h.isOpen k b hk
    · exact h.isOpen i b hi
  · intro b r hr hopen
    obtain ⟨k, hk⟩ := h.dropped b r hr hopen
    by_cases hki : k = i
    · subst hki
      exact ⟨j, (ho j b).mpr (.inr ⟨rfl, hk⟩)⟩
    · exact ⟨k, (ho k b).mpr (.inl ⟨hk, hki⟩)⟩

/-- What some owners give up is closed. -/
theorem release {close : ρ → ρ} (h : Kept closed owns heap) (hclose : ∀ r, closed (close r)) {g : ι → Prop}
    {bs : List ℕ} (hbs : ∀ b, b ∈ bs ↔ ∃ i, g i ∧ owns i b) (ho : ∀ i b, owns' i b ↔ owns i b ∧ ¬ g i) :
    Kept closed owns' (closeAll close bs heap) := by
  have hmem : ∀ i b, owns i b → (b ∈ bs ↔ g i) := by
    intro i b hi
    rw [hbs]
    constructor
    · intro hb
      obtain ⟨j, hj, hjb⟩ := hb
      rwa [h.unique i j b hi hjb]
    · exact fun hgiven => ⟨i, hgiven, hi⟩
  refine ⟨?_, ?_, ?_⟩
  · intro i j b hi hj
    exact h.unique i j b ((ho i b).mp hi).1 ((ho j b).mp hj).1
  · intro i b hi
    obtain ⟨hi, hgiven⟩ := (ho i b).mp hi
    rw [getElem?_closeAll_of_not_mem close bs heap (mt (hmem i b hi).mp hgiven)]
    exact h.isOpen i b hi
  · intro b r hr hopen
    by_cases hb : b ∈ bs
    · exact absurd (closed_of_mem hclose bs heap hb hr) hopen
    · rw [getElem?_closeAll_of_not_mem close bs heap hb] at hr
      obtain ⟨i, hi⟩ := h.dropped b r hr hopen
      exact ⟨i, (ho i b).mpr ⟨hi, mt (hmem i b hi).mpr hb⟩⟩

theorem congr (h : Kept closed owns heap) (ho : ∀ j b, owns' j b ↔ owns j b) : Kept closed owns' heap := by
  obtain rfl : owns' = owns := by
    funext j b
    exact propext (ho j b)
  exact h

end Kept
end Ownership
end GpgMeister
