/-
# Hash chains

A list of items of which each carries the hash of the one before it, the first
a start value that is no hash. The hash of the last item commits to the whole
list (`eq_of_tip_eq`).
-/
import Mathlib.Tactic

namespace GpgMeister
namespace HashChain

variable {ι H : Type} {prev : ι → Option H} {hash : ι → H}

/-- The hash of the last item, or `p` if there is none. -/
def tip (hash : ι → H) : H → List ι → H
  | p, [] => p
  | _, x :: xs => tip hash (hash x) xs

/-- Every item carries the hash of the one before it, the first one `p`. -/
def Linked (prev : ι → Option H) (hash : ι → H) : H → List ι → Prop
  | _, [] => True
  | p, x :: xs => prev x = some p ∧ Linked prev hash (hash x) xs

theorem tip_concat (x : ι) : ∀ (p : H) (xs : List ι), tip hash p (xs ++ [x]) = hash x
  | _, [] => rfl
  | _, y :: xs => tip_concat x (hash y) xs

theorem tip_eq_getLast? (p : H) (xs : List ι) : tip hash p xs = (xs.getLast?.map hash).getD p := by
  rcases List.eq_nil_or_concat' xs with rfl | ⟨xs, x, rfl⟩
  · rfl
  · rw [tip_concat, List.getLast?_concat]
    rfl

theorem linked_concat {x : ι} : ∀ {p : H} {xs : List ι},
    Linked prev hash p (xs ++ [x]) ↔ Linked prev hash p xs ∧ prev x = some (tip hash p xs)
  | p, [] => by simp [Linked, tip]
  | p, y :: xs => by
    rw [List.cons_append, Linked, Linked, tip, linked_concat, and_assoc]

/-- **The tip commits to the chain**, if the hash tells the items apart. -/
theorem eq_of_tip_eq {p : H} (hp : ∀ x, hash x ≠ p) (xs : List ι) : ∀ {ys : List ι},
    Set.InjOn hash {x | x ∈ xs ∨ x ∈ ys} → Linked prev hash p xs → Linked prev hash p ys →
    tip hash p xs = tip hash p ys → xs = ys := by
  induction xs using List.reverseRecOn with
  | nil =>
    intro ys _ _ _ ht
    rcases List.eq_nil_or_concat' ys with rfl | ⟨ys, y, rfl⟩
    · rfl
    · rw [tip_concat] at ht
      exact absurd ht.symm (hp y)
  | append_singleton xs x ih =>
    intro ys hinj hx hy ht
    rw [tip_concat] at ht
    rcases List.eq_nil_or_concat' ys with rfl | ⟨ys, y, rfl⟩
    · exact absurd ht (hp x)
    · rw [tip_concat] at ht
      have hxy : x = y := hinj (.inl (by simp)) (.inr (by simp)) ht
      subst hxy
      rw [linked_concat] at hx hy
      have htip : tip hash p xs = tip hash p ys := by
        have := hx.2.symm.trans hy.2
        exact Option.some.inj this
      have hsub : Set.InjOn hash {z | z ∈ xs ∨ z ∈ ys} := hinj.mono fun z hz =>
        hz.imp (List.mem_append_left _) (List.mem_append_left _)
      rw [ih hsub hx.1 hy.1 htip]

end HashChain
end GpgMeister
