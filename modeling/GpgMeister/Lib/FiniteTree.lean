/-
# Finite trees of files

A tree of files with the list of what is there, so that a program can walk it.
The operations are those of a single call of the operating system, and each
comes with what is at every path afterwards (`get_remove`, `get_create`,
`get_mkdirs`).
-/
import GpgMeister.Lib.FileTree

namespace GpgMeister

structure FiniteTree (α β : Type) extends FileTree α β where
  paths : List (List α)
  mem_paths : ∀ p, p ∈ paths ↔ get p ≠ none

namespace FiniteTree

variable {α β : Type}

variable [DecidableEq α]

/-- A tree with nothing in it. -/
def empty : FiniteTree α β where
  get p := if p = [] then some .dir else none
  root := if_pos rfl
  closed p a h := by simp at h
  paths := [[]]
  mem_paths p := by simp

variable (t : FiniteTree α β)

/-- What is below the path, in the order of the list. -/
def below (p : List α) : List (List α) := t.paths.filter fun q => p <+: q ∧ q ≠ p

variable {t}

theorem mem_below {p q : List α} : q ∈ t.below p ↔ t.get q ≠ none ∧ p <+: q ∧ q ≠ p := by
  rw [below, List.mem_filter, t.mem_paths, decide_eq_true_iff]

/-- A file, or a directory with nothing in it, is removed. -/
def remove (t : FiniteTree α β) (p : List α) : Option (FiniteTree α β) :=
  if h : p ≠ [] ∧ (t.get p).isSome = true ∧ t.below p = [] then
    some
      { t.removeTree p with
        paths := t.paths.filter fun q => ¬ p <+: q
        mem_paths := by
          intro q
          rw [List.mem_filter, t.mem_paths, FileTree.get_removeTree h.1, decide_eq_true_iff]
          split_ifs with hq <;> simp [hq] }
  else none

theorem get_remove {t' : FiniteTree α β} {p : List α} (h : t.remove p = some t') (q : List α) :
    t'.get q = if q = p then none else t.get q := by
  unfold remove at h
  split_ifs at h with hp
  obtain rfl := Option.some.inj h
  show (t.removeTree p).get q = _
  rw [FileTree.get_removeTree hp.1]
  by_cases hq : q = p
  · rw [if_pos hq, if_pos (hq ▸ List.prefix_rfl)]
  · rw [if_neg hq]
    split_ifs with hpq
    · by_contra hnone
      have hb : q ∈ t.below p := mem_below.mpr ⟨fun h => hnone h.symm, hpq, hq⟩
      rw [hp.2.2] at hb
      exact List.not_mem_nil hb
    · rfl

/-- What is not empty is not removed. -/
theorem below_of_remove {t' : FiniteTree α β} {p : List α} (h : t.remove p = some t') : t.below p = [] := by
  unfold remove at h
  split_ifs at h with hp
  exact hp.2.2

/-- A new file. -/
def create (t : FiniteTree α β) (p : List α) (data : β) : Option (FiniteTree α β) :=
  match h : t.toFileTree.create p data with
  | none => none
  | some t' =>
    some
      { t' with
        paths := p :: t.paths
        mem_paths := by
          intro q
          unfold FileTree.create at h
          split_ifs at h
          obtain rfl := Option.some.inj h
          rw [List.mem_cons, t.mem_paths]
          by_cases hq : q = p
          · subst hq
            simp
          · simp [hq] }

theorem get_create {t' : FiniteTree α β} {p : List α} {data : β} (h : t.create p data = some t') :
    t'.get = Function.update t.get p (some (.file data)) := by
  unfold create at h
  split at h
  · cases h
  · next t1 h1 =>
    obtain rfl := Option.some.inj h
    unfold FileTree.create at h1
    split_ifs at h1
    obtain rfl := Option.some.inj h1
    rfl

/-- The directory at the path and those above it that are missing. -/
def mkdirs (t : FiniteTree α β) (p : List α) : Option (FiniteTree α β) :=
  match h : t.toFileTree.mkdirs p with
  | none => none
  | some t' =>
    some
      { t' with
        paths := t.paths ++ p.inits.filter fun q => (t.get q).isNone
        mem_paths := by
          intro q
          rw [FileTree.get_mkdirs h, List.mem_append, t.mem_paths, List.mem_filter, List.mem_inits]
          split_ifs with hq
          · simp [hq]
          · refine ⟨fun hm => hm.resolve_right fun hn => hq hn, Or.inl⟩ }

theorem get_mkdirs {t' : FiniteTree α β} {p : List α} (h : t.mkdirs p = some t') (q : List α) :
    t'.get q = if q <+: p ∧ (t.get q).isNone then some .dir else t.get q := by
  unfold mkdirs at h
  split at h
  · cases h
  · next t1 h1 =>
    obtain rfl := Option.some.inj h
    exact FileTree.get_mkdirs h1 q

/-! ### No files -/

/-- No files are below the path. -/
def NoFiles (t : FiniteTree α β) (p : List α) : Prop := ∀ q, p <+: q → q ≠ p → t.isFile q = false

theorem noFiles_iff {t : FiniteTree α β} {p : List α} : t.NoFiles p ↔ ∀ q ∈ t.below p, t.isFile q = false := by
  refine ⟨fun h q hq => h q (mem_below.mp hq).2.1 (mem_below.mp hq).2.2, fun h q hq hne => ?_⟩
  by_cases hnone : t.get q = none
  · rw [FileTree.isFile, hnone]
    rfl
  · exact h q (mem_below.mpr ⟨hnone, hq, hne⟩)

instance (t : FiniteTree α β) (p : List α) : Decidable (t.NoFiles p) := decidable_of_iff _ noFiles_iff.symm

omit [DecidableEq α] in
theorem noFiles_of_not_dir {t : FiniteTree α β} {p : List α} (h : t.get p ≠ some .dir) : t.NoFiles p := by
  rintro q ⟨s, rfl⟩ hne
  have hs : s ≠ [] := fun hs => hne (by rw [hs, List.append_nil])
  have hnone : t.get (p ++ s) = none := by
    by_contra hn
    exact h (FileTree.get_of_append_ne_none hs hn)
  rw [FileTree.isFile, hnone]
  rfl

omit [DecidableEq α] in
/-- Where every file was there before, there are no new ones. -/
theorem NoFiles.mono {t t' : FiniteTree α β} {p : List α} (h : t.NoFiles p)
    (hf : ∀ q, t'.isFile q = true → t.isFile q = true) : t'.NoFiles p := by
  intro q hq hne
  by_contra hn
  have hfile := hf q (by simpa using hn)
  rw [h q hq hne] at hfile
  cases hfile

theorem isFile_of_remove {t' : FiniteTree α β} {p q : List α} (h : t.remove p = some t')
    (hq : t'.isFile q = true) : q ≠ p ∧ t.isFile q = true := by
  unfold FileTree.isFile at hq ⊢
  rw [get_remove h] at hq
  split_ifs at hq with hp
  · cases hq
  · exact ⟨hp, hq⟩

theorem isFile_of_mkdirs {t' : FiniteTree α β} {p q : List α} (h : t.mkdirs p = some t')
    (hq : t'.isFile q = true) : t.isFile q = true := by
  unfold FileTree.isFile at hq ⊢
  rw [get_mkdirs h] at hq
  split_ifs at hq
  · cases hq
  · exact hq

end FiniteTree
end GpgMeister
