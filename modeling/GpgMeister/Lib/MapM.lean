/-
# Lists of computations that may fail

What `mapM` in `Except` gives: the results, one for each item, or what the
first item that fails raises; and when a fold fails.
-/
import Mathlib.Tactic

namespace GpgMeister

variable {α β ε : Type}

/-- A computation that gives a result has given one at each step. -/
theorem bind_eq_ok {x : Except ε α} {f : α → Except ε β} {b : β} (h : x >>= f = .ok b) :
    ∃ a, x = .ok a ∧ f a = .ok b := by
  cases x with
  | error e => cases h
  | ok a => exact ⟨a, rfl, h⟩

/-- A computation that fails has failed at one step. -/
theorem bind_eq_error {x : Except ε α} {f : α → Except ε β} {e : ε} (h : x >>= f = .error e) :
    x = .error e ∨ ∃ a, x = .ok a ∧ f a = .error e := by
  cases x with
  | error e' =>
    left
    rw [Except.error.inj h]
  | ok a => exact .inr ⟨a, rfl, h⟩

section Lists

variable {f : α → Except ε β}

theorem forall₂_imp_of_mem {R S : α → β → Prop} : ∀ {l : List α} {l' : List β}, List.Forall₂ R l l' →
    (∀ a ∈ l, ∀ b, R a b → S a b) → List.Forall₂ S l l'
  | [], [], _, _ => .nil
  | a :: l, b :: l', .cons h hl, hRS => by
    rw [List.forall_mem_cons] at hRS
    exact .cons (hRS.1 b h) (forall₂_imp_of_mem hl hRS.2)

theorem mapM_cons_eq_ok {a : α} {as : List α} {bs : List β} (h : (a :: as).mapM f = .ok bs) :
    ∃ b bs', f a = .ok b ∧ as.mapM f = .ok bs' ∧ bs = b :: bs' := by
  rw [List.mapM_cons] at h
  cases ha : f a with
  | error e => simp [ha, bind, Except.bind] at h
  | ok b =>
    cases has : as.mapM f with
    | error e => simp [ha, has, bind, Except.bind] at h
    | ok bs' =>
      refine ⟨b, bs', rfl, rfl, ?_⟩
      simpa [ha, has, bind, Except.bind, pure, Except.pure] using h.symm

theorem mapM_cons_of_ok {a : α} {as : List α} {b : β} {bs : List β} (ha : f a = .ok b) (has : as.mapM f = .ok bs) :
    (a :: as).mapM f = .ok (b :: bs) := by
  rw [List.mapM_cons, ha, has]
  rfl

/-- The results of a list that does not fail. -/
theorem mapM_eq_ok_iff : ∀ {l : List α} {bs : List β},
    l.mapM f = .ok bs ↔ List.Forall₂ (fun a b => f a = .ok b) l bs
  | [], bs => by
    rw [List.forall₂_nil_left_iff, List.mapM_nil]
    constructor
    · intro h
      exact (Except.ok.inj h).symm
    · intro h
      rw [h]
      rfl
  | a :: l, bs => by
    constructor
    · intro h
      obtain ⟨b, bs', ha, hl, rfl⟩ := mapM_cons_eq_ok h
      exact .cons ha (mapM_eq_ok_iff.mp hl)
    · intro h
      cases h with
      | cons ha hl => exact mapM_cons_of_ok ha (mapM_eq_ok_iff.mpr hl)

/-- The items before the first one that fails do not fail. -/
theorem mapM_eq_error_iff {e : ε} : ∀ {l : List α}, l.mapM f = .error e ↔
    ∃ before a after, l = before ++ a :: after ∧ (∀ b ∈ before, ∃ c, f b = .ok c) ∧ f a = .error e
  | [] => by
    refine iff_of_false ?_ ?_
    · intro h
      cases h
    · intro h
      obtain ⟨before, a, after, h, -⟩ := h
      simp at h
  | a :: l => by
    rw [List.mapM_cons]
    cases ha : f a with
    | error e' =>
      constructor
      · intro h
        obtain rfl : e' = e := Except.error.inj h
        exact ⟨[], a, l, rfl, by simp, ha⟩
      · intro h
        obtain ⟨before, a', after, hl, hbefore, ha'⟩ := h
        cases before with
        | nil =>
          obtain ⟨rfl, rfl⟩ : a = a' ∧ l = after := by simpa using hl
          rw [ha] at ha'
          obtain rfl := Except.error.inj ha'
          rfl
        | cons b before =>
          obtain ⟨rfl, -⟩ : a = b ∧ l = before ++ a' :: after := by simpa using hl
          obtain ⟨c, hc⟩ := hbefore a List.mem_cons_self
          rw [ha] at hc
          cases hc
    | ok b =>
      have hbind : (do
          let b ← (Except.ok b : Except ε β)
          let bs ← l.mapM f
          pure (b :: bs)) = .error e ↔ l.mapM f = .error e := by
        cases hl : l.mapM f with
        | error e' => exact ⟨id, id⟩
        | ok bs => exact iff_of_false (fun h => by cases h) (fun h => by cases h)
      rw [hbind, mapM_eq_error_iff]
      constructor
      · intro h
        obtain ⟨before, a', after, rfl, hbefore, ha'⟩ := h
        refine ⟨a :: before, a', after, rfl, ?_, ha'⟩
        rw [List.forall_mem_cons]
        exact ⟨⟨b, ha⟩, hbefore⟩
      · intro h
        obtain ⟨before, a', after, hl, hbefore, ha'⟩ := h
        cases before with
        | nil =>
          obtain ⟨rfl, rfl⟩ : a = a' ∧ l = after := by simpa using hl
          rw [ha] at ha'
          cases ha'
        | cons c before =>
          obtain ⟨rfl, rfl⟩ : a = c ∧ l = before ++ a' :: after := by simpa using hl
          exact ⟨before, a', after, rfl, fun b hb => hbefore b (List.mem_cons_of_mem _ hb), ha'⟩

theorem exists_of_mem_left {R : α → β → Prop} : ∀ {l : List α} {l' : List β}, List.Forall₂ R l l' →
    ∀ {a : α}, a ∈ l → ∃ b ∈ l', R a b
  | _, _, .cons h hs, a, ha => by
    rcases List.mem_cons.mp ha with rfl | ha
    · exact ⟨_, List.mem_cons_self, h⟩
    · obtain ⟨b, hb, hR⟩ := exists_of_mem_left hs ha
      exact ⟨b, List.mem_cons_of_mem _ hb, hR⟩

theorem exists_of_mem_right {R : α → β → Prop} {l : List α} {l' : List β} (h : List.Forall₂ R l l')
    {b : β} (hb : b ∈ l') : ∃ a ∈ l, R a b := exists_of_mem_left h.flip hb

theorem mapM_eq_replicate {b : β} : ∀ {l : List α}, (∀ a ∈ l, f a = .ok b) →
    l.mapM f = .ok (List.replicate l.length b)
  | [], _ => rfl
  | a :: l, h => mapM_cons_of_ok (h a List.mem_cons_self) (mapM_eq_replicate fun x hx => h x (List.mem_cons_of_mem _ hx))

/-- An item that fails makes the list fail. -/
theorem mapM_eq_error {a : α} {e : ε} (ha : f a = .error e) : ∀ {l : List α}, a ∈ l → ∃ e', l.mapM f = .error e'
  | x :: l, h => by
    rw [List.mapM_cons]
    cases hx : f x with
    | error e' => exact ⟨e', rfl⟩
    | ok b =>
      have hne : a ≠ x := fun he => by
        rw [← he, ha] at hx
        cases hx
      obtain ⟨e', he'⟩ := mapM_eq_error ha ((List.mem_cons.mp h).resolve_left hne)
      exact ⟨e', by rw [he']; rfl⟩

end Lists

/-! ### Folds -/

/-- A fold whose steps succeed or fail whatever the state. -/
theorem foldlM_eq_ok_iff {σ : Type} {f : σ → β → Except ε σ} {P : β → Prop}
    (hf : ∀ s b, (∃ s', f s b = .ok s') ↔ P b) :
    ∀ {bs : List β} {s : σ}, (∃ s', bs.foldlM f s = .ok s') ↔ ∀ b ∈ bs, P b
  | [], s => iff_of_true ⟨s, rfl⟩ (by simp)
  | b :: bs, s => by
    rw [List.foldlM_cons, List.forall_mem_cons, ← hf s b]
    cases hb : f s b with
    | error e => exact iff_of_false (by rintro ⟨s', hs'⟩; cases hs') (by rintro ⟨⟨s', hs'⟩, -⟩; cases hs')
    | ok s' =>
      rw [and_iff_right ⟨s', rfl⟩]
      exact foldlM_eq_ok_iff hf

/-- A loop fails in one of its rounds. -/
theorem foldlM_eq_error {σ : Type} {f : σ → α → Except ε σ} {e : ε} : ∀ {l : List α} {s : σ},
    l.foldlM f s = .error e ↔
      ∃ before a after s', l = before ++ a :: after ∧ before.foldlM f s = .ok s' ∧ f s' a = .error e
  | [], s => iff_of_false (by rintro ⟨⟩) (by rintro ⟨before, a, after, s', h, -⟩; simp at h)
  | a :: l, s => by
    rw [List.foldlM_cons]
    cases hf : f s a with
    | error e' =>
      constructor
      · intro h
        exact ⟨[], a, l, s, rfl, rfl, hf.trans h⟩
      · rintro ⟨_ | ⟨b, before⟩, a', after, s', hl, hb, he⟩
        · obtain ⟨rfl, rfl⟩ := List.cons.inj hl
          obtain rfl := Except.ok.inj hb
          rw [← he, hf]
          rfl
        · obtain ⟨rfl, rfl⟩ := List.cons.inj hl
          rw [List.foldlM_cons, hf] at hb
          cases hb
    | ok s1 =>
      show l.foldlM f s1 = .error e ↔ _
      rw [foldlM_eq_error]
      constructor
      · rintro ⟨before, a', after, s', rfl, hb, he⟩
        refine ⟨a :: before, a', after, s', rfl, ?_, he⟩
        rw [List.foldlM_cons, hf]
        exact hb
      · rintro ⟨_ | ⟨b, before⟩, a', after, s', hl, hb, he⟩
        · obtain ⟨rfl, rfl⟩ := List.cons.inj hl
          obtain rfl := Except.ok.inj hb
          rw [hf] at he
          cases he
        · obtain ⟨rfl, rfl⟩ := List.cons.inj hl
          rw [List.foldlM_cons, hf] at hb
          exact ⟨before, a', after, s', rfl, hb, he⟩

/-- A list with one item, any number of times. -/
theorem dedup_eq_singleton_iff [DecidableEq α] {a : α} {l : List α} : l.dedup = [a] ↔ l ≠ [] ∧ ∀ b ∈ l, b = a := by
  constructor
  · intro h
    constructor
    · intro hl
      rw [hl] at h
      cases h
    · intro b hb
      simpa [h] using List.mem_dedup.mpr hb
  · intro h
    obtain ⟨hne, hall⟩ := h
    obtain ⟨n, hn⟩ : ∃ n, l.length = n + 1 := Nat.exists_eq_succ_of_ne_zero (by simpa using hne)
    rw [List.eq_replicate_of_mem hall, hn]
    clear hn hall hne
    induction n with
    | zero => rfl
    | succ n ih => rw [List.replicate_succ, List.dedup_cons_of_mem (by simp), ih]

end GpgMeister
