/-
# Depth-first search with one set of visited nodes

A search looks at a node: it is what is searched for, or there are nodes to
look at next. All calls of a search share the nodes that were visited, a node
that was visited is not looked at again, and the search stops at the first
hit. The depth of the recursion is limited.

A search that returns from no visited nodes is right (`search_true_iff`): a
node that was visited owes nothing but what is still on the stack, so that the
nodes that a search without a hit adds are closed under "next" (`Explored`).
It returns if the limit is above the number of nodes that can be reached
(`search_returns`).
-/
import GpgMeister.Lib.Program

namespace GpgMeister
namespace Search

variable {α ε : Type} [DecidableEq α]

/-- The search from a node: `look` gives `none` for a hit, or the nodes to look
at next. -/
def search (look : α → Option (List α)) (exhausted : ε) : ℕ → α → Program (List α) ε Bool
  | 0, _ => Program.raise exhausted
  | limit + 1, a => do
    if a ∈ (← get) then
      return false
    modify (a :: ·)
    match look a with
    | none => return true
    | some next => next.anyM (search look exhausted limit)

/-- One node leads to the next. -/
def Leads (look : α → Option (List α)) (a b : α) : Prop := ∃ next, look a = some next ∧ b ∈ next

abbrev Reaches (look : α → Option (List α)) : α → α → Prop := Relation.ReflTransGen (Leads look)

/-- There is a hit to find from the node. -/
def Hits (look : α → Option (List α)) (a : α) : Prop := ∃ b, Reaches look a b ∧ look b = none

variable {look : α → Option (List α)} {exhausted : ε}

/-- What was visited since `s` is no hit, and leads to what has been visited. -/
structure Explored (look : α → Option (List α)) (s s' : List α) : Prop where
  subset : s ⊆ s'
  closed : ∀ a ∈ s', a ∉ s → ∃ next, look a = some next ∧ next ⊆ s'

theorem Explored.refl (s : List α) : Explored look s s := ⟨List.Subset.refl s, fun _ ha hn => absurd ha hn⟩

theorem Explored.trans {s s1 s2 : List α} (h1 : Explored look s s1) (h2 : Explored look s1 s2) :
    Explored look s s2 := by
  refine ⟨List.Subset.trans h1.subset h2.subset, fun a ha hn => ?_⟩
  by_cases ha1 : a ∈ s1
  · obtain ⟨next, hlook, hnext⟩ := h1.closed a ha1 hn
    exact ⟨next, hlook, List.Subset.trans hnext h2.subset⟩
  · exact h2.closed a ha ha1

/-- The node itself owes the nodes that come next. -/
theorem Explored.of_next {a : α} {next s s' : List α} (h : Explored look (a :: s) s') (hlook : look a = some next)
    (hnext : next ⊆ s') : Explored look s s' := by
  refine ⟨fun b hb => h.subset (List.mem_cons_of_mem a hb), fun b hb hn => ?_⟩
  by_cases hba : b = a
  · exact ⟨next, hba ▸ hlook, hnext⟩
  · exact h.closed b hb fun hb' => (List.mem_cons.mp hb').elim hba hn

/-- Nothing but what is visited can be reached. -/
theorem Explored.mem_of_reaches {s' : List α} (h : Explored look [] s') {a b : α} (hab : Reaches look a b)
    (ha : a ∈ s') : b ∈ s' := by
  induction hab with
  | refl => exact ha
  | tail _ hstep ih =>
    obtain ⟨next, hlook, hb⟩ := hstep
    obtain ⟨next', hlook', hnext⟩ := h.closed _ ih List.not_mem_nil
    obtain rfl := Option.some.inj (hlook.symm.trans hlook')
    exact hnext hb

/-- How a search of the nodes ends. -/
def Ends (look : α → Option (List α)) (nodes s : List α) (found : Bool) (s' : List α) : Prop :=
  match found with
  | true => ∃ a ∈ nodes, Hits look a
  | false => Explored look s s' ∧ nodes ⊆ s'

/-- The loop over the nodes that come next. -/
theorem meets_anyM {visit : α → Program (List α) ε Bool}
    (hvisit : ∀ a s, (visit a).Meets s (Ends look [a] s) fun e _ => e = exhausted) :
    ∀ (nodes s : List α), (nodes.anyM visit).Meets s (Ends look nodes s) fun e _ => e = exhausted
  | [], s => ⟨.refl s, List.nil_subset s⟩
  | a :: nodes, s => by
    rw [List.anyM, Program.meets_bind]
    refine (hvisit a s).mono (fun found s1 h1 => ?_) fun _ _ he => he
    cases found with
    | true =>
      obtain ⟨b, hb, hhits⟩ := h1
      exact ⟨b, List.mem_cons.mpr (.inl (List.mem_singleton.mp hb)), hhits⟩
    | false =>
      refine (meets_anyM hvisit nodes s1).mono (fun found s2 h2 => ?_) fun _ _ he => he
      cases found with
      | true =>
        obtain ⟨b, hb, hhits⟩ := h2
        exact ⟨b, List.mem_cons_of_mem a hb, hhits⟩
      | false =>
        have ha : a ∈ s2 := h2.1.subset (h1.2 (List.mem_singleton_self a))
        exact ⟨h1.1.trans h2.1, List.cons_subset.mpr ⟨ha, h2.2⟩⟩

/-- **What a search finds, and what it leaves visited.** -/
theorem meets_search : ∀ (limit : ℕ) (a : α) (s : List α),
    (search look exhausted limit a).Meets s (Ends look [a] s) fun e _ => e = exhausted
  | 0, _, _ => rfl
  | limit + 1, a, s => by
    rw [search, Program.meets_bind, Program.meets_get]
    by_cases ha : a ∈ s
    · rw [if_pos ha]
      exact ⟨.refl s, List.cons_subset.mpr ⟨ha, List.nil_subset s⟩⟩
    · rw [if_neg ha, Program.meets_bind, Program.meets_modify]
      cases hlook : look a with
      | none => exact ⟨a, List.mem_singleton_self a, a, .refl, hlook⟩
      | some next =>
        refine (meets_anyM (meets_search limit) next (a :: s)).mono (fun found s' h => ?_) fun _ _ he => he
        cases found with
        | true =>
          obtain ⟨b, hb, c, hbc, hc⟩ := h
          exact ⟨a, List.mem_singleton_self a, c, .head ⟨next, hlook, hb⟩ hbc, hc⟩
        | false =>
          have has : a ∈ s' := h.1.subset List.mem_cons_self
          exact ⟨h.1.of_next hlook h.2, List.cons_subset.mpr ⟨has, List.nil_subset s'⟩⟩

/-- **A search that returns is right.** -/
theorem search_true_iff {limit : ℕ} {a : α} {found : Bool} {s' : List α}
    (h : (search look exhausted limit a).run [] = .ok found s') : found = true ↔ Hits look a := by
  have hends : Ends look [a] [] found s' := (meets_search limit a []).of_run_eq_ok h
  cases found with
  | true =>
    obtain ⟨b, hb, hhits⟩ := hends
    rw [List.mem_singleton] at hb
    exact iff_of_true rfl (hb ▸ hhits)
  | false =>
    refine iff_of_false (by simp) ?_
    rintro ⟨b, hab, hb⟩
    have hmem : b ∈ s' := hends.1.mem_of_reaches hab (hends.2 (List.mem_singleton_self a))
    obtain ⟨next, hlook, -⟩ := hends.1.closed b hmem List.not_mem_nil
    rw [hb] at hlook
    cases hlook

/-! ### The depth of the recursion -/

/-- The nodes of `nodes` that were not visited. -/
def unseen (nodes : Finset α) (s : List α) : ℕ := (nodes.filter (· ∉ s)).card

theorem unseen_mono {nodes : Finset α} {s s' : List α} (h : s ⊆ s') : unseen nodes s' ≤ unseen nodes s :=
  Finset.card_le_card (Finset.monotone_filter_right nodes fun _ _ hn hs => hn (h hs))

theorem unseen_lt {nodes : Finset α} {s : List α} {a : α} (ha : a ∈ nodes) (hn : a ∉ s) :
    unseen nodes (a :: s) < unseen nodes s := by
  have hsubset : nodes.filter (· ∉ a :: s) ⊆ nodes.filter (· ∉ s) :=
    Finset.monotone_filter_right nodes fun _ _ hb hs => hb (List.mem_cons_of_mem a hs)
  refine Finset.card_lt_card ((Finset.ssubset_iff_of_subset hsubset).mpr ⟨a, ?_, ?_⟩)
  · exact Finset.mem_filter.mpr ⟨ha, hn⟩
  · exact fun h => (Finset.mem_filter.mp h).2 List.mem_cons_self

/-- The calls of a loop return where each call returns that is made with as
much visited as before it, or more. -/
theorem anyM_returns {visit : α → Program (List α) ε Bool} {s0 : List α} :
    ∀ (nodes s : List α), (∀ a ∈ nodes, ∀ s, s0 ⊆ s → (visit a).Meets s (fun _ s' => s ⊆ s') fun _ _ => False) →
      s0 ⊆ s → (nodes.anyM visit).Meets s (fun _ s' => s ⊆ s') fun _ _ => False
  | [], s, _, _ => List.Subset.refl s
  | a :: nodes, s, hvisit, hs => by
    rw [List.forall_mem_cons] at hvisit
    rw [List.anyM, Program.meets_bind]
    refine (hvisit.1 s hs).mono (fun found s1 h1 => ?_) fun _ _ he => he
    cases found with
    | true => exact h1
    | false =>
      have hrest := anyM_returns nodes s1 hvisit.2 (List.Subset.trans hs h1)
      exact hrest.mono (fun _ s2 h2 => List.Subset.trans h1 h2) fun _ _ he => he

/-- A search of nodes that lead to none but themselves does not exhaust a limit
above the number of those that were not visited. -/
theorem meets_search_returns {nodes : Finset α}
    (hclosed : ∀ a ∈ nodes, ∀ next, look a = some next → ∀ b ∈ next, b ∈ nodes) :
    ∀ (limit : ℕ) (a : α) (s : List α), a ∈ nodes → unseen nodes s < limit →
      (search look exhausted limit a).Meets s (fun _ s' => s ⊆ s') fun _ _ => False
  | 0, _, _, _, h => absurd h (Nat.not_lt_zero _)
  | limit + 1, a, s, hmem, h => by
    rw [search, Program.meets_bind, Program.meets_get]
    by_cases ha : a ∈ s
    · rw [if_pos ha]
      exact List.Subset.refl s
    · rw [if_neg ha, Program.meets_bind, Program.meets_modify]
      have hcons : s ⊆ a :: s := fun b hb => List.mem_cons_of_mem a hb
      cases hlook : look a with
      | none => exact hcons
      | some next =>
        have hlt : unseen nodes (a :: s) < limit := by
          have := unseen_lt hmem ha
          omega
        have hvisit (b : α) (hb : b ∈ next) (s1 : List α) (hs1 : a :: s ⊆ s1) :
            (search look exhausted limit b).Meets s1 (fun _ s' => s1 ⊆ s') fun _ _ => False :=
          meets_search_returns hclosed limit b s1 (hclosed a hmem next hlook b hb)
            (lt_of_le_of_lt (unseen_mono hs1) hlt)
        exact (anyM_returns next (a :: s) hvisit (List.Subset.refl _)).mono
          (fun _ s' h' => List.Subset.trans hcons h') fun _ _ he => he

/-- **A search returns** if the limit is above the number of nodes. -/
theorem search_returns {nodes : Finset α} (hclosed : ∀ a ∈ nodes, ∀ next, look a = some next → ∀ b ∈ next, b ∈ nodes)
    {limit : ℕ} (hlimit : nodes.card < limit) {a : α} (ha : a ∈ nodes) :
    ∃ found s', (search look exhausted limit a).run [] = .ok found s' := by
  have hunseen : unseen nodes [] < limit := lt_of_le_of_lt (Finset.card_filter_le nodes _) hlimit
  have hmeets : (search look exhausted limit a).Meets [] (fun _ s' => [] ⊆ s') fun _ _ => False :=
    meets_search_returns hclosed limit a [] ha hunseen
  cases hrun : (search look exhausted limit a).run [] with
  | ok found s' => exact ⟨found, s', rfl⟩
  | error e s' => exact (hmeets.of_run_eq_error hrun).elim

end Search
end GpgMeister
