/-
# Transition systems and their runs

A `System` is a set of initial states and a labelled step relation. What the
protocols of the application need from it is the invariant rule, for all runs
(`Reachable.inv`) and for the runs all of whose steps meet a condition
(`System.restrict`): a property that the initial states have and every step
that meets the condition keeps holds in every state such a run reaches.

Where the step is a partial function of the state and the label
(`System.ofStep`), a run is a list of labels and can be evaluated
(`runLabels`, `reachable_of_runLabels`,
`reachable_restrict_of_runLabels`).
-/
import Mathlib.Tactic

namespace GpgMeister

/-- A labelled transition system. -/
structure System (σ ι : Type) where
  init : σ → Prop
  step : σ → ι → σ → Prop

namespace System

variable {σ ι : Type} {S : System σ ι}

/-- The states the system's runs reach. -/
inductive Reachable (S : System σ ι) : σ → Prop
  | init {s : σ} : S.init s → Reachable S s
  | step {s s' : σ} (l : ι) : Reachable S s → S.step s l s' → Reachable S s'

/-- The system with only the steps that meet `good`, a condition on the state
before the step and its label. -/
def restrict (S : System σ ι) (good : σ → ι → Prop) : System σ ι where
  init := S.init
  step s l s' := good s l ∧ S.step s l s'

/-- **The invariant rule.** -/
theorem Reachable.inv {P : σ → Prop} (h0 : ∀ s, S.init s → P s)
    (hs : ∀ s l s', P s → S.step s l s' → P s') {s : σ} (h : Reachable S s) : P s := by
  induction h with
  | init hi => exact h0 _ hi
  | step l _ hst ih => exact hs _ l _ ih hst

/-- A restricted run is a run. -/
theorem Reachable.of_restrict {good : σ → ι → Prop} {s : σ} (h : Reachable (S.restrict good) s) :
    Reachable S s :=
  h.inv (fun _ hi => .init hi) fun _ l _ ih hst => .step l ih hst.2

/-- The system of a step function: a label the state does not allow has no
step. -/
def ofStep (init : σ → Prop) (f : σ → ι → Option σ) : System σ ι where
  init := init
  step s l s' := f s l = some s'

/-- The state after a list of labels, if every one of them is allowed. -/
def runLabels (f : σ → ι → Option σ) : σ → List ι → Option σ
  | s, [] => some s
  | s, l :: ls => (f s l).bind fun s' => runLabels f s' ls

theorem reachable_of_runLabels {init : σ → Prop} {f : σ → ι → Option σ} :
    ∀ (ls : List ι) {s s' : σ}, Reachable (ofStep init f) s → runLabels f s ls = some s' →
      Reachable (ofStep init f) s'
  | [], _, _, h, hr => by
    cases hr
    exact h
  | l :: ls, s, s', h, hr => by
    obtain ⟨s1, h1, h2⟩ := Option.bind_eq_some_iff.mp hr
    exact reachable_of_runLabels ls (.step l h h1) h2

/-- The step function with only the steps that meet `good`. -/
def guarded (good : σ → ι → Prop) [∀ s l, Decidable (good s l)] (f : σ → ι → Option σ) (s : σ)
    (l : ι) : Option σ :=
  if good s l then f s l else none

theorem reachable_restrict_of_runLabels {init : σ → Prop} {good : σ → ι → Prop}
    [∀ s l, Decidable (good s l)] {f : σ → ι → Option σ} :
    ∀ (ls : List ι) {s s' : σ}, Reachable ((ofStep init f).restrict good) s →
      runLabels (guarded good f) s ls = some s' → Reachable ((ofStep init f).restrict good) s'
  | [], _, _, h, hr => by
    cases hr
    exact h
  | l :: ls, s, s', h, hr => by
    obtain ⟨s1, h1, h2⟩ := Option.bind_eq_some_iff.mp hr
    unfold guarded at h1
    split at h1
    · rename_i hg
      exact reachable_restrict_of_runLabels ls (.step l h ⟨hg, h1⟩) h2
    · cases h1

end System
end GpgMeister
