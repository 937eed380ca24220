/-
# Programs that do the same

Two programs run on states of two kinds, which stand in a relation. They agree
if they end alike, with states that stand in the relation again. There is a
rule for each way to build a program.
-/
import GpgMeister.Lib.Program

namespace GpgMeister
namespace Program

variable {σ τ ε α β : Type} {R : σ → τ → Prop}

/-- From states in the relation the two end alike, in states in the relation. -/
def Agree (R : σ → τ → Prop) (x : Program σ ε α) (y : Program τ ε α) : Prop :=
  ∀ s t, R s t →
    x.Meets s (fun a s' => ∃ t', y.run t = .ok a t' ∧ R s' t') fun e s' => ∃ t', y.run t = .error e t' ∧ R s' t'

namespace Agree

variable {x : Program σ ε α} {y : Program τ ε α}

theorem pure (a : α) : Agree R (Pure.pure a : Program σ ε α) (Pure.pure a) := fun _ t h => ⟨t, rfl, h⟩

theorem raise (e : ε) : Agree R (Program.raise e : Program σ ε α) (Program.raise e) := fun _ t h => ⟨t, rfl, h⟩

theorem ofExcept (r : Except ε α) : Agree R (Program.ofExcept r : Program σ ε α) (Program.ofExcept r) := by
  cases r with
  | ok a => exact pure a
  | error e => exact raise e

theorem bind {f : α → Program σ ε β} {g : α → Program τ ε β} (hx : Agree R x y) (hf : ∀ a, Agree R (f a) (g a)) :
    Agree R (x >>= f) (y >>= g) := by
  intro s t h
  rw [meets_bind]
  refine (hx s t h).mono (fun a s' hs => ?_) fun e s' hs => ?_
  · obtain ⟨t', hy, h'⟩ := hs
    rw [EStateM.run_bind, hy]
    exact hf a s' t' h'
  · obtain ⟨t', hy, h'⟩ := hs
    exact ⟨t', by rw [EStateM.run_bind, hy], h'⟩

/-- Each looks at its own state. -/
theorem bind_get {f : σ → Program σ ε β} {g : τ → Program τ ε β} (hf : ∀ s t, R s t → Agree R (f s) (g t)) :
    Agree R (MonadState.get >>= f) (MonadState.get >>= g) := fun s t h => hf s t h s t h

theorem catching {handler : ε → Program σ ε α} {handler' : ε → Program τ ε α} (hx : Agree R x y)
    (hh : ∀ e, Agree R (handler e) (handler' e)) : Agree R (x.catching handler) (y.catching handler') := by
  intro s t h
  rw [meets_catching]
  refine (hx s t h).mono (fun a s' hs => ?_) fun e s' hs => ?_
  · obtain ⟨t', hy, h'⟩ := hs
    exact ⟨t', by rw [run_catching, hy], h'⟩
  · obtain ⟨t', hy, h'⟩ := hs
    rw [run_catching, hy]
    exact hh e s' t' h'

/-- A part of the state on each side. -/
theorem onPart {σ' τ' : Type} {R' : σ' → τ' → Prop} {get : σ' → σ} {get' : τ' → τ} {set : σ → σ' → σ'} {set' : τ → τ' → τ'}
    (hx : Agree R x y) (hget : ∀ s t, R' s t → R (get s) (get' t))
    (hset : ∀ s t u v, R' s t → R u v → R' (set u s) (set' v t)) : Agree R' (x.onPart get set) (y.onPart get' set') := by
  intro s t h
  rw [meets_onPart]
  refine (hx _ _ (hget s t h)).mono (fun a u hu => ?_) fun e u hu => ?_
  · obtain ⟨v, hy, h'⟩ := hu
    exact ⟨set' v t, by rw [run_onPart, hy], hset s t u v h h'⟩
  · obtain ⟨v, hy, h'⟩ := hu
    exact ⟨set' v t, by rw [run_onPart, hy], hset s t u v h h'⟩

/-- What returns on the other side returns on this one. -/
theorem ok_of_ok (hx : Agree R x y) {s : σ} {t t' : τ} {a : α} (h : R s t) (hrun : y.run t = .ok a t') :
    ∃ s', x.run s = .ok a s' ∧ R s' t' := by
  have hends := hx s t h
  unfold Meets at hends
  cases hs : x.run s with
  | ok b s' =>
    rw [hs] at hends
    obtain ⟨t1, hy, h'⟩ := hends
    rw [hrun] at hy
    cases hy
    exact ⟨s', rfl, h'⟩
  | error e s' =>
    rw [hs] at hends
    obtain ⟨t1, hy, -⟩ := hends
    rw [hrun] at hy
    cases hy

theorem ensuring {last : Program σ ε Unit} {last' : Program τ ε Unit} (hx : Agree R x y)
    (hlast : Agree R last last') : Agree R (x.ensuring last) (y.ensuring last') := by
  intro s t h
  rw [meets_ensuring, run_ensuring]
  refine (hx s t h).mono (fun a s' hs => ?_) fun e s' hs => ?_
  · obtain ⟨t', hy, h'⟩ := hs
    rw [hy]
    simpa only [meets_bind, meets_pure] using hlast.bind (fun _ => pure a) s' t' h'
  · obtain ⟨t', hy, h'⟩ := hs
    rw [hy]
    have hraise : Agree R (last >>= fun _ => (Program.raise e : Program σ ε α)) (last' >>= fun _ => Program.raise e) :=
      hlast.bind fun _ => raise e
    simpa only [meets_bind, meets_raise] using hraise s' t' h'

end Agree
end Program
end GpgMeister
