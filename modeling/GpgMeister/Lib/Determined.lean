/-
# Programs that end alike from many states

A program is `Determined` on the states with `I` if it ends in the same way
from each of them, with an equal result or an equal exception, and in a state
with `I` again. What a result is compared by is a function `p` of it, for some
results say where something is in the state. The rules follow the forms of a
program; `Determined.ok` is what they are for: what returned from one such
state returns from every other.
-/
import GpgMeister.Lib.Program

namespace GpgMeister
namespace Program

variable {σ ε α β γ δ : Type} {I : σ → Prop}

/-- From every state with `I` the program ends as `r` says, with `I`. -/
def Settles (I : σ → Prop) (p : α → β) (x : Program σ ε α) (r : Except ε β) : Prop :=
  ∀ s, I s → x.Meets s (fun a s' => r = .ok (p a) ∧ I s') fun e s' => r = .error e ∧ I s'

def Determined (I : σ → Prop) (p : α → β) (x : Program σ ε α) : Prop := ∃ r, Settles I p x r

namespace Settles

variable {p : α → β} {x : Program σ ε α} {r : Except ε β} {s s' : σ}

theorem pure (a : α) : Settles I p (Pure.pure a : Program σ ε α) (.ok (p a)) := fun _ hs => ⟨rfl, hs⟩

theorem raise (e : ε) : Settles I p (Program.raise e : Program σ ε α) (.error e) := fun _ hs => ⟨rfl, hs⟩

theorem ofExcept (r : Except ε α) : Settles I id (Program.ofExcept r) r := by
  intro s hs
  cases r with
  | ok a => exact ⟨rfl, hs⟩
  | error e => exact ⟨rfl, hs⟩

theorem ok (h : Settles I p x r) (hs : I s) {a : α} (hrun : x.run s = .ok a s') : r = .ok (p a) ∧ I s' :=
  (h s hs).of_run_eq_ok hrun

theorem error (h : Settles I p x r) (hs : I s) {e : ε} (hrun : x.run s = .error e s') : r = .error e ∧ I s' :=
  (h s hs).of_run_eq_error hrun

theorem bind (h : Settles I p x r) {q : γ → δ} {f : α → Program σ ε γ} {g : β → Except ε δ}
    (hf : ∀ a, Settles I q (f a) (g (p a))) : Settles I q (x >>= f) (r.bind g) := by
  intro s hs
  rw [meets_bind]
  refine (h s hs).mono ?_ ?_
  · rintro a s' ⟨rfl, hs'⟩
    exact hf a s' hs'
  · rintro e s' ⟨rfl, hs'⟩
    exact ⟨rfl, hs'⟩

theorem catching (h : Settles I p x r) {handler : ε → Program σ ε α} {g : ε → Except ε β}
    (hh : ∀ e, Settles I p (handler e) (g e)) : Settles I p (x.catching handler) (r.tryCatch g) := by
  intro s hs
  rw [meets_catching]
  refine (h s hs).mono ?_ ?_
  · rintro a s' ⟨rfl, hs'⟩
    exact ⟨rfl, hs'⟩
  · rintro e s' ⟨rfl, hs'⟩
    exact hh e s' hs'

theorem map (h : Settles I p x r) {q : γ → δ} {f : α → γ} {g : β → δ} (hf : ∀ a, q (f a) = g (p a)) :
    Settles I q (f <$> x) (r.map g) := by
  intro s hs
  rw [map_eq_pure_bind, meets_bind]
  refine (h s hs).mono ?_ ?_
  · rintro a s' ⟨rfl, hs'⟩
    exact ⟨congrArg Except.ok (hf a).symm, hs'⟩
  · rintro e s' ⟨rfl, hs'⟩
    exact ⟨rfl, hs'⟩

/-- What comes after an end that is known. -/
theorem bind_of_ok {b : β} (h : Settles I p x (.ok b)) {q : γ → δ} {f : α → Program σ ε γ} {r' : Except ε δ}
    (hf : ∀ a, p a = b → Settles I q (f a) r') : Settles I q (x >>= f) r' := by
  intro s hs
  rw [meets_bind]
  refine (h s hs).mono ?_ fun _ _ h => by cases h.1
  rintro a s' ⟨hb, hs'⟩
  exact hf a (Except.ok.inj hb).symm s' hs'

/-- A handler that is not reached. -/
theorem catching_ok {b : β} (h : Settles I p x (.ok b)) (handler : ε → Program σ ε α) :
    Settles I p (x.catching handler) (.ok b) := by
  intro s hs
  rw [meets_catching]
  exact (h s hs).mono (fun _ _ h => h) fun _ _ h => by cases h.1

/-- From every state with `I` the program returns the same. -/
theorem of_meets {b : β} (h : ∀ s, I s → x.Meets s (fun a s' => p a = b ∧ I s') fun _ _ => False) :
    Settles I p x (.ok b) := by
  intro s hs
  exact (h s hs).mono (fun a s' h => ⟨by rw [h.1], h.2⟩) fun _ _ h => h.elim

/-- With one end known, it is the end from every state. -/
theorem run_of_ok {b : β} (h : Settles I p x (.ok b)) (hs : I s) : ∃ a s', x.run s = .ok a s' ∧ p a = b ∧ I s' := by
  cases hrun : x.run s with
  | ok a s' =>
    obtain ⟨hb, hs'⟩ := h.ok hs hrun
    exact ⟨a, s', rfl, (Except.ok.inj hb).symm, hs'⟩
  | error e s' => cases (h.error hs hrun).1

end Settles

namespace Determined

variable {p : α → β} {x : Program σ ε α} {s s' t : σ}

theorem pure (a : α) : Determined I p (Pure.pure a : Program σ ε α) := ⟨_, .pure a⟩

theorem raise (e : ε) : Determined I p (Program.raise e : Program σ ε α) := ⟨_, .raise e⟩

theorem ofExcept (r : Except ε α) : Determined I id (Program.ofExcept r : Program σ ε α) := ⟨_, .ofExcept r⟩

theorem map (h : Determined I id x) (f : α → γ) : Determined I id (f <$> x) := by
  obtain ⟨r, hr⟩ := h
  exact ⟨_, hr.map (g := f) fun _ => rfl⟩

/-- What comes next may depend on more than is compared, if it ends alike. -/
theorem bind_of (h : Determined I p x) {q : γ → δ} {f : α → Program σ ε γ}
    (hf : ∀ b, ∃ r, ∀ a, p a = b → Settles I q (f a) r) : Determined I q (x >>= f) := by
  obtain ⟨r, hr⟩ := h
  choose g hg using hf
  exact ⟨r.bind g, hr.bind fun a => hg (p a) a rfl⟩

theorem bind (h : Determined I id x) {q : γ → δ} {f : α → Program σ ε γ} (hf : ∀ a, Determined I q (f a)) :
    Determined I q (x >>= f) := by
  refine h.bind_of fun b => ?_
  obtain ⟨r, hr⟩ := hf b
  refine ⟨r, fun a ha => ?_⟩
  obtain rfl : a = b := ha
  exact hr

theorem catching (h : Determined I p x) {handler : ε → Program σ ε α} (hh : ∀ e, Determined I p (handler e)) :
    Determined I p (x.catching handler) := by
  obtain ⟨r, hr⟩ := h
  choose g hg using hh
  exact ⟨r.tryCatch g, hr.catching hg⟩

/-- **What returned from one state returns from every other.** -/
theorem ok (h : Determined I p x) (hs : I s) (ht : I t) {a : α} (hrun : x.run s = .ok a s') :
    ∃ b t', x.run t = .ok b t' ∧ p b = p a ∧ I t' := by
  obtain ⟨r, hr⟩ := h
  obtain ⟨rfl, -⟩ := hr.ok hs hrun
  exact hr.run_of_ok ht

theorem inv_of_ok (h : Determined I p x) (hs : I s) {a : α} (hrun : x.run s = .ok a s') : I s' := by
  obtain ⟨r, hr⟩ := h
  exact (hr.ok hs hrun).2

theorem inv_of_error (h : Determined I p x) (hs : I s) {e : ε} (hrun : x.run s = .error e s') : I s' := by
  obtain ⟨r, hr⟩ := h
  exact (hr.error hs hrun).2

end Determined
end Program
end GpgMeister
