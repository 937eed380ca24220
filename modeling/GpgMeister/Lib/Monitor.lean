/-
# Objects behind a lock

An object that any number of threads share: an operation runs under the lock of
the object, in atomic steps, and each step sees the state that the object is in
and what the world puts in its way (an input, such as a fault). What has been
done under the lock is kept in a log, in order.

A property of the states of the object (`Holds`) is proved for one operation at
a time, as if there were no threads. `Reachable.good` is the rule that makes of
it a property of every state of every interleaving.
-/
import GpgMeister.Lib.System

namespace GpgMeister
namespace Monitor

variable {σ ι ε α β : Type}

/-! ### Operations -/

/-- What is left of an operation: it has come to its end, or there is a step,
with what is left after it and what it makes of the state. -/
inductive Steps (σ ι ε α : Type)
  | done (r : Except ε α)
  | step (next : ι → σ → Steps σ ι ε α) (set : ι → σ → σ)

namespace Steps

/-- `x`, and then what depends on how `x` has ended. -/
def andThen : Steps σ ι ε α → (Except ε α → Steps σ ι ε β) → Steps σ ι ε β
  | done r, f => f r
  | step next set, f => step (fun i s => (next i s).andThen f) set

instance : Monad (Steps σ ι ε) where
  pure a := done (.ok a)
  bind x f := x.andThen fun
    | .ok a => f a
    | .error e => done (.error e)

def raise (e : ε) : Steps σ ι ε α := done (.error e)

/-- One step. -/
def atomic (f : ι → σ → Except ε α × σ) : Steps σ ι ε α := step (fun i s => done (f i s).1) fun i s => (f i s).2

/-- `P` holds all along the way of an operation, and `Q` at its end. -/
def Holds (P : σ → Prop) (Q : Except ε α → σ → Prop) : Steps σ ι ε α → σ → Prop
  | done r, s => P s ∧ Q r s
  | step next set, s => P s ∧ ∀ i, Holds P Q (next i s) (set i s)

variable {P P' : σ → Prop} {Q Q' : Except ε α → σ → Prop} {s : σ}

@[simp] theorem holds_done {r : Except ε α} : Holds (ι := ι) P Q (done r) s ↔ P s ∧ Q r s := Iff.rfl

@[simp] theorem holds_pure {a : α} : Holds P Q (pure a : Steps σ ι ε α) s ↔ P s ∧ Q (.ok a) s := Iff.rfl

@[simp] theorem holds_raise {e : ε} : Holds P Q (raise e : Steps σ ι ε α) s ↔ P s ∧ Q (.error e) s := Iff.rfl

@[simp] theorem holds_atomic {f : ι → σ → Except ε α × σ} :
    Holds P Q (atomic f) s ↔ P s ∧ ∀ i, P (f i s).2 ∧ Q (f i s).1 (f i s).2 := Iff.rfl

theorem Holds.here : ∀ {x : Steps σ ι ε α} {s : σ}, Holds P Q x s → P s
  | done _, _, h => h.1
  | step _ _, _, h => h.1

theorem Holds.mono (hP : ∀ s, P s → P' s) (hQ : ∀ r s, Q r s → Q' r s) : ∀ {x : Steps σ ι ε α} {s : σ},
    Holds P Q x s → Holds P' Q' x s
  | done _, _, h => ⟨hP _ h.1, hQ _ _ h.2⟩
  | step _ _, _, h => ⟨hP _ h.1, fun i => (h.2 i).mono hP hQ⟩

/-- At the end, what holds all along the way does too. -/
theorem Holds.at_end : ∀ {x : Steps σ ι ε α} {s : σ}, Holds P Q x s → Holds P (fun r s' => P s' ∧ Q r s') x s
  | done _, _, h => ⟨h.1, h⟩
  | step _ _, _, h => ⟨h.1, fun i => (h.2 i).at_end⟩

theorem Holds.andThen {f : Except ε α → Steps σ ι ε β} {R : Except ε β → σ → Prop} :
    ∀ {x : Steps σ ι ε α} {s : σ}, Holds P (fun r s' => Holds P R (f r) s') x s → Holds P R (x.andThen f) s
  | done _, _, h => h.2
  | step _ _, _, h => ⟨h.1, fun i => (h.2 i).andThen⟩

/-- The rule of a sequence. -/
theorem Holds.bind {x : Steps σ ι ε α} {f : α → Steps σ ι ε β} {R : Except ε β → σ → Prop}
    (h : Holds P (fun r s' => match r with | .ok a => Holds P R (f a) s' | .error e => R (.error e) s') x s) :
    Holds P R (x >>= f) s := by
  refine Holds.andThen (h.at_end.mono (fun _ hs => hs) ?_)
  rintro (e | a) s' ⟨hs, hr⟩
  · exact ⟨hs, hr⟩
  · exact hr

end Steps

/-! ### The object and its threads -/

variable {ω ρ τ : Type}

/-- An object: the state it starts in, and what an operation does before it
waits for the lock, where it may fail, and then under the lock. -/
structure Object (σ ι ε ω ρ : Type) where
  init : σ
  enter : ω → Except ε (Steps σ ι ε ρ)

/-- An operation that has come to its end. -/
structure Entry (ε ω ρ τ : Type) where
  thread : τ
  op : ω
  result : Except ε ρ

/-- The operation that runs, with the state that it has found and what is left
of it. -/
structure Running (σ ι ε ω ρ τ : Type) where
  thread : τ
  op : ω
  before : σ
  rest : Steps σ ι ε ρ

structure State (σ ι ε ω ρ τ : Type) where
  shared : σ
  waiting : τ → Option (ω × Steps σ ι ε ρ)
  running : Option (Running σ ι ε ω ρ τ)
  log : List (Entry ε ω ρ τ)

inductive Label (ι ω τ : Type)
  /-- A thread calls an operation, and waits for the lock if it does not fail. -/
  | call (thread : τ) (op : ω)
  | acquire (thread : τ)
  /-- A step of the operation that runs. -/
  | step (input : ι)
  | release

namespace Object

variable [DecidableEq τ] (O : Object σ ι ε ω ρ)

def initial : State σ ι ε ω ρ τ where
  shared := O.init
  waiting _ := none
  running := none
  log := []

def step (s : State σ ι ε ω ρ τ) : Label ι ω τ → Option (State σ ι ε ω ρ τ)
  | .call t op =>
    if (s.waiting t).isSome ∨ s.running.any (·.thread = t) then none
    else
      match O.enter op with
      | .error _ => some s
      | .ok body => some { s with waiting := Function.update s.waiting t (some (op, body)) }
  | .acquire t =>
    match s.running, s.waiting t with
    | none, some (op, body) =>
      some
        { s with
          waiting := Function.update s.waiting t none
          running := some { thread := t, op, before := s.shared, rest := body } }
    | _, _ => none
  | .step i =>
    match s.running with
    | some { thread, op, before, rest := .step next set } =>
      some { s with shared := set i s.shared, running := some { thread, op, before, rest := next i s.shared } }
    | _ => none
  | .release =>
    match s.running with
    | some { thread, op, before := _, rest := .done result } =>
      some { s with running := none, log := s.log ++ [⟨thread, op, result⟩] }
    | _ => none

/-- The object with its threads. -/
def system : System (State σ ι ε ω ρ τ) (Label ι ω τ) := .ofStep (· = O.initial) O.step

variable {O} {I : List (Entry ε ω ρ τ) → σ → Prop} {P : ω → σ → σ → Prop} {Q : ω → σ → Except ε ρ → σ → Prop}

/-- Where an operation is to end that has found the state `before`. -/
def Ends (I : List (Entry ε ω ρ τ) → σ → Prop) (Q : ω → σ → Except ε ρ → σ → Prop) (log : List (Entry ε ω ρ τ))
    (op : ω) (before : σ) (result : Except ε ρ) (after : σ) : Prop :=
  Q op before result after ∧ ∀ thread, I (log ++ [⟨thread, op, result⟩]) after

/-- Between operations the log tells of the state; while one runs, what holds
along its way does. -/
structure Good (O : Object σ ι ε ω ρ) (I : List (Entry ε ω ρ τ) → σ → Prop) (P : ω → σ → σ → Prop)
    (Q : ω → σ → Except ε ρ → σ → Prop) (s : State σ ι ε ω ρ τ) : Prop where
  waiting : ∀ t op body, s.waiting t = some (op, body) → O.enter op = .ok body
  free : s.running = none → I s.log s.shared
  running : ∀ r, s.running = some r →
    I s.log r.before ∧ r.rest.Holds (P r.op r.before) (Ends I Q s.log r.op r.before) s.shared

namespace Good

variable {s s' : State σ ι ε ω ρ τ}

theorem call (h : Good O I P Q s) {t : τ} {op : ω} (hstep : O.step s (.call t op) = some s') : Good O I P Q s' := by
  unfold Object.step at hstep
  dsimp only at hstep
  split_ifs at hstep
  cases henter : O.enter op with
  | error e =>
    rw [henter] at hstep
    obtain rfl := Option.some.inj hstep
    exact h
  | ok body =>
    rw [henter] at hstep
    obtain rfl := Option.some.inj hstep
    refine ⟨fun t' op' body' hw => ?_, h.free, h.running⟩
    dsimp only at hw
    by_cases ht : t' = t
    · subst ht
      rw [Function.update_self] at hw
      obtain ⟨rfl, rfl⟩ := Prod.mk.inj (Option.some.inj hw)
      exact henter
    · rw [Function.update_of_ne ht] at hw
      exact h.waiting t' op' body' hw

theorem acquire (h : Good O I P Q s)
    (hop : ∀ log s op body, I log s → O.enter op = .ok body → body.Holds (P op s) (Ends I Q log op s) s) {t : τ}
    (hstep : O.step s (.acquire t) = some s') : Good O I P Q s' := by
  unfold Object.step at hstep
  cases hr : s.running with
  | some r => simp [hr] at hstep
  | none =>
    cases hw : s.waiting t with
    | none => simp [hr, hw] at hstep
    | some w =>
      obtain ⟨op, body⟩ := w
      simp only [hr, hw] at hstep
      obtain rfl := Option.some.inj hstep
      refine ⟨fun t' op' body' hw' => ?_, nofun, fun r hr' => ?_⟩
      · dsimp only at hw'
        by_cases ht : t' = t
        · subst ht
          rw [Function.update_self] at hw'
          cases hw'
        · rw [Function.update_of_ne ht] at hw'
          exact h.waiting t' op' body' hw'
      · obtain rfl := Option.some.inj hr'
        exact ⟨h.free hr, hop _ _ _ _ (h.free hr) (h.waiting t op body hw)⟩

theorem step (h : Good O I P Q s) {i : ι} (hstep : O.step s (.step i) = some s') : Good O I P Q s' := by
  unfold Object.step at hstep
  cases hr : s.running with
  | none => simp [hr] at hstep
  | some r =>
    obtain ⟨t, op, before, rest⟩ := r
    cases rest with
    | done result => simp [hr] at hstep
    | step next set =>
      simp only [hr] at hstep
      obtain rfl := Option.some.inj hstep
      obtain ⟨hI, hrest⟩ := h.running _ hr
      refine ⟨h.waiting, nofun, fun r hr' => ?_⟩
      obtain rfl := Option.some.inj hr'
      exact ⟨hI, hrest.2 i⟩

theorem release (h : Good O I P Q s) (hstep : O.step s .release = some s') : Good O I P Q s' := by
  unfold Object.step at hstep
  cases hr : s.running with
  | none => simp [hr] at hstep
  | some r =>
    obtain ⟨t, op, before, rest⟩ := r
    cases rest with
    | step next set => simp [hr] at hstep
    | done result =>
      simp only [hr] at hstep
      obtain rfl := Option.some.inj hstep
      obtain ⟨-, hrest⟩ := h.running _ hr
      exact ⟨h.waiting, fun _ => hrest.2.2 t, nofun⟩

end Good

/-- **The rule for objects.** What every operation keeps, run from beginning to
end without interference, holds between the operations of any interleaving;
what holds along the way of every operation holds along its way there. -/
theorem good_of_reachable (h0 : I [] O.init)
    (hop : ∀ log s op body, I log s → O.enter op = .ok body → body.Holds (P op s) (Ends I Q log op s) s)
    {s : State σ ι ε ω ρ τ} (h : O.system.Reachable s) : Good O I P Q s := by
  refine h.inv ?_ ?_
  · rintro s rfl
    exact ⟨nofun, fun _ => h0, nofun⟩
  · rintro s (⟨t, op⟩ | t | i | _) s' hs hstep
    · exact hs.call hstep
    · exact hs.acquire hop hstep
    · exact hs.step hstep
    · exact hs.release hstep

end Object
end Monitor
end GpgMeister
