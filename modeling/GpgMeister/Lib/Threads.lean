/-
# Threads on a shared state

A thread stops before each of its calls (`Script`), so that other threads may
run in between, and each call comes back with a value or raises. `Threads` are
any number of them on one state. The rule (`Threads.Reachable.inv`) has two
parts: each script keeps to a protocol that speaks of what the thread itself
knows (`Script.Safe`, shown for the script alone, along its structure), and
the calls that the protocols allow keep an invariant of the whole.
-/
import GpgMeister.Lib.System

namespace GpgMeister

/-- A program of calls `C`, which come back with a value or raise. -/
inductive Script (C : Type) (V : C → Type) (ε α : Type)
  | ret (r : Except ε α)
  | call (c : C) (rest : Except ε (V c) → Script C V ε α)

namespace Script

variable {C : Type} {V : C → Type} {ε α β μ : Type}

/-- What comes after the script, however it ends. -/
def followedBy (x : Script C V ε α) (f : Except ε α → Script C V ε β) : Script C V ε β :=
  match x with
  | .ret r => f r
  | .call c rest => .call c fun r => (rest r).followedBy f

def raise (e : ε) : Script C V ε α := .ret (.error e)

def perform (c : C) : Script C V ε (V c) := .call c .ret

instance : Monad (Script C V ε) where
  pure a := .ret (.ok a)
  bind x f := x.followedBy fun
    | .ok a => f a
    | .error e => .ret (.error e)

/-- `try: x finally: last`; what is done last may depend on how far `x` came. -/
def ensuring (x : Script C V ε α) (last : Except ε α → Script C V ε Unit) : Script C V ε α :=
  x.followedBy fun r => (last r).followedBy fun
    | .ok _ => .ret r
    | .error e => .ret (.error e)

/-- `with suppress(…): x` -/
def suppressing (caught : ε → Bool) (x : Script C V ε Unit) : Script C V ε Unit :=
  x.followedBy fun
    | .ok _ => .ret (.ok ())
    | .error e => if caught e then .ret (.ok ()) else .ret (.error e)

/-! ### Protocols -/

/-- What a thread that knows `μ` may call, and what it may know afterwards. -/
structure Protocol (C : Type) (V : C → Type) (ε μ : Type) where
  allowed : μ → C → Prop
  next : μ → (c : C) → Except ε (V c) → μ → Prop

/-- The script keeps to the protocol, and ends with `Q`. -/
def Safe (P : Protocol C V ε μ) (Q : Except ε α → μ → Prop) : Script C V ε α → μ → Prop
  | .ret r, m => Q r m
  | .call c rest, m => P.allowed m c ∧ ∀ r m', P.next m c r m' → Safe P Q (rest r) m'

variable {P : Protocol C V ε μ} {Q Q' : Except ε α → μ → Prop} {R : Except ε β → μ → Prop} {m : μ}

theorem Safe.followedBy {f : Except ε α → Script C V ε β} : ∀ {x : Script C V ε α} {m : μ},
    Safe P (fun r m => Safe P R (f r) m) x m → Safe P R (x.followedBy f) m
  | .ret _, _, h => h
  | .call _ _, _, h => ⟨h.1, fun r m' hnext => Safe.followedBy (h.2 r m' hnext)⟩

theorem Safe.mono (hQ : ∀ r m, Q r m → Q' r m) : ∀ {x : Script C V ε α} {m : μ}, Safe P Q x m → Safe P Q' x m
  | .ret r, m, h => hQ r m h
  | .call _ _, _, h => ⟨h.1, fun r m' hnext => Safe.mono hQ (h.2 r m' hnext)⟩

theorem Safe.perform {c : C} {Q : Except ε (V c) → μ → Prop} (hallowed : P.allowed m c)
    (h : ∀ r m', P.next m c r m' → Q r m') : Safe P Q (perform c) m := ⟨hallowed, h⟩

/-- A script, and what it goes on with if it returns. -/
theorem Safe.bind {x : Script C V ε α} {f : α → Script C V ε β} (hx : Safe P Q x m)
    (hok : ∀ a m, Q (.ok a) m → Safe P R (f a) m) (herror : ∀ e m, Q (.error e) m → R (.error e) m) :
    Safe P R (x >>= f) m := by
  refine Safe.followedBy (hx.mono fun r m h => ?_)
  cases r with
  | ok a => exact hok a m h
  | error e => exact herror e m h

theorem Safe.ensuring {x : Script C V ε α} {last : Except ε α → Script C V ε Unit}
    {L : Except ε α → Except ε Unit → μ → Prop} (hx : Safe P Q x m)
    (hlast : ∀ r m, Q r m → Safe P (L r) (last r) m) (hok : ∀ r u m, L r (.ok u) m → Q' r m)
    (herror : ∀ r e m, L r (.error e) m → Q' (.error e) m) : Safe P Q' (x.ensuring last) m := by
  refine Safe.followedBy (hx.mono fun r m h => Safe.followedBy ((hlast r m h).mono fun r' m h => ?_))
  cases r' with
  | ok u => exact hok r u m h
  | error e => exact herror r e m h

theorem Safe.suppressing {caught : ε → Bool} {x : Script C V ε Unit} {S T : Except ε Unit → μ → Prop}
    (hx : Safe P S x m) (hok : ∀ u m, S (.ok u) m → T (.ok ()) m)
    (herror : ∀ e m, S (.error e) m → caught e = true ∧ T (.ok ()) m ∨ caught e = false ∧ T (.error e) m) :
    Safe P T (x.suppressing caught) m := by
  refine Safe.followedBy (hx.mono fun r m h => ?_)
  cases r with
  | ok u => exact hok u m h
  | error e =>
    dsimp only
    rcases herror e m h with ⟨hcaught, hT⟩ | ⟨hcaught, hT⟩
    · rw [hcaught]
      exact hT
    · rw [hcaught]
      exact hT

end Script

/-! ### Threads -/

/-- A thread: what it knows, and what it has still to do. -/
structure Thread (C : Type) (V : C → Type) (ε α μ : Type) where
  mem : μ
  script : Script C V ε α

/-- A state, and the threads on it. -/
structure Threads (ι σ : Type) (C : Type) (V : C → Type) (ε α μ : Type) where
  shared : σ
  threads : ι → Thread C V ε α μ

namespace Threads

variable {ι σ C : Type} [DecidableEq ι] {V : C → Type} {ε α μ : Type}

/-- What a call of a thread does to the state and to what the thread knows. -/
abbrev Effect (ι σ C : Type) (V : C → Type) (ε μ : Type) :=
  ι → σ → μ → (c : C) → Except ε (V c) → σ → μ → Prop

/-- One thread makes its next call. -/
def Step (effect : Effect ι σ C V ε μ) (s : Threads ι σ C V ε α μ) (i : ι) (s' : Threads ι σ C V ε α μ) : Prop :=
  ∃ c rest r shared mem, (s.threads i).script = .call c rest ∧
    effect i s.shared (s.threads i).mem c r shared mem ∧
    s' = { shared, threads := Function.update s.threads i { mem, script := rest r } }

/-- The threads in any order, from this state. -/
def system (effect : Effect ι σ C V ε μ) (start : Threads ι σ C V ε α μ) : System (Threads ι σ C V ε α μ) ι where
  init s := s = start
  step := Step effect

/-- What every thread knows. -/
def mems (s : Threads ι σ C V ε α μ) (i : ι) : μ := (s.threads i).mem

/-- **The rule for threads.** -/
theorem inv {effect : Effect ι σ C V ε μ} {start : Threads ι σ C V ε α μ} {P : ι → Script.Protocol C V ε μ}
    {Q : ι → Except ε α → μ → Prop} {I : σ → (ι → μ) → Prop} (hinit : I start.shared start.mems)
    (hsafe : ∀ i, Script.Safe (P i) (Q i) (start.threads i).script (start.threads i).mem)
    (hstep : ∀ i s m c r s' mem, I s m → (P i).allowed (m i) c → effect i s (m i) c r s' mem →
      (P i).next (m i) c r mem ∧ I s' (Function.update m i mem))
    {s : Threads ι σ C V ε α μ} (h : (system effect start).Reachable s) :
    I s.shared s.mems ∧ ∀ i, Script.Safe (P i) (Q i) (s.threads i).script (s.threads i).mem := by
  refine h.inv (P := fun s : Threads ι σ C V ε α μ =>
    I s.shared s.mems ∧ ∀ i, Script.Safe (P i) (Q i) (s.threads i).script (s.threads i).mem) ?_ ?_
  · rintro s rfl
    exact ⟨hinit, hsafe⟩
  · rintro s i s' ⟨hI, hsafe⟩ ⟨c, rest, r, shared, mem, hscript, heffect, rfl⟩
    have hi := hsafe i
    rw [hscript] at hi
    obtain ⟨hnext, hI'⟩ := hstep i s.shared s.mems c r shared mem hI hi.1 heffect
    have hmems : (Threads.mk shared (Function.update s.threads i { mem, script := rest r }) :
        Threads ι σ C V ε α μ).mems = Function.update s.mems i mem := by
      funext j
      by_cases hj : j = i
      · subst hj
        simp [mems]
      · simp [mems, Function.update_of_ne hj]
    refine ⟨by rw [hmems]; exact hI', fun j => ?_⟩
    by_cases hj : j = i
    · subst hj
      simpa using hi.2 r mem hnext
    · simpa [Function.update_of_ne hj] using hsafe j

end Threads
end GpgMeister
