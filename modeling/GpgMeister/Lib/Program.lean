/-
# Programs that change a state and may raise

A program runs in a state and returns or raises; what it has changed before it
raises stays changed. There are the two forms of `try`, and four ways to
reason about a run: what has happened if it returned (`run_bind_eq_ok` and its
relatives), what holds at either end (`Meets`, the weakest precondition with
one postcondition for a return and one for an exception), which part of the
state it never changes (`Keeps`), and what it adds to a log (`Adds`). `Stays`
is an invariant together with the exceptions that may be raised.
-/
import Mathlib.Tactic

namespace GpgMeister

/-- A program on states `σ` that returns an `α` or raises an `ε`. -/
abbrev Program (σ ε α : Type) := EStateM ε σ α

namespace Program

variable {σ τ ω ε α β : Type}

def raise (e : ε) : Program σ ε α := fun s => .error e s

/-- A computation that changes nothing. -/
def ofExcept (r : Except ε α) : Program σ ε α := fun s =>
  match r with
  | .ok a => .ok a s
  | .error e => .error e s

/-- `try: x except Exception as e: handler(e)` -/
def catching (x : Program σ ε α) (handler : ε → Program σ ε α) : Program σ ε α := fun s =>
  match x.run s with
  | .ok a s => .ok a s
  | .error e s => (handler e).run s

/-- `try: x finally: last` -/
def ensuring (x : Program σ ε α) (last : Program σ ε Unit) : Program σ ε α := fun s =>
  match x.run s with
  | .ok a s => (last >>= fun _ => pure a).run s
  | .error e s => (last >>= fun _ => raise e).run s

/-- A program on a part of the state. -/
def onPart (get : τ → σ) (set : σ → τ → τ) (x : Program σ ε α) : Program τ ε α := fun t =>
  match x.run (get t) with
  | .ok a s => .ok a (set s t)
  | .error e s => .error e (set s t)

@[simp] theorem run_raise (e : ε) (s : σ) : (raise e : Program σ ε α).run s = .error e s := rfl

@[simp] theorem run_ofExcept_ok (a : α) (s : σ) : (ofExcept (.ok a) : Program σ ε α).run s = .ok a s := rfl

@[simp] theorem run_ofExcept_error (e : ε) (s : σ) :
    (ofExcept (.error e) : Program σ ε α).run s = .error e s := rfl

theorem run_catching (x : Program σ ε α) (handler : ε → Program σ ε α) (s : σ) :
    (x.catching handler).run s =
      match x.run s with
      | .ok a s => .ok a s
      | .error e s => (handler e).run s := rfl

theorem run_ensuring (x : Program σ ε α) (last : Program σ ε Unit) (s : σ) :
    (x.ensuring last).run s =
      match x.run s with
      | .ok a s => (last >>= fun _ => pure a).run s
      | .error e s => (last >>= fun _ => raise e).run s := rfl

theorem run_onPart (get : τ → σ) (set : σ → τ → τ) (x : Program σ ε α) (t : τ) :
    (x.onPart get set).run t =
      match x.run (get t) with
      | .ok a s => .ok a (set s t)
      | .error e s => .error e (set s t) := rfl

/-! ### Runs that return -/

theorem run_bind_eq_ok {x : Program σ ε α} {f : α → Program σ ε β} {b : β} {s s' : σ} :
    (x >>= f).run s = .ok b s' ↔ ∃ a s1, x.run s = .ok a s1 ∧ (f a).run s1 = .ok b s' := by
  rw [EStateM.run_bind]
  cases x.run s <;> simp

theorem run_bind_eq_error {x : Program σ ε α} {f : α → Program σ ε β} {e : ε} {s s' : σ} :
    (x >>= f).run s = .error e s' ↔ x.run s = .error e s' ∨ ∃ a s1, x.run s = .ok a s1 ∧ (f a).run s1 = .error e s' := by
  rw [EStateM.run_bind]
  cases x.run s <;> simp

theorem run_map_eq {x : Program σ ε α} {s : σ} (f : α → β) : (f <$> x).run s =
    match x.run s with
    | .ok a s' => .ok (f a) s'
    | .error e s' => .error e s' := by
  have hm : f <$> x = x >>= fun a => pure (f a) := rfl
  rw [hm, EStateM.run_bind]
  cases x.run s <;> rfl

theorem run_map_eq_ok {x : Program σ ε α} {f : α → β} {b : β} {s s' : σ} (h : (f <$> x).run s = .ok b s') :
    ∃ a, x.run s = .ok a s' := by
  rw [run_map_eq] at h
  cases hx : x.run s with
  | ok a s1 =>
    simp only [hx, EStateM.Result.ok.injEq] at h
    exact ⟨a, by rw [h.2]⟩
  | error e s1 => simp [hx] at h

theorem run_pure_eq_ok {a b : α} {s s' : σ} : (pure a : Program σ ε α).run s = .ok b s' ↔ a = b ∧ s = s' := by
  simp [EStateM.run_pure]

theorem run_ofExcept_eq_ok {r : Except ε α} {a : α} {s s' : σ} :
    (ofExcept r : Program σ ε α).run s = .ok a s' ↔ r = .ok a ∧ s = s' := by
  cases r <;> simp

theorem run_onPart_eq_ok {get : τ → σ} {set : σ → τ → τ} {x : Program σ ε α} {a : α} {t t' : τ} :
    (x.onPart get set).run t = .ok a t' ↔ ∃ s, x.run (get t) = .ok a s ∧ set s t = t' := by
  rw [run_onPart]
  cases x.run (get t) <;> simp

theorem run_catching_eq_error {x : Program σ ε α} {handler : ε → Program σ ε α} {e : ε} {s s' : σ} :
    (x.catching handler).run s = .error e s' ↔
      ∃ e1 s1, x.run s = .error e1 s1 ∧ (handler e1).run s1 = .error e s' := by
  rw [run_catching]
  cases x.run s <;> simp

/-- A handler that always raises. -/
theorem run_catching_eq_ok {x : Program σ ε α} {handler : ε → Program σ ε α}
    (hh : ∀ e s a s', (handler e).run s ≠ .ok a s') {a : α} {s s' : σ} :
    (x.catching handler).run s = .ok a s' ↔ x.run s = .ok a s' := by
  rw [run_catching]
  cases x.run s with
  | ok b s1 => exact Iff.rfl
  | error e s1 => exact iff_of_false (hh e s1 a s') (by simp)

/-- A `finally` that is reached after a return. -/
theorem run_ensuring_eq_ok {x : Program σ ε α} {last : Program σ ε Unit} {a : α} {s s' : σ} :
    (x.ensuring last).run s = .ok a s' ↔ ∃ s1, x.run s = .ok a s1 ∧ last.run s1 = .ok () s' := by
  rw [run_ensuring]
  cases x.run s with
  | ok b s1 =>
    dsimp only
    rw [run_bind_eq_ok]
    simp only [run_pure_eq_ok, EStateM.Result.ok.injEq]
    constructor
    · rintro ⟨u, s2, hl, rfl, rfl⟩
      exact ⟨s1, ⟨rfl, rfl⟩, hl⟩
    · rintro ⟨s2, ⟨rfl, rfl⟩, hl⟩
      exact ⟨(), s', hl, rfl, rfl⟩
  | error e s1 =>
    dsimp only
    rw [run_bind_eq_ok]
    simp

/-- The items of a list that returned, each from some state. -/
theorem forall₂_of_run_mapM {f : α → Program σ ε β} : ∀ {l : List α} {bs : List β} {s s' : σ},
    (l.mapM f).run s = .ok bs s' → List.Forall₂ (fun a b => ∃ t t', (f a).run t = .ok b t') l bs
  | [], bs, s, s', h => by
    obtain ⟨rfl, -⟩ := run_pure_eq_ok.mp h
    exact .nil
  | a :: l, bs, s, s', h => by
    rw [List.mapM_cons] at h
    obtain ⟨b, s1, hb, h⟩ := run_bind_eq_ok.mp h
    obtain ⟨bs', s2, hbs, h⟩ := run_bind_eq_ok.mp h
    obtain ⟨rfl, -⟩ := run_pure_eq_ok.mp h
    exact .cons ⟨s, s1, hb⟩ (forall₂_of_run_mapM hbs)

/-! ### What holds at either end -/

/-- The run from `s` returns with `Q` or raises with `E`. -/
def Meets (x : Program σ ε α) (s : σ) (Q : α → σ → Prop) (E : ε → σ → Prop) : Prop :=
  match x.run s with
  | .ok a s' => Q a s'
  | .error e s' => E e s'

variable {s : σ} {Q Q' : α → σ → Prop} {E E' : ε → σ → Prop}

theorem Meets.mono {x : Program σ ε α} (h : x.Meets s Q E) (hQ : ∀ a s', Q a s' → Q' a s')
    (hE : ∀ e s', E e s' → E' e s') : x.Meets s Q' E' := by
  unfold Meets at h ⊢
  cases hx : x.run s with
  | ok a s' =>
    rw [hx] at h
    exact hQ a s' h
  | error e s' =>
    rw [hx] at h
    exact hE e s' h

@[simp] theorem meets_pure {a : α} : (pure a : Program σ ε α).Meets s Q E ↔ Q a s := Iff.rfl

@[simp] theorem meets_raise {e : ε} : (raise e : Program σ ε α).Meets s Q E ↔ E e s := Iff.rfl

@[simp] theorem meets_get {Q : σ → σ → Prop} : (get : Program σ ε σ).Meets s Q E ↔ Q s s := Iff.rfl

@[simp] theorem meets_modify {f : σ → σ} {Q : Unit → σ → Prop} :
    (modify f : Program σ ε Unit).Meets s Q E ↔ Q () (f s) := Iff.rfl

@[simp] theorem meets_ofExcept_ok {a : α} : (ofExcept (.ok a) : Program σ ε α).Meets s Q E ↔ Q a s := Iff.rfl

@[simp] theorem meets_ofExcept_error {e : ε} : (ofExcept (.error e) : Program σ ε α).Meets s Q E ↔ E e s := Iff.rfl

@[simp] theorem meets_bind {x : Program σ ε α} {f : α → Program σ ε β} {R : β → σ → Prop} :
    (x >>= f).Meets s R E ↔ x.Meets s (fun a s' => (f a).Meets s' R E) E := by
  unfold Meets
  rw [EStateM.run_bind]
  cases x.run s <;> exact Iff.rfl

@[simp] theorem meets_map {x : Program σ ε α} {f : α → β} {R : β → σ → Prop} :
    (f <$> x).Meets s R E ↔ x.Meets s (fun a => R (f a)) E := by
  rw [map_eq_pure_bind, meets_bind]
  rfl

@[simp] theorem meets_catching {x : Program σ ε α} {handler : ε → Program σ ε α} :
    (x.catching handler).Meets s Q E ↔ x.Meets s Q fun e s' => (handler e).Meets s' Q E := by
  unfold Meets
  rw [run_catching]
  cases x.run s <;> exact Iff.rfl

@[simp] theorem meets_ensuring {x : Program σ ε α} {last : Program σ ε Unit} :
    (x.ensuring last).Meets s Q E ↔
      x.Meets s (fun a s' => last.Meets s' (fun _ => Q a) E) fun e s' => last.Meets s' (fun _ => E e) E := by
  unfold Meets
  rw [run_ensuring]
  cases x.run s with
  | ok a s' =>
    dsimp only
    rw [EStateM.run_bind]
    cases last.run s' <;> exact Iff.rfl
  | error e s' =>
    dsimp only
    rw [EStateM.run_bind]
    cases last.run s' <;> exact Iff.rfl

/-- The frame of a program on a part of the state. -/
@[simp] theorem meets_onPart {get : σ → τ} {set : τ → σ → σ} {x : Program τ ε α} :
    (x.onPart get set).Meets s Q E ↔ x.Meets (get s) (fun a t => Q a (set t s)) fun e t => E e (set t s) := by
  unfold Meets
  rw [run_onPart]
  cases x.run (get s) <;> exact Iff.rfl

/-- A run that cannot raise returns. -/
theorem Meets.exists_ok {x : Program σ ε α} (h : x.Meets s Q fun _ _ => False) :
    ∃ a s', x.run s = .ok a s' ∧ Q a s' := by
  unfold Meets at h
  cases hx : x.run s with
  | ok a s' =>
    rw [hx] at h
    exact ⟨a, s', rfl, h⟩
  | error e s' =>
    rw [hx] at h
    exact h.elim

/-- A run that cannot return raises. -/
theorem Meets.exists_error {x : Program σ ε α} (h : x.Meets s (fun _ _ => False) E) :
    ∃ e s', x.run s = .error e s' ∧ E e s' := by
  unfold Meets at h
  cases hx : x.run s with
  | ok a s' =>
    rw [hx] at h
    exact h.elim
  | error e s' =>
    rw [hx] at h
    exact ⟨e, s', rfl, h⟩

theorem Meets.of_run_eq_ok {x : Program σ ε α} {a : α} {s' : σ} (h : x.Meets s Q E) (hr : x.run s = .ok a s') :
    Q a s' := by
  unfold Meets at h
  rwa [hr] at h

theorem Meets.of_run_eq_error {x : Program σ ε α} {e : ε} {s' : σ} (h : x.Meets s Q E)
    (hr : x.run s = .error e s') : E e s' := by
  unfold Meets at h
  rwa [hr] at h

/-- What is known of the runs that return. -/
theorem meets_of_forall_ok {x : Program σ ε α} (h : ∀ a s', x.run s = .ok a s' → Q a s') :
    x.Meets s Q fun _ _ => True := by
  unfold Meets
  cases hx : x.run s with
  | ok a s' => exact h a s' hx
  | error e s' => trivial

/-! ### What never changes -/

/-- The state in which a run ends, either way. -/
def after (x : Program σ ε α) (s : σ) : σ :=
  match x.run s with
  | .ok _ s' => s'
  | .error _ s' => s'

theorem after_of_run_eq_ok {x : Program σ ε α} {a : α} {s' : σ} (h : x.run s = .ok a s') : x.after s = s' := by
  rw [after, h]

theorem after_of_run_eq_error {x : Program σ ε α} {e : ε} {s' : σ} (h : x.run s = .error e s') :
    x.after s = s' := by
  rw [after, h]

theorem after_bind_of_ok {x : Program σ ε α} {f : α → Program σ ε β} {a : α} {s' : σ} (h : x.run s = .ok a s') :
    (x >>= f).after s = (f a).after s' := by
  rw [after, after, EStateM.run_bind, h]

theorem after_bind_of_error {x : Program σ ε α} {f : α → Program σ ε β} {e : ε} {s' : σ}
    (h : x.run s = .error e s') : (x >>= f).after s = s' := by
  rw [after, EStateM.run_bind, h]

/-- What comes last comes last however the run ends. -/
theorem after_ensuring {x : Program σ ε α} {last : Program σ ε Unit} {f : σ → σ}
    (hlast : ∀ s, last.run s = .ok () (f s)) (s : σ) : (x.ensuring last).after s = f (x.after s) := by
  rw [after, after, run_ensuring]
  cases x.run s with
  | ok a s' =>
    dsimp only
    rw [EStateM.run_bind, hlast]
    rfl
  | error e s' =>
    dsimp only
    rw [EStateM.run_bind, hlast]
    rfl

/-- However the program ends, `f` of the state is what it was. -/
def Keeps (f : σ → τ) (x : Program σ ε α) : Prop := ∀ s, f (x.after s) = f s

variable {f : σ → τ}

theorem keeps_pure (a : α) : Keeps f (pure a : Program σ ε α) := fun _ => rfl

theorem keeps_raise (e : ε) : Keeps f (raise e : Program σ ε α) := fun _ => rfl

theorem keeps_get : Keeps f (get : Program σ ε σ) := fun _ => rfl

theorem keeps_ofExcept (r : Except ε α) : Keeps f (ofExcept r : Program σ ε α) := by
  intro s
  cases r <;> rfl

theorem Keeps.bind {x : Program σ ε α} {g : α → Program σ ε β} (hx : Keeps f x) (hg : ∀ a, Keeps f (g a)) :
    Keeps f (x >>= g) := by
  intro s
  have hs := hx s
  cases h : x.run s with
  | ok a s' =>
    rw [after_of_run_eq_ok h] at hs
    rw [after_bind_of_ok h, hg a s', hs]
  | error e s' =>
    rw [after_of_run_eq_error h] at hs
    rw [after_bind_of_error h, hs]

theorem Keeps.ite {p : Prop} [Decidable p] {x y : Program σ ε α} (hx : Keeps f x) (hy : Keeps f y) :
    Keeps f (if p then x else y) := by
  split
  · exact hx
  · exact hy

theorem Keeps.catching {x : Program σ ε α} {handler : ε → Program σ ε α} (hx : Keeps f x)
    (hh : ∀ e, Keeps f (handler e)) : Keeps f (x.catching handler) := by
  intro s
  have hs := hx s
  rw [after, run_catching]
  cases h : x.run s with
  | ok a s' =>
    rw [after_of_run_eq_ok h] at hs
    exact hs
  | error e s' =>
    rw [after_of_run_eq_error h] at hs
    exact (hh e s').trans hs

theorem Keeps.map {x : Program σ ε α} (hx : Keeps f x) (g : α → β) : Keeps f (g <$> x) := by
  have hm : g <$> x = x >>= fun a => pure (g a) := rfl
  rw [hm]
  exact hx.bind fun a => keeps_pure (g a)

theorem Keeps.mapM {g : α → Program σ ε β} (h : ∀ a, Keeps f (g a)) : ∀ l : List α, Keeps f (l.mapM g)
  | [] => keeps_pure []
  | a :: l => by
    rw [List.mapM_cons]
    exact (h a).bind fun b => (Keeps.mapM h l).bind fun bs => keeps_pure (b :: bs)

theorem keeps_onPart (get : σ → ω) (set : ω → σ → σ) (h : ∀ p s, f (set p s) = f s) (x : Program ω ε α) :
    Keeps f (x.onPart get set) := by
  intro s
  rw [after, run_onPart]
  cases x.run (get s) <;> exact h _ _

/-- A run that has returned has kept it. -/
theorem Keeps.of_run_eq_ok {x : Program σ ε α} (hx : Keeps f x) {a : α} {s' : σ} (h : x.run s = .ok a s') :
    f s' = f s := by
  rw [← hx s, after_of_run_eq_ok h]

theorem Keeps.of_run_eq_error {x : Program σ ε α} (hx : Keeps f x) {e : ε} {s' : σ} (h : x.run s = .error e s') :
    f s' = f s := by
  rw [← hx s, after_of_run_eq_error h]

/-- A program that keeps `f` meets what holds in every state with that `f`. -/
theorem Keeps.meets {x : Program σ ε α} (hx : Keeps f x) (hQ : ∀ a s', f s' = f s → Q a s')
    (hE : ∀ e s', f s' = f s → E e s') : x.Meets s Q E := by
  unfold Meets
  cases h : x.run s with
  | ok a s' => exact hQ a s' (hx.of_run_eq_ok h)
  | error e s' => exact hE e s' (hx.of_run_eq_error h)

/-! ### What is kept, and what is raised -/

/-- A computation that fails only like this. -/
def OnlyRaises (E : ε → Prop) (r : Except ε α) : Prop := ∀ e, r = .error e → E e

namespace OnlyRaises

variable {E E' : ε → Prop}

theorem ok (a : α) : OnlyRaises E (.ok a : Except ε α) := fun e h => by cases h

theorem error {e : ε} (h : E e) : OnlyRaises E (.error e : Except ε α) := fun e' he => by
  obtain rfl := Except.error.inj he
  exact h

theorem mono {r : Except ε α} (h : OnlyRaises E r) (hE : ∀ e, E e → E' e) : OnlyRaises E' r :=
  fun e he => hE e (h e he)

theorem bind {r : Except ε α} {f : α → Except ε β} (hr : OnlyRaises E r) (hf : ∀ a, OnlyRaises E (f a)) :
    OnlyRaises E (r >>= f) := by
  cases r with
  | ok a => exact hf a
  | error e => exact error (hr e rfl)

end OnlyRaises

/-- From `I` the program ends in `I`, and raises only what meets `E`. -/
def Stays (I : σ → Prop) (E : ε → Prop) (x : Program σ ε α) : Prop :=
  ∀ s, I s → x.Meets s (fun _ s' => I s') fun e s' => I s' ∧ E e

namespace Stays

variable {I : σ → Prop} {E : ε → Prop} {x : Program σ ε α}

theorem pure (a : α) : Stays I E (Pure.pure a : Program σ ε α) := fun _ h => h

theorem raise {e : ε} (h : E e) : Stays I E (Program.raise e : Program σ ε α) := fun _ hs => ⟨hs, h⟩

theorem get : Stays I E (MonadState.get : Program σ ε σ) := fun _ h => h

theorem ofExcept {r : Except ε α} (h : OnlyRaises E r) : Stays I E (Program.ofExcept r : Program σ ε α) := by
  cases r with
  | ok a => exact pure a
  | error e => exact raise (h e rfl)

theorem bind {f : α → Program σ ε β} (hx : Stays I E x) (hf : ∀ a, Stays I E (f a)) : Stays I E (x >>= f) := by
  intro s hs
  rw [meets_bind]
  exact (hx s hs).mono (fun a s' h => hf a s' h) fun e s' h => h

theorem map (hx : Stays I E x) (g : α → β) : Stays I E (g <$> x) := by
  have hm : g <$> x = x >>= fun a => Pure.pure (g a) := rfl
  rw [hm]
  exact hx.bind fun a => pure (g a)

/-- A handler for all that may be raised. -/
theorem catching {E' : ε → Prop} {handler : ε → Program σ ε α} (hx : Stays I E' x)
    (hh : ∀ e, E' e → Stays I E (handler e)) : Stays I E (x.catching handler) := by
  intro s hs
  rw [meets_catching]
  exact (hx s hs).mono (fun a s' h => h) fun e s' h => hh e h.2 s' h.1

end Stays

/-! ### What is added to a log -/

/-- The program only adds to the log: at most `n` items, each of them with `p`. -/
def Adds {κ : Type} (log : σ → List κ) (p : κ → Prop) (n : ℕ) (x : Program σ ε α) : Prop :=
  ∀ s, ∃ new, log (x.after s) = log s ++ new ∧ new.length ≤ n ∧ ∀ c ∈ new, p c

namespace Adds

variable {κ : Type} {log : σ → List κ} {p : κ → Prop} {m n : ℕ} {x : Program σ ε α}

theorem of_keeps (h : Keeps log x) : Adds log p 0 x := fun s =>
  ⟨[], by rw [h s, List.append_nil], le_rfl, by simp⟩

theorem mono (h : Adds log p m x) (hmn : m ≤ n) : Adds log p n x := by
  intro s
  obtain ⟨new, hnew, hlen, hp⟩ := h s
  exact ⟨new, hnew, hlen.trans hmn, hp⟩

/-- A run and then another one. -/
theorem append {s s' : σ} {t : σ} {new : List κ} (hnew : log s' = log s ++ new) (hlen : new.length ≤ m)
    (hp : ∀ c ∈ new, p c) (h : ∃ new', log t = log s' ++ new' ∧ new'.length ≤ n ∧ ∀ c ∈ new', p c) :
    ∃ new, log t = log s ++ new ∧ new.length ≤ m + n ∧ ∀ c ∈ new, p c := by
  obtain ⟨new', hnew', hlen', hp'⟩ := h
  refine ⟨new ++ new', by rw [hnew', hnew, List.append_assoc], ?_, ?_⟩
  · rw [List.length_append]
    omega
  · intro c hc
    rcases List.mem_append.mp hc with h | h
    · exact hp c h
    · exact hp' c h

theorem bind {f : α → Program σ ε β} (hx : Adds log p m x) (hf : ∀ a, Adds log p n (f a)) :
    Adds log p (m + n) (x >>= f) := by
  intro s
  obtain ⟨new, hnew, hlen, hp⟩ := hx s
  cases h : x.run s with
  | ok a s' =>
    rw [after_of_run_eq_ok h] at hnew
    rw [after_bind_of_ok h]
    exact append hnew hlen hp (hf a s')
  | error e s' =>
    rw [after_of_run_eq_error h] at hnew
    rw [after_bind_of_error h]
    exact ⟨new, hnew, by omega, hp⟩

theorem catching {handler : ε → Program σ ε α} (hx : Adds log p m x) (hh : ∀ e, Adds log p n (handler e)) :
    Adds log p (m + n) (x.catching handler) := by
  intro s
  obtain ⟨new, hnew, hlen, hp⟩ := hx s
  rw [after, run_catching]
  cases h : x.run s with
  | ok a s' =>
    rw [after_of_run_eq_ok h] at hnew
    exact ⟨new, hnew, by omega, hp⟩
  | error e s' =>
    rw [after_of_run_eq_error h] at hnew
    exact append hnew hlen hp (hh e s')

end Adds

/-! ### Runs on fixed inputs -/

/-- The run returns, with `p`. -/
def returns (p : α → σ → Bool) (x : Program σ ε α) (s : σ) : Bool :=
  match x.run s with
  | .ok a s' => p a s'
  | .error _ _ => false

theorem returns_eq_true {p : α → σ → Bool} {x : Program σ ε α} :
    returns p x s = true ↔ ∃ a s', x.run s = .ok a s' ∧ p a s' = true := by
  unfold returns
  cases x.run s <;> simp

end Program
end GpgMeister
