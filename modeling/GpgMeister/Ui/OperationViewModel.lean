/-
# Operations in the background

`ui/worker.py` and `ui/operation_viewmodel.py`: a view model runs a callable on
a thread of the pool, and the signals of its worker reach the thread of the view
through a queue, among those of other operations. With `secure_result` the
result is not in a signal: the view model takes it from the worker.

* `reported_of_reachable`: whatever the order in which the operations end and
  their signals are posted, the view learns how each one ended, once, before it
  learns that it is over; and a secure result is in no signal, and in no worker
  once the queue is empty.
* `exists_running_of_busy`, `busy_iff_of_reachable`: what `loading_changed` says
  about operations that overlap.
-/
import GpgMeister.Lib.Mailbox
import GpgMeister.Lib.System
import GpgMeister.World

namespace GpgMeister
namespace OperationViewModel

variable {α : Type}

/-! ### Workers -/

/-- `_Signals` -/
inductive Signal (α : Type)
  | resultReady
  | result (value : α)
  | error (message : Str)
  | finished

/-- What `Worker.run` emits once its callable has returned or raised; the message
is `message_for_exception`'s. -/
def workerRun (emitResult : Bool) : Except Str α → List (Signal α)
  | .ok value => .resultReady :: ((if emitResult then [.result value] else []) ++ [.finished])
  | .error message => [.error message, .finished]

/-- A call of `_run`: its arguments, how its callable has ended, and the worker's
`_result`. -/
structure Operation (α : Type) where
  expect : α → Bool
  secureResult : Bool
  outcome : Option (Except Str α) := none
  result : Option α := none

/-- The signals that `_run` connects; an emission of another one has no effect. -/
def Operation.connects (op : Operation α) : Signal α → Bool
  | .resultReady => op.secureResult
  | .result _ => ! op.secureResult
  | .error _ => true
  | .finished => true

/-- What the view model tells its view. -/
inductive Told (α : Type)
  | succeeded (value : α)
  | failed (message : Str)
  | loading (on : Bool)
  deriving DecidableEq

/-- `_emit_success`; `None` is no instance of what is expected. -/
def Operation.emitSuccess (op : Operation α) : Option α → List (Told α)
  | some value => if op.expect value then [.succeeded value] else []
  | none => []

/-- The slots: `take_result` and `_emit_success`, `_on_error`, `_on_finished`. -/
def Operation.receive (op : Operation α) : Signal α → Operation α × List (Told α)
  | .resultReady => ({ op with result := none }, op.emitSuccess op.result)
  | .result value => (op, op.emitSuccess (some value))
  | .error message => (op, [.failed message])
  | .finished => (op, [.loading false])

/-! ### Sessions -/

/-- The operations of a view model, the signals on their way, and what the view
was told, with the operation that it is about. -/
structure Session (α : Type) where
  operations : List (Operation α) := []
  mail : Mailbox (Signal α) := {}
  told : List (ℕ × Told α) := []

/-- `loading_changed.emit(True)` and `_run` -/
def Session.start (s : Session α) (expect : α → Bool) (secureResult : Bool) : Session α :=
  { s with
    operations := s.operations ++ [{ expect, secureResult }]
    told := s.told ++ [(s.operations.length, .loading true)] }

/-- The callable of an operation ends, and its worker has signals to emit. -/
def Session.ended (s : Session α) (i : ℕ) (outcome : Except Str α) : Option (Session α) :=
  s.operations[i]?.bind fun op =>
    if op.outcome.isNone then
      some
        { s with
          operations := s.operations.set i { op with outcome := some outcome, result := outcome.toOption }
          mail := s.mail.load i ((workerRun (! op.secureResult) outcome).filter op.connects) }
    else none

/-- A worker emits its next signal. -/
def Session.post (s : Session α) (i : ℕ) : Option (Session α) :=
  (s.mail.post i).map fun mail => { s with mail }

/-- The thread of the view gets to the next signal in the queue, and the view is
told something. -/
def Session.deliver (s : Session α) : Option (Session α × List (Told α)) :=
  s.mail.take.bind fun ((i, signal), mail) =>
    s.operations[i]?.map fun op =>
      let (op', told) := op.receive signal
      ({ operations := s.operations.set i op', mail, told := s.told ++ told.map (i, ·) }, told)

inductive Event (α : Type)
  | start (expect : α → Bool) (secureResult : Bool)
  | ended (i : ℕ) (outcome : Except Str α)
  | post (i : ℕ)
  | deliver

def step (s : Session α) : Event α → Option (Session α)
  | .start expect secureResult => some (s.start expect secureResult)
  | .ended i outcome => s.ended i outcome
  | .post i => s.post i
  | .deliver => s.deliver.map Prod.fst

/-- Operations that start, end and are heard of in any order. -/
def sessions : System (Session α) (Event α) := .ofStep (· = {}) step

/-! ### What the view learns of an operation -/

/-- What the view learns of an operation once it has started: how it ended, and
that it is over. -/
def Operation.report (op : Operation α) : List (Told α) :=
  match op.outcome with
  | none => []
  | some (.ok value) => op.emitSuccess (some value) ++ [.loading false]
  | some (.error message) => [.failed message, .loading false]

/-- What the callable has returned. -/
def Operation.returned (op : Operation α) : Option α := op.outcome.bind Except.toOption

/-- The signals of an operation that are ever queued. -/
def Operation.signals (op : Operation α) : List (Signal α) :=
  match op.outcome with
  | none => []
  | some outcome => (workerRun (! op.secureResult) outcome).filter op.connects

/-- What the view is told when it is a signal's turn. -/
def Operation.announces (op : Operation α) : Signal α → List (Told α)
  | .resultReady => op.emitSuccess op.returned
  | .result value => op.emitSuccess (some value)
  | .error message => [.failed message]
  | .finished => [.loading false]

/-- What a signal says of how its operation ended. -/
def Operation.news (op : Operation α) : Except Str α → Signal α
  | .ok value => if op.secureResult then .resultReady else .result value
  | .error message => .error message

theorem Operation.signals_of_none {op : Operation α} (h : op.outcome = none) : op.signals = [] := by
  unfold signals
  rw [h]

theorem Operation.signals_of_some {op : Operation α} {outcome : Except Str α} (h : op.outcome = some outcome) :
    op.signals = [op.news outcome, .finished] := by
  unfold signals
  rw [h]
  cases outcome with
  | ok value => cases hsecure : op.secureResult <;> simp [workerRun, connects, news, hsecure]
  | error message => simp [workerRun, connects, news]

theorem Operation.announces_news {op : Operation α} {outcome : Except Str α} (h : op.outcome = some outcome) :
    op.announces (op.news outcome) ++ [.loading false] = op.report := by
  unfold report
  rw [h]
  cases outcome with
  | ok value =>
    have hreturned : op.returned = some value := by
      unfold returned
      rw [h]
      rfl
    cases hsecure : op.secureResult <;> simp [news, announces, hsecure, hreturned]
  | error message => simp [news, announces]

theorem Operation.flatMap_announces (op : Operation α) : op.signals.flatMap op.announces = op.report := by
  cases h : op.outcome with
  | none =>
    rw [signals_of_none h]
    unfold report
    rw [h]
    rfl
  | some outcome =>
    rw [signals_of_some h, ← announces_news h]
    simp [announces]

/-- A secure result is in no signal. -/
theorem Operation.result_notMem_signals {op : Operation α} (hsecure : op.secureResult = true) (value : α) :
    Signal.result value ∉ op.signals := by
  cases h : op.outcome with
  | none => simp [signals_of_none h]
  | some outcome =>
    rw [signals_of_some h]
    cases outcome <;> simp [news, hsecure]

/-! ### The invariant -/

/-- What the view was told of an operation is what the signals say that were
taken of it; and a secure result is with the worker until the first one is. -/
structure Accounted (op : Operation α) (told : List (Told α)) (taken whole : List (Signal α)) : Prop where
  told : told = .loading true :: taken.flatMap op.announces
  whole : whole = op.signals
  held : op.secureResult = true → op.result = if taken.isEmpty then op.returned else none

structure Kept (s : Session α) : Prop where
  operations : ∀ {i op}, s.operations[i]? = some op →
    Accounted op (Mailbox.of i s.told) (Mailbox.of i s.mail.taken) (s.mail.whole i)
  fresh : ∀ {i}, s.operations.length ≤ i → Mailbox.of i s.told = [] ∧ s.mail.whole i = []

/-- A signal has the effect that it announces. -/
theorem Operation.receive_eq {op : Operation α} {taken later : List (Signal α)} {signal : Signal α}
    (hsignals : op.signals = taken ++ signal :: later)
    (hheld : op.secureResult = true → op.result = if taken.isEmpty then op.returned else none) :
    (op.receive signal).2 = op.announces signal ∧ (op.secureResult = true → (op.receive signal).1.result = none) := by
  cases houtcome : op.outcome with
  | none =>
    rw [signals_of_none houtcome] at hsignals
    simp at hsignals
  | some outcome =>
    rw [signals_of_some houtcome] at hsignals
    rcases taken with - | ⟨first, taken⟩
    · obtain ⟨rfl, -⟩ := List.cons.inj hsignals
      cases outcome with
      | ok value =>
        cases hsecure : op.secureResult with
        | true =>
          have hresult : op.result = op.returned := hheld hsecure
          simp [news, hsecure, receive, announces, hresult]
        | false => simp [news, hsecure, receive, announces]
      | error message =>
        have hreturned : op.returned = none := by
          unfold returned
          rw [houtcome]
          rfl
        refine ⟨rfl, fun hsecure => ?_⟩
        show op.result = none
        rw [hheld hsecure, hreturned]
        rfl
    · obtain ⟨-, hsignals⟩ := List.cons.inj hsignals
      rcases taken with - | ⟨second, taken⟩
      · obtain ⟨rfl, -⟩ := List.cons.inj hsignals
        exact ⟨rfl, hheld⟩
      · simp at hsignals

theorem Operation.announces_result (op : Operation α) (result : Option α) :
    ({ op with result } : Operation α).announces = op.announces := by
  funext signal
  cases signal <;> rfl

/-- What a signal does to an operation leaves its signals. -/
theorem Operation.receive_fst (op : Operation α) (signal : Signal α) :
    ∃ result, (op.receive signal).1 = { op with result } := by
  cases signal with
  | resultReady => exact ⟨none, rfl⟩
  | result value => exact ⟨op.result, rfl⟩
  | error message => exact ⟨op.result, rfl⟩
  | finished => exact ⟨op.result, rfl⟩

variable {s s' : Session α}

theorem kept_start (h : Kept s) (expect : α → Bool) (secureResult : Bool) : Kept (s.start expect secureResult) where
  operations := by
    intro i op hop
    have htold : Mailbox.of i (s.start expect secureResult).told =
        Mailbox.of i s.told ++ Mailbox.of i [(s.operations.length, .loading true)] := Mailbox.of_append _ _
    rw [htold]
    rcases lt_trichotomy i s.operations.length with hlt | rfl | hgt
    · have hop : s.operations[i]? = some op := by
        rw [← hop]
        exact (List.getElem?_append_left hlt).symm
      rw [Mailbox.of_singleton_of_ne hlt.ne', List.append_nil]
      exact h.operations hop
    · obtain rfl : { expect, secureResult } = op := by simpa [Session.start] using hop
      obtain ⟨htold, hwhole⟩ := h.fresh le_rfl
      have htaken : Mailbox.of s.operations.length s.mail.taken = [] := (List.append_eq_nil_iff.mp hwhole).1
      rw [htold]
      refine ⟨?_, hwhole, fun _ => ?_⟩
      · simp [Session.start, htaken]
      · simp [Session.start, htaken, Operation.returned]
    · have hlen : (s.start expect secureResult).operations.length = s.operations.length + 1 := by simp [Session.start]
      have hnone := List.getElem?_eq_none (l := (s.start expect secureResult).operations) (i := i) (by omega)
      rw [hnone] at hop
      cases hop
  fresh := by
    intro i hi
    have hi : s.operations.length + 1 ≤ i := by simpa [Session.start] using hi
    obtain ⟨htold, hwhole⟩ := h.fresh (i := i) (by omega)
    refine ⟨?_, hwhole⟩
    have hne : s.operations.length ≠ i := by omega
    show Mailbox.of i (s.told ++ [(s.operations.length, .loading true)]) = []
    rw [Mailbox.of_append, htold, Mailbox.of_singleton_of_ne hne, List.append_nil]

theorem kept_ended {i : ℕ} {outcome : Except Str α} (h : Kept s) (hstep : s.ended i outcome = some s') : Kept s' := by
  obtain ⟨op, hop, hif⟩ := Option.bind_eq_some_iff.mp hstep
  by_cases hnone : op.outcome.isNone = true
  swap
  · rw [if_neg hnone] at hif
    cases hif
  rw [if_pos hnone] at hif
  obtain rfl := Option.some.inj hif
  have hlt : i < s.operations.length := (List.getElem?_eq_some_iff.mp hop).1
  refine ⟨fun {j op'} hop' => ?_, fun {j} hj => ?_⟩
  · by_cases hij : i = j
    · subst hij
      have hop'' : some { op with outcome := some outcome, result := outcome.toOption } = some op' := by
        rw [← hop']
        exact (List.getElem?_set_self hlt).symm
      obtain rfl := Option.some.inj hop''
      obtain ⟨htold, hwhole, -⟩ := h.operations hop
      rw [Operation.signals_of_none (Option.isNone_iff_eq_none.mp hnone)] at hwhole
      have htaken : Mailbox.of i s.mail.taken = [] := (List.append_eq_nil_iff.mp hwhole).1
      rw [htaken] at htold
      refine ⟨?_, ?_, fun _ => ?_⟩
      · simpa [htaken] using htold
      · rw [Mailbox.whole_load_self, hwhole, List.nil_append]
        rfl
      · simp [htaken, Operation.returned]
    · have hop' : s.operations[j]? = some op' := by
        rw [← hop']
        exact (List.getElem?_set_ne hij).symm
      obtain ⟨htold, hwhole, hheld⟩ := h.operations hop'
      exact ⟨htold, by rw [Mailbox.whole_load_of_ne (Ne.symm hij), hwhole], hheld⟩
  · have hj : s.operations.length ≤ j := by simpa using hj
    obtain ⟨htold, hwhole⟩ := h.fresh hj
    exact ⟨htold, by rw [Mailbox.whole_load_of_ne (by omega), hwhole]⟩

theorem kept_post {i : ℕ} (h : Kept s) (hstep : s.post i = some s') : Kept s' := by
  obtain ⟨mail, hpost, rfl⟩ := Option.map_eq_some_iff.mp hstep
  refine ⟨fun {j op} hop => ?_, fun {j} hj => ?_⟩
  · rw [Mailbox.taken_post hpost, Mailbox.whole_post hpost]
    exact h.operations hop
  · rw [Mailbox.whole_post hpost]
    exact h.fresh hj

theorem deliver_eq_some {told : List (Told α)} (h : s.deliver = some (s', told)) :
    ∃ i signal op mail, s.mail.take = some ((i, signal), mail) ∧ s.operations[i]? = some op ∧
      told = (op.receive signal).2 ∧
      s' = { operations := s.operations.set i (op.receive signal).1
             mail := mail
             told := s.told ++ told.map (i, ·) } := by
  obtain ⟨⟨⟨i, signal⟩, mail⟩, htake, hmap⟩ := Option.bind_eq_some_iff.mp h
  obtain ⟨op, hop, heq⟩ := Option.map_eq_some_iff.mp hmap
  obtain ⟨rfl, rfl⟩ := Prod.mk.inj heq
  exact ⟨i, signal, op, mail, htake, hop, rfl, rfl⟩

theorem kept_deliver {told : List (Told α)} (h : Kept s) (hstep : s.deliver = some (s', told)) : Kept s' := by
  obtain ⟨i, signal, op, mail, htake, hop, rfl, rfl⟩ := deliver_eq_some hstep
  have hlt : i < s.operations.length := (List.getElem?_eq_some_iff.mp hop).1
  have htaken : mail.taken = s.mail.taken ++ [(i, signal)] := (Mailbox.take_eq_some htake).2.1
  refine ⟨fun {j op'} hop' => ?_, fun {j} hj => ?_⟩
  · by_cases hij : i = j
    · subst hij
      have hop'' : some (op.receive signal).1 = some op' := by
        rw [← hop']
        exact (List.getElem?_set_self hlt).symm
      obtain rfl := Option.some.inj hop''
      obtain ⟨htold, hwhole, hheld⟩ := h.operations hop
      have hsignals : op.signals = Mailbox.of i s.mail.taken ++ signal :: mail.rest i := by
        rw [← hwhole, Mailbox.whole, Mailbox.rest_take_self htake]
      obtain ⟨hannounces, hnone⟩ := Operation.receive_eq hsignals hheld
      obtain ⟨result, hreceive⟩ := op.receive_fst signal
      have hof : Mailbox.of i mail.taken = Mailbox.of i s.mail.taken ++ [signal] := by
        rw [htaken, Mailbox.of_append, Mailbox.of_singleton_self]
      rw [hreceive] at hnone ⊢
      refine ⟨?_, ?_, fun hsecure => ?_⟩
      · rw [Mailbox.of_append, Mailbox.of_map_self, htold, hannounces, hof, Operation.announces_result,
          List.flatMap_append, List.flatMap_singleton]
        rfl
      · rw [Mailbox.whole_take htake, hwhole]
        rfl
      · rw [hof]
        simpa using hnone hsecure
    · have hop' : s.operations[j]? = some op' := by
        rw [← hop']
        exact (List.getElem?_set_ne hij).symm
      have hof : Mailbox.of j mail.taken = Mailbox.of j s.mail.taken := by
        rw [htaken, Mailbox.of_append, Mailbox.of_singleton_of_ne hij, List.append_nil]
      dsimp only
      rw [hof, Mailbox.whole_take htake, Mailbox.of_append, Mailbox.of_map_of_ne hij, List.append_nil]
      exact h.operations hop'
  · have hj : s.operations.length ≤ j := by simpa using hj
    obtain ⟨htold, hwhole⟩ := h.fresh hj
    have hij : i ≠ j := by omega
    dsimp only
    rw [Mailbox.whole_take htake, Mailbox.of_append, Mailbox.of_map_of_ne hij, htold]
    exact ⟨rfl, hwhole⟩

/-- **The step lemma.** -/
theorem kept_step {e : Event α} (h : Kept s) (hstep : step s e = some s') : Kept s' := by
  cases e with
  | start expect secureResult =>
    obtain rfl := Option.some.inj hstep
    exact kept_start h expect secureResult
  | ended i outcome => exact kept_ended h hstep
  | post i => exact kept_post h hstep
  | deliver =>
    obtain ⟨⟨s'', told⟩, hdeliver, rfl⟩ := Option.map_eq_some_iff.mp hstep
    exact kept_deliver h hdeliver

theorem kept_empty : Kept ({} : Session α) :=
  ⟨fun {i op} hop => by simp at hop, fun _ => ⟨rfl, rfl⟩⟩

theorem kept_of_reachable (h : sessions.Reachable s) : Kept s := by
  refine h.inv (P := Kept) ?_ ?_
  · intro s hs
    obtain rfl : s = {} := hs
    exact kept_empty
  · intro s e s' hs hstep
    exact kept_step hs hstep

theorem Operation.result_notMem_rest (op : Operation α) {taken rest : List (Signal α)}
    (hsecure : op.secureResult = true) (hwhole : taken ++ rest = op.signals) (value : α) :
    Signal.result value ∉ rest := fun hmem =>
  op.result_notMem_signals hsecure value (hwhole ▸ List.mem_append_right _ hmem)

/-- Once every signal was taken the worker has no result. -/
theorem Operation.result_of_taken (op : Operation α) {taken : List (Signal α)} (htaken : taken = op.signals)
    (hheld : op.result = if taken.isEmpty then op.returned else none) : op.result = none := by
  rw [hheld, htaken]
  cases houtcome : op.outcome with
  | none => simp [signals_of_none houtcome, returned, houtcome]
  | some outcome => simp [signals_of_some houtcome]

/-- **What the view learns of an operation**, in whatever order operations end
and are heard of. -/
theorem reported_of_reachable (h : sessions.Reachable s) {i : ℕ} {op : Operation α} (hop : s.operations[i]? = some op) :
    Mailbox.of i s.told <+: .loading true :: op.report ∧
      (op.secureResult = true → ∀ value, Signal.result value ∉ s.mail.rest i) ∧
      (s.mail.Quiet → Mailbox.of i s.told = .loading true :: op.report ∧
        (op.secureResult = true → op.result = none)) := by
  obtain ⟨htold, hwhole, hheld⟩ := (kept_of_reachable h).operations hop
  refine ⟨?_, fun hsecure => op.result_notMem_rest hsecure hwhole, fun hquiet => ⟨?_, fun hsecure => ?_⟩⟩
  · rw [htold, ← op.flatMap_announces, ← hwhole, Mailbox.whole, List.flatMap_append]
    exact ⟨(s.mail.rest i).flatMap op.announces, rfl⟩
  · rw [htold, hquiet.of_taken, hwhole, op.flatMap_announces]
  · exact op.result_of_taken ((hquiet.of_taken i).trans hwhole) (hheld hsecure)

/-- Two operations, of which the second one fails while the first one's result is
on its way. -/
def sampleEvents : List (Event ℕ) :=
  [.start (fun _ => true) true, .start (fun _ => true) false, .ended 0 (.ok 5), .ended 1 (.error (lit "no key")),
    .post 1, .post 0, .deliver, .deliver, .post 1]

theorem reported_of_reachable_sample : ∃ (s : Session ℕ) (op : Operation ℕ), s.operations[0]? = some op ∧
    Mailbox.of 0 s.told = [.loading true, .succeeded 5] ∧ Mailbox.of 0 s.told <+: .loading true :: op.report := by
  have hrun : (System.runLabels step {} sampleEvents).any (fun s =>
      Mailbox.of 0 s.told = [.loading true, .succeeded 5] ∧ s.operations[0]?.isSome = true) = true := by
    decide +kernel
  obtain ⟨s, hs, hlast⟩ := (Option.any_eq_true _ _).mp hrun
  obtain ⟨htold, hsome⟩ := of_decide_eq_true hlast
  obtain ⟨op, hop⟩ := Option.isSome_iff_exists.mp hsome
  have hempty : sessions.Reachable ({} : Session ℕ) := .init rfl
  have hreachable := System.reachable_of_runLabels sampleEvents hempty hs
  exact ⟨s, op, hop, htold, (reported_of_reachable hreachable hop).1⟩

/-! ### Operations that overlap -/

theorem Operation.loading_notMem_emitSuccess (op : Operation α) (value : Option α) (on : Bool) :
    .loading on ∉ op.emitSuccess value := by
  cases value with
  | none => exact List.not_mem_nil
  | some value =>
    unfold emitSuccess
    dsimp only
    split_ifs <;> simp

/-- The first signal of an operation says nothing of loading. -/
theorem Operation.loading_notMem_news (op : Operation α) (outcome : Except Str α) :
    .loading false ∉ op.announces (op.news outcome) := by
  cases outcome with
  | ok value =>
    cases hsecure : op.secureResult
    · simpa [news, hsecure, announces] using op.loading_notMem_emitSuccess (some value) false
    · simpa [news, hsecure, announces] using op.loading_notMem_emitSuccess op.returned false
  | error message => simp [news, announces]

/-- Before the last signal of an operation the view has not learned that it is
over. -/
theorem Operation.loading_notMem {op : Operation α} {taken later : List (Signal α)} {signal : Signal α}
    (hsignals : op.signals = taken ++ signal :: later) (hannounces : (op.receive signal).2 = op.announces signal)
    (hlast : (op.receive signal).2 = [.loading false]) :
    .loading false ∉ .loading true :: taken.flatMap op.announces := by
  cases houtcome : op.outcome with
  | none =>
    rw [signals_of_none houtcome] at hsignals
    simp at hsignals
  | some outcome =>
    have hnews := op.loading_notMem_news outcome
    rw [signals_of_some houtcome] at hsignals
    rcases taken with - | ⟨first, taken⟩
    · obtain ⟨rfl, -⟩ := List.cons.inj hsignals
      rw [← hannounces, hlast] at hnews
      simp at hnews
    · obtain ⟨rfl, hsignals⟩ := List.cons.inj hsignals
      rcases taken with - | ⟨second, taken⟩
      · simpa using hnews
      · simp at hsignals

/-- The operation has started, and the view has not learned that it is over. -/
def Session.Running (s : Session α) (i : ℕ) : Prop :=
  i < s.operations.length ∧ .loading false ∉ Mailbox.of i s.told

/-- What `loading_changed` said last. -/
def busy : List (ℕ × Told α) → Bool → Bool
  | [], on => on
  | (_, .loading on) :: told, _ => busy told on
  | (_, .succeeded _) :: told, on => busy told on
  | (_, .failed _) :: told, on => busy told on

def Session.busy (s : Session α) : Bool := OperationViewModel.busy s.told false

theorem busy_append : ∀ (told told' : List (ℕ × Told α)) (on : Bool),
    busy (told ++ told') on = busy told' (busy told on)
  | [], _, _ => rfl
  | (_, .loading _) :: told, told', _ => busy_append told told' _
  | (_, .succeeded _) :: told, told', _ => busy_append told told' _
  | (_, .failed _) :: told, told', _ => busy_append told told' _

/-- A signal is the last one of its operation, or says nothing of loading. -/
theorem Operation.receive_snd (op : Operation α) (signal : Signal α) :
    (op.receive signal).2 = [.loading false] ∨
      ∀ i on, .loading on ∉ (op.receive signal).2 ∧
        OperationViewModel.busy ((op.receive signal).2.map (i, ·)) on = on := by
  have hsuccess (value : Option α) (i : ℕ) (on : Bool) : .loading on ∉ op.emitSuccess value ∧
      OperationViewModel.busy ((op.emitSuccess value).map (i, ·)) on = on := by
    refine ⟨op.loading_notMem_emitSuccess value on, ?_⟩
    cases value with
    | none => rfl
    | some value =>
      unfold emitSuccess
      dsimp only
      split_ifs <;> rfl
  cases signal with
  | resultReady => exact .inr (hsuccess op.result)
  | result value => exact .inr (hsuccess (some value))
  | error message => exact .inr fun i on => ⟨by simp [receive], rfl⟩
  | finished => exact .inl rfl

theorem running_start_of_ne {i : ℕ} (expect : α → Bool) (secureResult : Bool) (hi : i ≠ s.operations.length) :
    (s.start expect secureResult).Running i ↔ s.Running i := by
  have htold : Mailbox.of i (s.start expect secureResult).told = Mailbox.of i s.told := by
    show Mailbox.of i (s.told ++ [(s.operations.length, .loading true)]) = Mailbox.of i s.told
    rw [Mailbox.of_append, Mailbox.of_singleton_of_ne (Ne.symm hi), List.append_nil]
  have hlen : (s.start expect secureResult).operations.length = s.operations.length + 1 := by simp [Session.start]
  unfold Session.Running
  rw [htold, hlen]
  have hlt : i < s.operations.length + 1 ↔ i < s.operations.length := by omega
  rw [hlt]

theorem running_start (h : Kept s) (expect : α → Bool) (secureResult : Bool) :
    (s.start expect secureResult).Running s.operations.length := by
  have htold : Mailbox.of s.operations.length (s.start expect secureResult).told = [.loading true] := by
    show Mailbox.of s.operations.length (s.told ++ [(s.operations.length, .loading true)]) = [.loading true]
    rw [Mailbox.of_append, (h.fresh le_rfl).1, Mailbox.of_singleton_self, List.nil_append]
  refine ⟨by simp [Session.start], ?_⟩
  rw [htold]
  simp

theorem busy_start (expect : α → Bool) (secureResult : Bool) : (s.start expect secureResult).busy = true := by
  show busy (s.told ++ [(s.operations.length, .loading true)]) false = true
  rw [busy_append]
  rfl

/-- Where the view is told nothing, the same operations run. -/
theorem told_of_ended {i : ℕ} {outcome : Except Str α} (hstep : s.ended i outcome = some s') :
    s'.told = s.told ∧ s'.operations.length = s.operations.length := by
  obtain ⟨op, -, hif⟩ := Option.bind_eq_some_iff.mp hstep
  split_ifs at hif
  obtain rfl := Option.some.inj hif
  exact ⟨rfl, List.length_set⟩

theorem told_of_post {i : ℕ} (hstep : s.post i = some s') :
    s'.told = s.told ∧ s'.operations.length = s.operations.length := by
  obtain ⟨mail, -, rfl⟩ := Option.map_eq_some_iff.mp hstep
  exact ⟨rfl, rfl⟩

/-- What a signal changes: it is the last one of an operation that was running,
or all goes on. -/
theorem running_deliver {told : List (Told α)} (h : Kept s) (hstep : s.deliver = some (s', told)) :
    (∃ i, s.Running i ∧ ¬ s'.Running i ∧ s'.busy = false ∧ ∀ j, j ≠ i → (s'.Running j ↔ s.Running j)) ∨
      s'.busy = s.busy ∧ ∀ j, s'.Running j ↔ s.Running j := by
  obtain ⟨i, signal, op, mail, htake, hop, rfl, hs'⟩ := deliver_eq_some hstep
  have htold : s'.told = s.told ++ (op.receive signal).2.map (i, ·) := by rw [hs']
  have hlen : s'.operations.length = s.operations.length := by
    rw [hs']
    exact List.length_set
  have hbusy : s'.busy = busy ((op.receive signal).2.map (i, ·)) s.busy := by
    unfold Session.busy
    rw [htold, busy_append]
  have hself : Mailbox.of i s'.told = Mailbox.of i s.told ++ (op.receive signal).2 := by
    rw [htold, Mailbox.of_append, Mailbox.of_map_self]
  have hother (j : ℕ) (hij : j ≠ i) : s'.Running j ↔ s.Running j := by
    unfold Session.Running
    rw [hlen, htold, Mailbox.of_append, Mailbox.of_map_of_ne hij.symm, List.append_nil]
  rcases op.receive_snd signal with hlast | hsilent
  · left
    refine ⟨i, ⟨(List.getElem?_eq_some_iff.mp hop).1, ?_⟩, ?_, ?_, hother⟩
    · obtain ⟨htold, hwhole, hheld⟩ := h.operations hop
      have hsignals : op.signals = Mailbox.of i s.mail.taken ++ signal :: mail.rest i := by
        rw [← hwhole, Mailbox.whole, Mailbox.rest_take_self htake]
      rw [htold]
      exact op.loading_notMem hsignals (Operation.receive_eq hsignals hheld).1 hlast
    · rintro ⟨-, hnot⟩
      rw [hself, hlast] at hnot
      exact hnot (List.mem_append_right _ (List.mem_singleton_self _))
    · rw [hbusy, hlast]
      rfl
  · right
    refine ⟨hbusy.trans (hsilent i _).2, fun j => ?_⟩
    by_cases hij : j = i
    · subst hij
      have hnot := (hsilent j false).1
      unfold Session.Running
      rw [hlen, hself, List.mem_append, or_iff_left hnot]
    · exact hother j hij

/-- Where the view is told nothing, the same operations run. -/
theorem running_of_told (htold : s'.told = s.told) (hlen : s'.operations.length = s.operations.length) :
    s'.busy = s.busy ∧ ∀ i, s'.Running i ↔ s.Running i := by
  unfold Session.busy Session.Running
  rw [htold, hlen]
  exact ⟨rfl, fun _ => Iff.rfl⟩

/-- **What `loading_changed` says**: while it says that an operation runs, one
does. -/
theorem exists_running_of_busy (h : sessions.Reachable s) : s.busy = true → ∃ i, s.Running i := by
  have hinv : Kept s ∧ (s.busy = true → ∃ i, s.Running i) := by
    refine h.inv (P := fun s => Kept s ∧ (s.busy = true → ∃ i, s.Running i)) ?_ ?_
    · intro s hs
      obtain rfl : s = {} := hs
      exact ⟨kept_empty, fun hbusy => by cases hbusy⟩
    · rintro s e s' ⟨hkept, hrunning⟩ hstep
      refine ⟨kept_step hkept hstep, fun hbusy => ?_⟩
      have hgoesOn (hsame : s'.busy = s.busy ∧ ∀ i, s'.Running i ↔ s.Running i) : ∃ i, s'.Running i := by
        obtain ⟨i, hi⟩ := hrunning (hsame.1 ▸ hbusy)
        exact ⟨i, (hsame.2 i).mpr hi⟩
      cases e with
      | start expect secureResult =>
        obtain rfl := Option.some.inj hstep
        exact ⟨_, running_start hkept expect secureResult⟩
      | ended i outcome =>
        obtain ⟨htold, hlen⟩ := told_of_ended hstep
        exact hgoesOn (running_of_told htold hlen)
      | post i =>
        obtain ⟨htold, hlen⟩ := told_of_post hstep
        exact hgoesOn (running_of_told htold hlen)
      | deliver =>
        obtain ⟨⟨s'', told⟩, hdeliver, rfl⟩ := Option.map_eq_some_iff.mp hstep
        rcases running_deliver hkept hdeliver with ⟨i, -, -, hidle, -⟩ | hsame
        · exact absurd (hidle.symm.trans hbusy) Bool.false_ne_true
        · exact hgoesOn hsame
  exact hinv.2

/-- An operation starts only when none is running. -/
def Patient (s : Session α) : Event α → Prop
  | .start .. => ∀ i, ¬ s.Running i
  | _ => True

theorem patient_of_idle (h : ∀ i, ¬ s.Running i) (e : Event α) : Patient s e := by
  cases e with
  | start expect secureResult => exact h
  | ended i outcome => trivial
  | post i => trivial
  | deliver => trivial

/-- At most one operation is running, and `loading_changed` says so. -/
structure Serial (s : Session α) : Prop where
  kept : Kept s
  busy : s.busy = true ↔ ∃ i, s.Running i
  unique : ∀ i j, s.Running i → s.Running j → i = j

theorem Serial.of_same (h : Serial s) (hkept : Kept s')
    (hsame : s'.busy = s.busy ∧ ∀ i, s'.Running i ↔ s.Running i) : Serial s' where
  kept := hkept
  busy := by
    simp only [hsame.1, hsame.2]
    exact h.busy
  unique := by
    simp only [hsame.2]
    exact h.unique

theorem serial_step {e : Event α} (h : Serial s) (hpatient : Patient s e) (hstep : step s e = some s') : Serial s' := by
  have hkept : Kept s' := kept_step h.kept hstep
  cases e with
  | start expect secureResult =>
    obtain rfl := Option.some.inj hstep
    have honly (i : ℕ) (hi : (s.start expect secureResult).Running i) : i = s.operations.length := by
      by_contra hne
      exact hpatient i ((running_start_of_ne expect secureResult hne).mp hi)
    refine ⟨hkept, iff_of_true (busy_start ..) ⟨_, running_start h.kept expect secureResult⟩, fun i j hi hj => ?_⟩
    rw [honly i hi, honly j hj]
  | ended i outcome =>
    obtain ⟨htold, hlen⟩ := told_of_ended hstep
    exact h.of_same hkept (running_of_told htold hlen)
  | post i =>
    obtain ⟨htold, hlen⟩ := told_of_post hstep
    exact h.of_same hkept (running_of_told htold hlen)
  | deliver =>
    obtain ⟨⟨s'', told⟩, hdeliver, rfl⟩ := Option.map_eq_some_iff.mp hstep
    rcases running_deliver h.kept hdeliver with ⟨i, hi, hover, hidle, hother⟩ | hsame
    · have hnone (j : ℕ) : ¬ s''.Running j := by
        intro hj
        by_cases hji : j = i
        · exact hover (hji ▸ hj)
        · exact hji (h.unique j i ((hother j hji).mp hj) hi)
      refine ⟨hkept, ?_, fun j _ hj => absurd hj (hnone j)⟩
      exact iff_of_false (by simp [hidle]) fun ⟨j, hj⟩ => hnone j hj
    · exact h.of_same hkept hsame

theorem serial_empty : Serial ({} : Session α) := by
  have hnone (i : ℕ) : ¬ ({} : Session α).Running i := fun h => absurd h.1 (Nat.not_lt_zero i)
  exact ⟨kept_empty, iff_of_false Bool.false_ne_true fun ⟨i, hi⟩ => hnone i hi, fun i _ hi => absurd hi (hnone i)⟩

/-! ### Operations after a step -/

/-- The view is told of a success only if the callable has returned. -/
theorem outcome_of_succeeded (h : Kept s) {i : ℕ} {value : α} (hmem : (i, .succeeded value) ∈ s.told) :
    ∃ op, s.operations[i]? = some op ∧ op.outcome = some (.ok value) ∧ op.expect value = true := by
  have hmem : .succeeded value ∈ Mailbox.of i s.told := Mailbox.mem_of.mpr hmem
  have hlt : i < s.operations.length := by
    by_contra hge
    rw [(h.fresh (not_lt.mp hge)).1] at hmem
    cases hmem
  have hop : s.operations[i]? = some s.operations[i] := List.getElem?_eq_getElem hlt
  obtain ⟨htold, hwhole, -⟩ := h.operations hop
  refine ⟨_, hop, ?_⟩
  have hreport : .succeeded value ∈ s.operations[i].report := by
    rw [htold] at hmem
    have hmem := (List.mem_cons.mp hmem).resolve_left (by simp)
    rw [← Operation.flatMap_announces, ← hwhole, Mailbox.whole, List.flatMap_append]
    exact List.mem_append_left _ hmem
  unfold Operation.report at hreport
  split at hreport
  · cases hreport
  · rename_i value' houtcome
    by_cases hexpect : s.operations[i].expect value' = true
    · simp [Operation.emitSuccess, hexpect] at hreport
      obtain rfl := hreport
      exact ⟨houtcome, hexpect⟩
    · simp [Operation.emitSuccess, hexpect] at hreport
  · simp at hreport

/-- An operation that was there, or the new one. -/
theorem operation_of_start {expect : α → Bool} {secureResult : Bool} {i : ℕ} {op : Operation α}
    (hop : (s.start expect secureResult).operations[i]? = some op) :
    s.operations[i]? = some op ∨ op = { expect, secureResult } := by
  rcases lt_or_ge i s.operations.length with hlt | hge
  · left
    rw [← hop]
    exact (List.getElem?_append_left hlt).symm
  · right
    have hmem : op ∈ [{ expect, secureResult }] := by
      refine List.mem_of_getElem? (i := i - s.operations.length) ?_
      rw [← hop]
      exact (List.getElem?_append_right hge).symm
    exact List.mem_singleton.mp hmem

theorem operation_of_ended {i j : ℕ} {outcome : Except Str α} {op : Operation α} (hstep : s.ended i outcome = some s')
    (hop : s'.operations[j]? = some op) : ∃ before, s.operations[j]? = some before ∧
      op.secureResult = before.secureResult ∧ (op.outcome = before.outcome ∨ j = i ∧ op.outcome = some outcome) := by
  obtain ⟨before, hbefore, hif⟩ := Option.bind_eq_some_iff.mp hstep
  split_ifs at hif
  obtain rfl := Option.some.inj hif
  by_cases hij : i = j
  · subst hij
    have hlt : i < s.operations.length := (List.getElem?_eq_some_iff.mp hbefore).1
    dsimp only at hop
    rw [List.getElem?_set_self hlt] at hop
    obtain rfl := Option.some.inj hop
    exact ⟨before, hbefore, rfl, .inr ⟨rfl, rfl⟩⟩
  · dsimp only at hop
    rw [List.getElem?_set_ne hij] at hop
    exact ⟨op, hop, rfl, .inl rfl⟩

theorem operation_of_post {i : ℕ} (hstep : s.post i = some s') : s'.operations = s.operations := by
  obtain ⟨mail, -, rfl⟩ := Option.map_eq_some_iff.mp hstep
  rfl

theorem operation_of_deliver {told : List (Told α)} {j : ℕ} {op : Operation α} (hstep : s.deliver = some (s', told))
    (hop : s'.operations[j]? = some op) : ∃ before, s.operations[j]? = some before ∧
      op.secureResult = before.secureResult ∧ op.outcome = before.outcome := by
  obtain ⟨i, signal, before, mail, -, hbefore, rfl, rfl⟩ := deliver_eq_some hstep
  obtain ⟨result, hreceive⟩ := before.receive_fst signal
  by_cases hij : i = j
  · subst hij
    have hlt : i < s.operations.length := (List.getElem?_eq_some_iff.mp hbefore).1
    dsimp only at hop
    rw [List.getElem?_set_self hlt, hreceive] at hop
    obtain rfl := Option.some.inj hop
    exact ⟨before, hbefore, rfl, rfl⟩
  · dsimp only at hop
    rw [List.getElem?_set_ne hij] at hop
    exact ⟨op, hop, rfl, rfl⟩

end OperationViewModel
end GpgMeister
