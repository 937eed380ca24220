/-
# A mailbox

Senders post messages into one queue, each its own in order, and a receiver
takes them from the front. Whatever the order in which the senders get to post,
what was taken of a sender, what of it is in the queue and what it still has to
post are together what it was given to say (`whole_post`, `whole_take`): nothing
is lost, doubled or out of turn.
-/
import Mathlib.Logic.Function.Basic
import Mathlib.Tactic

namespace GpgMeister

/-- What each sender still has to post, the queue, and what the receiver has
taken. -/
structure Mailbox (μ : Type) where
  pending : ℕ → List μ := fun _ => []
  queue : List (ℕ × μ) := []
  taken : List (ℕ × μ) := []

namespace Mailbox

variable {μ : Type} {m m' : Mailbox μ} {i j : ℕ} {x : μ}

/-- A sender gets more to say. -/
def load (m : Mailbox μ) (i : ℕ) (messages : List μ) : Mailbox μ :=
  { m with pending := Function.update m.pending i (m.pending i ++ messages) }

/-- A sender posts its next message. -/
def post (m : Mailbox μ) (i : ℕ) : Option (Mailbox μ) :=
  match m.pending i with
  | [] => none
  | x :: rest => some { m with pending := Function.update m.pending i rest, queue := m.queue ++ [(i, x)] }

/-- The receiver takes the message at the front. -/
def take (m : Mailbox μ) : Option ((ℕ × μ) × Mailbox μ) :=
  match m.queue with
  | [] => none
  | e :: rest => some (e, { m with queue := rest, taken := m.taken ++ [e] })

/-- The messages of a sender in a list of posted ones. -/
def of (i : ℕ) (posted : List (ℕ × μ)) : List μ :=
  (posted.filter (·.1 = i)).map Prod.snd

/-- What of a sender's messages the receiver has not taken. -/
def rest (m : Mailbox μ) (i : ℕ) : List μ := of i m.queue ++ m.pending i

/-- All that a sender has said and has to say. -/
def whole (m : Mailbox μ) (i : ℕ) : List μ := of i m.taken ++ m.rest i

/-- Nothing is in the queue or has to be posted. -/
def Quiet (m : Mailbox μ) : Prop := m.queue = [] ∧ ∀ i, m.pending i = []

@[simp] theorem of_nil : of i ([] : List (ℕ × μ)) = [] := rfl

@[simp] theorem of_map_self (messages : List μ) : of i (messages.map (i, ·)) = messages := by
  induction messages with
  | nil => rfl
  | cons x rest ih =>
    rw [of] at ih ⊢
    simpa using ih

theorem of_map_of_ne (h : j ≠ i) (messages : List μ) : of i (messages.map (j, ·)) = [] := by
  simp [of, h]

@[simp] theorem of_append (posted posted' : List (ℕ × μ)) : of i (posted ++ posted') = of i posted ++ of i posted' := by
  simp [of]

@[simp] theorem of_singleton_self : of i [(i, x)] = [x] := by simp [of]

theorem of_singleton_of_ne (h : j ≠ i) : of i [(j, x)] = [] := by simp [of, h]

theorem mem_of {posted : List (ℕ × μ)} : x ∈ of i posted ↔ (i, x) ∈ posted := by
  simp only [of, List.mem_map, List.mem_filter, decide_eq_true_eq]
  constructor
  · rintro ⟨e, ⟨he, rfl⟩, rfl⟩
    exact he
  · intro h
    exact ⟨(i, x), ⟨h, rfl⟩, rfl⟩

/-! ### What posting and taking do -/

theorem load_pending_self (messages : List μ) : (m.load i messages).pending i = m.pending i ++ messages :=
  Function.update_self ..

theorem load_pending_of_ne (h : j ≠ i) (messages : List μ) : (m.load i messages).pending j = m.pending j :=
  Function.update_of_ne h ..

@[simp] theorem load_queue (messages : List μ) : (m.load i messages).queue = m.queue := rfl

@[simp] theorem load_taken (messages : List μ) : (m.load i messages).taken = m.taken := rfl

theorem rest_load_self (messages : List μ) : (m.load i messages).rest i = m.rest i ++ messages := by
  simp only [rest, load_queue, load_pending_self, List.append_assoc]

theorem rest_load_of_ne (h : j ≠ i) (messages : List μ) : (m.load i messages).rest j = m.rest j := by
  simp only [rest, load_queue, load_pending_of_ne h]

theorem whole_load_self (messages : List μ) : (m.load i messages).whole i = m.whole i ++ messages := by
  simp only [whole, load_taken, rest_load_self, List.append_assoc]

theorem whole_load_of_ne (h : j ≠ i) (messages : List μ) : (m.load i messages).whole j = m.whole j := by
  simp only [whole, load_taken, rest_load_of_ne h]

theorem post_eq_some (h : m.post i = some m') : ∃ x later, m.pending i = x :: later ∧
    m' = { m with pending := Function.update m.pending i later, queue := m.queue ++ [(i, x)] } := by
  unfold post at h
  split at h
  · cases h
  · rename_i x later hpending
    exact ⟨x, later, hpending, (Option.some.inj h).symm⟩

theorem take_eq_some {e : ℕ × μ} (h : m.take = some (e, m')) :
    m.queue = e :: m'.queue ∧ m'.taken = m.taken ++ [e] ∧ m'.pending = m.pending := by
  unfold take at h
  split at h
  · cases h
  · rename_i first later hqueue
    cases h
    exact ⟨hqueue, rfl, rfl⟩

/-- Posting moves a message from the sender to the queue. -/
theorem rest_post (h : m.post i = some m') (j : ℕ) : m'.rest j = m.rest j := by
  obtain ⟨x, later, hpending, rfl⟩ := post_eq_some h
  unfold rest
  dsimp only
  rw [of_append]
  by_cases hij : j = i
  · subst hij
    rw [Function.update_self, hpending, of_singleton_self, List.append_assoc, List.singleton_append]
  · rw [Function.update_of_ne hij, of_singleton_of_ne (Ne.symm hij), List.append_nil]

theorem taken_post (h : m.post i = some m') : m'.taken = m.taken := by
  obtain ⟨x, later, -, rfl⟩ := post_eq_some h
  rfl

/-- The message that is taken is the next one of its sender. -/
theorem rest_take_self (h : m.take = some ((i, x), m')) : m.rest i = x :: m'.rest i := by
  obtain ⟨hqueue, -, hpending⟩ := take_eq_some h
  unfold rest
  rw [hqueue, hpending, ← List.singleton_append, of_append, of_singleton_self]
  rfl

theorem rest_take_of_ne (h : m.take = some ((i, x), m')) (hne : i ≠ j) : m'.rest j = m.rest j := by
  obtain ⟨hqueue, -, hpending⟩ := take_eq_some h
  unfold rest
  rw [hqueue, hpending, ← List.singleton_append, of_append, of_singleton_of_ne hne]
  rfl

/-- **Posting and taking lose nothing.** -/
theorem whole_post (h : m.post i = some m') (j : ℕ) : m'.whole j = m.whole j := by
  unfold whole
  rw [rest_post h, taken_post h]

theorem whole_take {e : ℕ × μ} (h : m.take = some (e, m')) (j : ℕ) : m'.whole j = m.whole j := by
  obtain ⟨-, htaken, -⟩ := take_eq_some h
  obtain ⟨i, x⟩ := e
  unfold whole
  rw [htaken, of_append]
  by_cases hij : i = j
  · subst hij
    rw [rest_take_self h, of_singleton_self, List.append_assoc, List.singleton_append]
  · rw [rest_take_of_ne h hij, of_singleton_of_ne hij, List.append_nil]

theorem Quiet.rest (h : m.Quiet) (i : ℕ) : m.rest i = [] := by
  unfold Mailbox.rest
  rw [h.1, h.2 i]
  rfl

/-- Once nothing is left, every message was taken. -/
theorem Quiet.of_taken (h : m.Quiet) (i : ℕ) : of i m.taken = m.whole i := by
  unfold whole
  rw [h.rest, List.append_nil]

end Mailbox
end GpgMeister
