/-
# The clipboard

`ui/clipboard.py`: a text that is copied is put on the clipboard, with a timer
of its own to clear it. A timer knows what it has to clear only by the text,
so that it also clears a later copy of an equal text. The three promises hold
in every run in which no text is copied again while an earlier copy of it
waits for a timer that is due before the new one's
(`cleared_of_reachable`).
-/
import GpgMeister.Lib.System
import GpgMeister.Lib.Text

namespace GpgMeister
namespace Clipboard

/-! ### The module -/

/-- `_PendingClear`: when its timer is due, in milliseconds, and the text. -/
structure PendingClear where
  due : ℤ
  snapshot : Str
  deriving DecidableEq

/-- Where what is on the clipboard comes from; the code does not know it. -/
inductive Origin
  | user
  | copied (delay : ℤ)
  | cleared
  deriving DecidableEq

/-- The clipboard, `_PENDING`, `_default_clear_seconds` and the clock. The code
reads neither the origin of the text, nor when and with which delay a text was
copied last. -/
structure Session where
  text : Str := []
  pending : List PendingClear := []
  defaultClearSeconds : ℤ := 60
  now : ℤ := 0
  origin : Origin := .user
  latest : Str → Option (ℤ × ℤ) := fun _ => none

/-- `set_default_clear_seconds` -/
def setDefaultClearSeconds (seconds : ℤ) (s : Session) : Session := { s with defaultClearSeconds := max 0 seconds }

/-- `_clear_if_matches` -/
def clearIfMatches (snapshot : Str) (s : Session) : Session :=
  if s.text = snapshot then { s with text := [], origin := .cleared } else s

/-- The delay of a copy, in seconds. -/
def delayOf (clearAfterSeconds : Option ℤ) (s : Session) : ℤ := clearAfterSeconds.getD s.defaultClearSeconds

/-- `set_sensitive_text`, of a copy with this delay -/
def setSensitiveText (text : Str) (delay : ℤ) (s : Session) : Session :=
  { s with
    text := text
    origin := .copied delay
    latest := Function.update s.latest text (some (s.now, delay)) }

/-- `copy_text`: an empty text is not copied, and a delay that is not positive
sets no timer. -/
def copyText (text : Str) (clearAfterSeconds : Option ℤ) (s : Session) : Session :=
  if text = [] then s
  else if delayOf clearAfterSeconds s ≤ 0 then setSensitiveText text (delayOf clearAfterSeconds s) s
  else
    { setSensitiveText text (delayOf clearAfterSeconds s) s with
      pending := s.pending ++ [{ due := s.now + delayOf clearAfterSeconds s * 1000, snapshot := text }] }

/-- The timer of this entry fires: it is due, and no other is due before it. -/
def fire (i : ℕ) (s : Session) : Option Session :=
  match s.pending[i]? with
  | some entry =>
    if entry.due ≤ s.now ∧ ∀ other ∈ s.pending, entry.due ≤ other.due then
      some { clearIfMatches entry.snapshot s with pending := s.pending.eraseIdx i }
    else none
  | none => none

/-- `flush_pending_clears`: the entries are taken from the end. -/
def flushPendingClears (s : Session) : Session :=
  { s.pending.reverse.foldl (fun s entry => clearIfMatches entry.snapshot s) s with pending := [] }

/-! ### Runs -/

/-- What happens. -/
inductive Event
  | copy (text : Str) (clearAfterSeconds : Option ℤ)
  | setDefault (seconds : ℤ)
  | userSets (text : Str)
  | wait (milliseconds : ℕ)
  | fire (i : ℕ)
  | flush

def step (s : Session) : Event → Option Session
  | .copy text clearAfterSeconds => some (copyText text clearAfterSeconds s)
  | .setDefault seconds => some (setDefaultClearSeconds seconds s)
  | .userSets text => some { s with text := text, origin := .user }
  | .wait milliseconds => some { s with now := s.now + milliseconds }
  | .fire i => fire i s
  | .flush => some (flushPendingClears s)

/-- The application starts with whatever the user has on the clipboard. -/
def sessions : System Session Event :=
  .ofStep (fun s => s.pending = [] ∧ s.origin = .user ∧ s.latest = fun _ => none) step

/-- A text is not copied while an earlier copy of it is to be cleared before
the new one. -/
def Fresh (s : Session) : Event → Prop
  | .copy text clearAfterSeconds =>
    delayOf clearAfterSeconds s ≤ 0 ∨
      ∀ entry ∈ s.pending, entry.snapshot = text → s.now + delayOf clearAfterSeconds s * 1000 ≤ entry.due
  | _ => True

instance : ∀ s e, Decidable (Fresh s e)
  | s, .copy text _ => inferInstanceAs (Decidable (_ ∨ ∀ entry ∈ s.pending, entry.snapshot = text → _))
  | _, .setDefault _ | _, .userSets _ | _, .wait _ | _, .fire _ | _, .flush => isTrue trivial

/-- The delay of the latest copy of the text is over. -/
def Elapsed (s : Session) (text : Str) : Prop :=
  ∀ copiedAt delay, s.latest text = some (copiedAt, delay) → copiedAt + delay * 1000 ≤ s.now

/-! ### What the operations do -/

section Operations

variable {s : Session}

theorem clearIfMatches_of_ne {snapshot : Str} (h : s.text ≠ snapshot) : clearIfMatches snapshot s = s := if_neg h

/-- Only the text and its origin change. -/
theorem clearIfMatches_eq (snapshot : Str) (s : Session) :
    clearIfMatches snapshot s =
      { s with text := (clearIfMatches snapshot s).text, origin := (clearIfMatches snapshot s).origin } := by
  unfold clearIfMatches
  split_ifs <;> rfl

/-- A copy is still there only if it does not match. -/
theorem clearIfMatches_copied {snapshot : Str} {delay : ℤ} (h : (clearIfMatches snapshot s).origin = .copied delay) :
    s.text ≠ snapshot ∧ clearIfMatches snapshot s = s := by
  by_cases hs : s.text = snapshot
  · rw [clearIfMatches, if_pos hs] at h
    cases h
  · exact ⟨hs, clearIfMatches_of_ne hs⟩

theorem foldl_clearIfMatches_of_ne : ∀ {entries : List PendingClear} {s : Session},
    (∀ entry ∈ entries, entry.snapshot ≠ s.text) →
      entries.foldl (fun s entry => clearIfMatches entry.snapshot s) s = s
  | [], _, _ => rfl
  | entry :: entries, s, h => by
    rw [List.forall_mem_cons] at h
    rw [List.foldl_cons, clearIfMatches_of_ne h.1.symm]
    exact foldl_clearIfMatches_of_ne h.2

/-- What survives all of them matches none. -/
theorem foldl_clearIfMatches_copied {delay : ℤ} : ∀ {entries : List PendingClear} {s : Session},
    (entries.foldl (fun s entry => clearIfMatches entry.snapshot s) s).origin = .copied delay →
      s.origin = .copied delay ∧ ∀ entry ∈ entries, entry.snapshot ≠ s.text
  | [], _, h => ⟨h, fun _ h => nomatch h⟩
  | entry :: entries, s, h => by
    rw [List.foldl_cons] at h
    obtain ⟨horigin, hrest⟩ := foldl_clearIfMatches_copied h
    obtain ⟨hne, heq⟩ := clearIfMatches_copied horigin
    rw [heq] at horigin hrest
    exact ⟨horigin, List.forall_mem_cons.mpr ⟨hne.symm, hrest⟩⟩

theorem fire_eq_some {i : ℕ} {s' : Session} (h : fire i s = some s') :
    ∃ entry, s.pending[i]? = some entry ∧ entry.due ≤ s.now ∧
      s' = { clearIfMatches entry.snapshot s with pending := s.pending.eraseIdx i } := by
  unfold fire at h
  cases hentry : s.pending[i]? with
  | none => simp [hentry] at h
  | some entry =>
    simp only [hentry] at h
    split_ifs at h with hdue
    exact ⟨entry, rfl, hdue.1, (Option.some.inj h).symm⟩

end Operations

/-! ### The invariant -/

/-- A text that waits to be cleared has an entry, and no entry clears a text
before the delay of its latest copy is over. -/
structure Waiting (s : Session) : Prop where
  owned : ∀ delay, s.origin = .copied delay → 0 < delay → ∃ entry ∈ s.pending, entry.snapshot = s.text
  due : ∀ entry ∈ s.pending, ∀ copiedAt delay, s.latest entry.snapshot = some (copiedAt, delay) →
    copiedAt + delay * 1000 ≤ entry.due ∨ copiedAt + delay * 1000 ≤ s.now

section Steps

variable {s s' : Session}

theorem latest_setSensitiveText_of_ne {text q : Str} (delay : ℤ) (h : q ≠ text) :
    (setSensitiveText text delay s).latest q = s.latest q := Function.update_of_ne h _ _

theorem latest_setSensitiveText {text : Str} {delay copiedAt delay' : ℤ}
    (h : (setSensitiveText text delay s).latest text = some (copiedAt, delay')) :
    s.now = copiedAt ∧ delay = delay' := by
  simpa [setSensitiveText] using h

theorem waiting_copyText {text : Str} {clearAfterSeconds : Option ℤ} (h : Waiting s)
    (hfresh : Fresh s (.copy text clearAfterSeconds)) : Waiting (copyText text clearAfterSeconds s) := by
  unfold copyText
  split_ifs with htext hdelay
  · exact h
  · refine ⟨fun delay horigin hpos => ?_, fun entry hentry copiedAt delay hlatest => ?_⟩
    · obtain rfl := Origin.copied.inj horigin
      exact absurd hpos (not_lt.mpr hdelay)
    · by_cases hsnapshot : entry.snapshot = text
      · right
        rw [hsnapshot] at hlatest
        obtain ⟨rfl, rfl⟩ := latest_setSensitiveText hlatest
        show s.now + delayOf clearAfterSeconds s * 1000 ≤ s.now
        omega
      · rw [latest_setSensitiveText_of_ne _ hsnapshot] at hlatest
        exact h.due entry hentry copiedAt delay hlatest
  · have hnew : ({ due := s.now + delayOf clearAfterSeconds s * 1000, snapshot := text } : PendingClear) ∈
        s.pending ++ [{ due := s.now + delayOf clearAfterSeconds s * 1000, snapshot := text }] := by simp
    refine ⟨fun _ _ _ => ⟨_, hnew, rfl⟩, fun entry hentry copiedAt delay hlatest => ?_⟩
    by_cases hsnapshot : entry.snapshot = text
    · left
      rw [hsnapshot] at hlatest
      obtain ⟨rfl, rfl⟩ := latest_setSensitiveText hlatest
      rcases List.mem_append.mp hentry with hold | hold
      · exact hfresh.resolve_left hdelay entry hold hsnapshot
      · rw [List.mem_singleton.mp hold]
    · have hold : entry ∈ s.pending := (List.mem_append.mp hentry).resolve_right fun hmem =>
        hsnapshot (by rw [List.mem_singleton.mp hmem])
      exact h.due entry hold copiedAt delay ((latest_setSensitiveText_of_ne _ hsnapshot).symm.trans hlatest)

theorem waiting_fire {i : ℕ} (h : Waiting s) (hfire : fire i s = some s') : Waiting s' := by
  obtain ⟨entry, hentry, -, rfl⟩ := fire_eq_some hfire
  refine ⟨fun delay horigin hpos => ?_, fun other hother => ?_⟩
  · obtain ⟨hne, heq⟩ := clearIfMatches_copied horigin
    obtain ⟨other, hother, hsnapshot⟩ := h.owned delay (by rw [← heq]; exact horigin) hpos
    obtain ⟨j, hj⟩ := List.getElem?_of_mem hother
    -- The entry of the text is not the one that fired.
    have hji : j ≠ i := by
      rintro rfl
      obtain rfl := Option.some.inj (hentry.symm.trans hj)
      exact hne hsnapshot.symm
    refine ⟨other, List.mem_eraseIdx_iff_getElem?.mpr ⟨j, hji, hj⟩, ?_⟩
    show other.snapshot = (clearIfMatches entry.snapshot s).text
    rw [heq, hsnapshot]
  · rw [clearIfMatches_eq]
    exact h.due other (List.mem_of_mem_eraseIdx hother)

theorem waiting_flush (h : Waiting s) : Waiting (flushPendingClears s) := by
  refine ⟨fun delay horigin hpos => ?_, fun entry hentry => absurd hentry List.not_mem_nil⟩
  obtain ⟨horigin, hnone⟩ := foldl_clearIfMatches_copied horigin
  obtain ⟨entry, hentry, hsnapshot⟩ := h.owned delay horigin hpos
  exact absurd hsnapshot (hnone entry (List.mem_reverse.mpr hentry))

/-- **The step lemma.** -/
theorem waiting_step {e : Event} (h : Waiting s) (hfresh : Fresh s e) (hstep : step s e = some s') : Waiting s' := by
  cases e with
  | copy text clearAfterSeconds =>
    obtain rfl := Option.some.inj hstep
    exact waiting_copyText h hfresh
  | setDefault seconds =>
    obtain rfl := Option.some.inj hstep
    exact ⟨h.owned, h.due⟩
  | userSets text =>
    obtain rfl := Option.some.inj hstep
    exact ⟨fun delay horigin => (nomatch horigin), h.due⟩
  | wait milliseconds =>
    obtain rfl := Option.some.inj hstep
    refine ⟨h.owned, fun entry hentry copiedAt delay hlatest => ?_⟩
    refine (h.due entry hentry copiedAt delay hlatest).imp_right fun hnow => ?_
    show copiedAt + delay * 1000 ≤ s.now + milliseconds
    omega
  | fire i => exact waiting_fire h hstep
  | flush =>
    obtain rfl := Option.some.inj hstep
    exact waiting_flush h

/-- **The run lemma.** -/
theorem waiting_of_reachable (h : (sessions.restrict Fresh).Reachable s) : Waiting s := by
  refine h.inv (P := Waiting) ?_ ?_
  · rintro s ⟨hpending, horigin, -⟩
    refine ⟨fun delay h => ?_, fun entry hentry => ?_⟩
    · rw [horigin] at h
      cases h
    · rw [hpending] at hentry
      cases hentry
  · intro s e s' hs hstep
    exact waiting_step hs hstep.1 hstep.2

/-- A timer that changes the text has cleared the text of its entry. -/
theorem elapsed_of_fire {i : ℕ} (h : Waiting s) (hfire : fire i s = some s') (hcleared : s'.text ≠ s.text) :
    Elapsed s s.text := by
  obtain ⟨entry, hentry, hdue, rfl⟩ := fire_eq_some hfire
  have hsnapshot : s.text = entry.snapshot := by
    by_contra hne
    exact hcleared (by rw [clearIfMatches_of_ne hne])
  intro copiedAt delay hlatest
  rw [hsnapshot] at hlatest
  rcases h.due entry (List.mem_of_getElem? hentry) copiedAt delay hlatest with h | h
  · exact h.trans hdue
  · exact h

/-- A text without an entry is left alone. -/
theorem text_of_forall_ne {e : Event} (hwho : (∃ i, e = .fire i) ∨ e = .flush) (hstep : step s e = some s')
    (hnone : ∀ entry ∈ s.pending, entry.snapshot ≠ s.text) : s'.text = s.text := by
  rcases hwho with ⟨i, rfl⟩ | rfl
  · obtain ⟨entry, hentry, -, rfl⟩ := fire_eq_some hstep
    rw [clearIfMatches_of_ne (hnone entry (List.mem_of_getElem? hentry)).symm]
  · obtain rfl := Option.some.inj hstep
    show (s.pending.reverse.foldl (fun s entry => clearIfMatches entry.snapshot s) s).text = s.text
    rw [foldl_clearIfMatches_of_ne fun entry hentry => hnone entry (List.mem_reverse.mp hentry)]

/-- **What the clipboard promises**, in every run in which no text is copied
while an earlier copy of it is to be cleared first. -/
theorem cleared_of_reachable (h : (sessions.restrict Fresh).Reachable s) :
    (∀ i s', step s (.fire i) = some s' → s'.text ≠ s.text → Elapsed s s.text) ∧
      (∀ e s', (∃ i, e = .fire i) ∨ e = .flush → step s e = some s' →
        (∀ entry ∈ s.pending, entry.snapshot ≠ s.text) → s'.text = s.text) ∧
      (s.pending = [] → ∀ delay, s.origin = .copied delay → delay ≤ 0) ∧
      ∀ s', step s .flush = some s' → s'.pending = [] ∧ ∀ delay, s'.origin = .copied delay → delay ≤ 0 := by
  have hwaiting := waiting_of_reachable h
  have hnone {t : Session} (ht : Waiting t) (hpending : t.pending = []) (delay : ℤ)
      (horigin : t.origin = .copied delay) : delay ≤ 0 := by
    by_contra hpos
    obtain ⟨entry, hentry, -⟩ := ht.owned delay horigin (not_le.mp hpos)
    rw [hpending] at hentry
    cases hentry
  refine ⟨fun i s' hstep => elapsed_of_fire hwaiting hstep, fun e s' hwho hstep => text_of_forall_ne hwho hstep,
    hnone hwaiting, fun s' hstep => ?_⟩
  have hwaiting' : Waiting s' := waiting_step (e := .flush) hwaiting trivial hstep
  obtain rfl := Option.some.inj hstep
  exact ⟨rfl, hnone hwaiting' rfl⟩

end Steps

/-! ### Two runs -/

/-- A text is copied, and again after the first timer. -/
def copiedAfter : List Event :=
  [.copy (lit "a") none, .wait 60000, .fire 0, .copy (lit "a") none, .wait 60000]

/-- A text is copied for ten seconds, and then for a minute. -/
def copiedAgain : List Event :=
  [.copy (lit "a") (some 10), .wait 5000, .copy (lit "a") (some 60), .wait 5000]

/-- What a run ends with: the text, when it was copied last, the time, and the
text after the first timer. -/
def lastText (run : Option Session) : Option (Str × Option (ℤ × ℤ) × ℤ × Option Str) :=
  run.map fun s => (s.text, s.latest s.text, s.now, (step s (.fire 0)).map (·.text))

theorem exists_of_lastText {run : Option Session} {text after : Str} {latest : Option (ℤ × ℤ)} {now : ℤ}
    (h : lastText run = some (text, latest, now, some after)) :
    ∃ s s', run = some s ∧ step s (.fire 0) = some s' ∧ s.text = text ∧ s'.text = after ∧ s.latest s.text = latest ∧
      s.now = now := by
  obtain ⟨s, rfl, hs⟩ := Option.map_eq_some_iff.mp h
  obtain ⟨htext, hlatest, hnow, hafter⟩ : s.text = text ∧ s.latest s.text = latest ∧ s.now = now ∧
      (step s (.fire 0)).map (·.text) = some after := by simpa only [Prod.mk.injEq] using hs
  obtain ⟨s', hstep, hs'⟩ := Option.map_eq_some_iff.mp hafter
  exact ⟨s, s', rfl, hstep, htext, hs', hlatest, hnow⟩

/-- The second timer clears the text when it may. -/
theorem cleared_copiedAfter : ∃ s s', step s (.fire 0) = some s' ∧ s'.text ≠ s.text ∧ Elapsed s s.text := by
  have hlast : lastText (System.runLabels (System.guarded Fresh step) {} copiedAfter) =
      some (lit "a", some (60000, 60), 120000, some []) := by decide +kernel
  obtain ⟨s, s', hs, hstep, htext, htext', -, -⟩ := exists_of_lastText hlast
  have hempty : (sessions.restrict Fresh).Reachable {} := .init ⟨rfl, rfl, rfl⟩
  have hreachable := System.reachable_restrict_of_runLabels _ hempty hs
  have hne : s'.text ≠ s.text := by
    rw [htext, htext']
    decide
  exact ⟨s, s', hstep, hne, (cleared_of_reachable hreachable).1 0 s' hstep hne⟩

/-- The first timer clears the second copy. -/
theorem cleared_copiedAgain : ¬ ∀ s, sessions.Reachable s → ∀ i s', step s (.fire i) = some s' → s'.text ≠ s.text →
    Elapsed s s.text := by
  intro h
  have hlast : lastText (System.runLabels step {} copiedAgain) =
      some (lit "a", some (5000, 60), 10000, some []) := by decide +kernel
  obtain ⟨s, s', hs, hstep, htext, htext', hlatest, hnow⟩ := exists_of_lastText hlast
  have hreachable : sessions.Reachable s := System.reachable_of_runLabels _ (.init ⟨rfl, rfl, rfl⟩) hs
  have hne : s'.text ≠ s.text := by
    rw [htext, htext']
    decide
  have helapsed : (5000 : ℤ) + 60 * 1000 ≤ s.now := h s hreachable 0 s' hstep hne 5000 60 hlatest
  omega

end Clipboard
end GpgMeister
