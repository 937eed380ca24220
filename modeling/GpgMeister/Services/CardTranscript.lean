/-
# The transcript of an editor

`_answer_prompts` keeps what arrives from an editor of GnuPG as long as a read
fits into 1 MiB, and goes on to read when one does not; `_run_card_script` tells
from what was kept whether the card has done it. A read that does not fit is
lost, and a later one that fits is kept.

* `transcript_prefix_iff`: when what is kept is a beginning of the stream.
* `sound_within`: within the limit, and with a command pipe that takes every
  answer, it is, and a script that is reported to have succeeded has; one octet
  more, or one answer that is not written, and neither need be so.
-/
import GpgMeister.Services.SmartcardService

namespace GpgMeister
namespace Gpg

open Program

/-! ### What fits -/

/-- The reads that are kept after `n` octets. -/
def fitting : ℕ → List Chunk → List Chunk
  | _, [] => []
  | n, c :: reads =>
    if n + c.data.length ≤ statusBufLimit then c :: fitting (n + c.data.length) reads else fitting n reads

/-- What still fits after a read that does not fit repeats what was lost: as a
rule, nothing fits any more. -/
def OnePiece : ℕ → List Chunk → Prop
  | _, [] => True
  | n, c :: reads =>
    if n + c.data.length ≤ statusBufLimit then OnePiece (n + c.data.length) reads
    else stream (fitting n reads) <+: stream (c :: reads)

theorem stream_cons (c : Chunk) (reads : List Chunk) : stream (c :: reads) = c.data ++ stream reads := rfl

theorem onePiece_iff : ∀ (reads : List Chunk) (n : ℕ), OnePiece n reads ↔ stream (fitting n reads) <+: stream reads
  | [], n => by simp [OnePiece, fitting, stream]
  | c :: reads, n => by
    rw [OnePiece, fitting]
    by_cases hfits : n + c.data.length ≤ statusBufLimit
    · rw [if_pos hfits, if_pos hfits, stream_cons, stream_cons, List.prefix_append_right_inj]
      exact onePiece_iff reads _
    · rw [if_neg hfits, if_neg hfits]

theorem fitting_of_none : ∀ (reads : List Chunk) {n : ℕ}, (∀ c ∈ reads, statusBufLimit < n + c.data.length) →
    fitting n reads = []
  | [], _, _ => rfl
  | c :: reads, n, h => by
    have hc := h c (by simp)
    rw [fitting, if_neg (by omega)]
    exact fitting_of_none reads fun c' hc' => h c' (by simp [hc'])

theorem length_stream_fitting : ∀ (reads : List Chunk) (n : ℕ),
    (stream (fitting n reads)).length ≤ (stream reads).length
  | [], _ => le_rfl
  | c :: reads, n => by
    rw [fitting, stream_cons, List.length_append]
    split
    · have ih := length_stream_fitting reads (n + c.data.length)
      rw [stream_cons, List.length_append]
      omega
    · have ih := length_stream_fitting reads n
      omega

/-- What fits is kept. -/
theorem fitting_append : ∀ (reads rest : List Chunk) {n : ℕ}, n + (stream reads).length ≤ statusBufLimit →
    fitting n (reads ++ rest) = reads ++ fitting (n + (stream reads).length) rest
  | [], _, _, _ => rfl
  | c :: reads, rest, n, h => by
    rw [stream_cons, List.length_append] at h ⊢
    rw [List.cons_append, fitting, if_pos (by omega), fitting_append reads rest (by omega), Nat.add_assoc]
    rfl

/-- A stream within the limit is kept. -/
theorem fitting_eq {reads : List Chunk} (h : (stream reads).length ≤ statusBufLimit) : fitting 0 reads = reads := by
  have happend := @fitting_append reads [] 0 (by omega)
  rwa [List.append_nil, fitting, List.append_nil] at happend

/-! ### What is heard -/

/-- Every answer of the conversation is written. -/
def Unbroken (faults : ℕ → Option ℕ) (c : Conversation) : Prop := ∀ i < c.answers.length, faults i = none

instance (faults : ℕ → Option ℕ) (c : Conversation) : Decidable (Unbroken faults c) :=
  inferInstanceAs (Decidable (∀ i < c.answers.length, faults i = none))

/-- The reads up to the one with a prompt whose answer is not written. -/
def heard (faults : ℕ → Option ℕ) : Conversation → Bytes → List Chunk → List Chunk
  | _, _, [] => []
  | c, buffer, chunk :: reads =>
    let c' := (completeLines (buffer ++ chunk.data)).foldl Conversation.step c
    if Unbroken faults c' then chunk :: heard faults c' (lastLine (buffer ++ chunk.data)) reads else [chunk]

theorem prefix_heard (faults : ℕ → Option ℕ) : ∀ (reads : List Chunk) (c : Conversation) (buffer : Bytes),
    heard faults c buffer reads <+: reads
  | [], _, _ => List.prefix_rfl
  | chunk :: reads, c, buffer => by
    unfold heard
    dsimp only
    split
    · exact (List.prefix_cons_inj chunk).mpr (prefix_heard faults reads _ _)
    · exact ⟨reads, rfl⟩

theorem unbroken_of_noFaults {faults : ℕ → Option ℕ} (h : ∀ i, faults i = none) (c : Conversation) :
    Unbroken faults c := fun i _ => h i

/-- A conversation that goes on has been unbroken. -/
theorem Unbroken.of_foldl {faults : ℕ → Option ℕ} {lines : List Bytes} {c : Conversation}
    (h : Unbroken faults (lines.foldl Conversation.step c)) : Unbroken faults c := by
  intro i hi
  exact h i (lt_of_lt_of_le hi (answers_foldl lines c).length_le)

/-- A conversation in which every answer is written is heard to its end. -/
theorem heard_of_unbroken {faults : ℕ → Option ℕ} : ∀ (reads : List Chunk) {c : Conversation} {buffer : Bytes},
    Unbroken faults ((promptLines buffer reads).foldl Conversation.step c) → heard faults c buffer reads = reads
  | [], _, _, _ => rfl
  | chunk :: reads, c, buffer, h => by
    rw [promptLines, List.foldl_append] at h
    rw [heard, if_pos h.of_foldl, heard_of_unbroken reads h]

theorem BrokenBefore.not_unbroken {faults : ℕ → Option ℕ} {c : Conversation} {r : Responder}
    (h : BrokenBefore faults c r) : ¬ Unbroken faults c := by
  intro hc
  obtain ⟨c', hbroken, hprefix⟩ := h
  obtain ⟨answers, keyword, answer, n, hanswers, hfault, -⟩ := hbroken.last
  have hlt : answers.length < c.answers.length := by
    have hle := hprefix.length_le
    rw [hanswers, List.length_append, List.length_singleton] at hle
    omega
  rw [hc answers.length hlt] at hfault
  cases hfault

/-! ### What the thread keeps -/

theorem keeps_answerLine (line : Bytes) : Keeps Responder.transcript (answerLine line) := by
  refine keeps_get.bind fun r => ?_
  split
  · cases promptKeyword line with
    | none => exact keeps_pure _
    | some keyword =>
      have htake : Keeps Responder.transcript (takeAnswer keyword) := fun _ => rfl
      refine htake.bind fun answer => ?_
      cases answer with
      | none => exact fun _ => rfl
      | some answer =>
        intro r'
        unfold after writeAll
        simp only [EStateM.run]
        cases r'.faults 0 <;> rfl
  · exact keeps_pure _

theorem keeps_answerLines : ∀ lines : List Bytes, Keeps Responder.transcript (answerLines lines)
  | [] => keeps_pure _
  | line :: lines => (keeps_answerLine line).bind fun _ => keeps_answerLines lines

/-- A prompt with an answer. -/
theorem run_answerLine {r : Responder} {line : Bytes} {keyword : Str} {answer : Bytes} {script : PromptScript}
    (hanswering : r.answering = true) (hkeyword : promptKeyword line = some keyword)
    (htake : r.script.take keyword = (some answer, script)) :
    (answerLine line).run r = (writeAll keyword (answer ++ [lineFeedOctet])).run { r with script := script } := by
  have htaken : (takeAnswer keyword).run r = .ok (some answer) { r with script := script } := by
    change EStateM.Result.ok (r.script.take keyword).1 { r with script := (r.script.take keyword).2 } = _
    rw [htake]
  unfold answerLine
  rw [EStateM.run_bind]
  change (if r.answering = true then _ else _ : Program Responder Exc Unit).run r = _
  rw [if_pos hanswering, hkeyword]
  dsimp only
  rw [EStateM.run_bind, htaken]

/-- A line is done with if its answer was written. -/
theorem unbroken_answerLine {faults : ℕ → Option ℕ} {c : Conversation} {r r' : Responder} (h : Follows faults c r)
    (hc : Unbroken faults c) {line : Bytes} (hrun : (answerLine line).run r = .ok () r') :
    Unbroken faults (c.step line) := by
  have hfollows := ((meets_answerLine h line).of_run_eq_ok hrun).1
  rcases Nat.lt_or_ge c.answers.length (c.step line).answers.length with hlt | hle
  · -- the prompt has an answer: had its write failed, the line would have raised
    unfold Conversation.step at hlt ⊢
    split at hlt
    · exact absurd hlt (lt_irrefl _)
    · rename_i hu
      rw [if_neg hu]
      cases hkeyword : promptKeyword line with
      | none =>
        rw [hkeyword] at hlt
        exact absurd hlt (lt_irrefl _)
      | some keyword =>
        rw [hkeyword] at hlt
        dsimp only at hlt ⊢
        obtain ⟨taken, script, htake⟩ : ∃ taken script, c.script.take keyword = (taken, script) := ⟨_, _, rfl⟩
        rw [htake] at hlt ⊢
        cases taken with
        | none => exact absurd hlt (lt_irrefl _)
        | some answer =>
          have hu : c.unanswered = none := by simpa using hu
          have hanswering : r.answering = true := by rw [h.answering, hu]; rfl
          rw [run_answerLine hanswering hkeyword (by rw [h.script, htake])] at hrun
          have hfault : faults c.answers.length = none := by
            have h0 : r.faults 0 = faults c.answers.length := h.faults 0
            rw [← h0]
            cases hf : r.faults 0 with
            | none => rfl
            | some n => simp [EStateM.run, writeAll, hf] at hrun
          intro i hi
          rw [List.length_append, List.length_singleton] at hi
          rcases Nat.lt_succ_iff_lt_or_eq.mp hi with hi | rfl
          · exact hc i hi
          · exact hfault
  · have heq : (c.step line).answers.length = c.answers.length := le_antisymm hle (answers_step c line).length_le
    intro i hi
    exact hc i (heq ▸ hi)

theorem unbroken_answerLines {faults : ℕ → Option ℕ} : ∀ {lines : List Bytes} {c : Conversation}
    {r r' : Responder}, Follows faults c r → Unbroken faults c → (answerLines lines).run r = .ok () r' →
      Unbroken faults (lines.foldl Conversation.step c)
  | [], _, _, _, _, hc, _ => hc
  | line :: lines, c, r, r', h, hc, hrun => by
    obtain ⟨_, r1, hline, hrest⟩ := run_bind_eq_ok.mp hrun
    have hfollows := ((meets_answerLine h line).of_run_eq_ok hline).1
    rw [List.foldl_cons]
    exact unbroken_answerLines hfollows (unbroken_answerLine h hc hline) hrest

/-- What a read adds to the transcript. -/
def Responder.keep (r : Responder) (c : Chunk) : Responder :=
  if r.transcript.length + c.data.length ≤ statusBufLimit then { r with transcript := r.transcript ++ c.data } else r

theorem Follows.keep {faults : ℕ → Option ℕ} {c : Conversation} {r : Responder} (h : Follows faults c r)
    (chunk : Chunk) : Follows faults c (r.keep chunk) := by
  unfold Responder.keep
  split
  · exact ⟨h.script, h.answering, h.unanswered, h.pipe, h.faults⟩
  · exact h

/-- What is kept of a read and of what follows it. -/
theorem transcript_keep (r : Responder) (chunk : Chunk) (reads : List Chunk) :
    (r.keep chunk).transcript ++ stream (fitting (r.keep chunk).transcript.length reads) =
      r.transcript ++ stream (fitting r.transcript.length (chunk :: reads)) := by
  rw [fitting]
  unfold Responder.keep
  split
  · rw [stream_cons, ← List.append_assoc, List.length_append]
  · rfl

/-- The transcript and the rest of the state where the reads have come to an
end. -/
structure Heard (faults : ℕ → Option ℕ) (c : Conversation) (transcript : Bytes) (r : Responder) : Prop where
  transcript : r.transcript = transcript
  unanswered : r.unanswered = if Unbroken faults c then c.unanswered else none

theorem meets_answerReads_heard {faults : ℕ → Option ℕ} : ∀ {reads : List Chunk} {buffer : Bytes} {c : Conversation}
    {r : Responder}, Follows faults c r → Unbroken faults c → (answerReads buffer reads).Meets r
      (fun _ r' => Heard faults ((promptLines buffer reads).foldl Conversation.step c)
        (r.transcript ++ stream (fitting r.transcript.length (heard faults c buffer reads))) r')
      fun e r' => e.isA [.osError] = true ∧ Heard faults ((promptLines buffer reads).foldl Conversation.step c)
        (r.transcript ++ stream (fitting r.transcript.length (heard faults c buffer reads))) r'
  | [], buffer, c, r, h, hc => by
    refine ⟨by simp [heard, fitting, stream], ?_⟩
    rw [promptLines, List.foldl_nil, if_pos hc, h.unanswered]
  | chunk :: reads, buffer, c, r, h, hc => by
    have hkeep := h.keep chunk
    rw [answerReads, meets_bind, promptLines, List.foldl_append]
    change ((answerLines (completeLines (buffer ++ chunk.data))) >>= fun _ =>
      answerReads (lastLine (buffer ++ chunk.data)) reads).Meets (r.keep chunk) _ _
    unfold heard
    dsimp only
    rw [meets_bind]
    unfold Meets
    cases hlines : (answerLines (completeLines (buffer ++ chunk.data))).run (r.keep chunk) with
    | ok u r1 =>
      have htranscript := (keeps_answerLines _).of_run_eq_ok hlines
      have hfollows := ((meets_answerLines hkeep).of_run_eq_ok hlines).1
      have hunbroken := unbroken_answerLines hkeep hc hlines
      rw [if_pos hunbroken, ← transcript_keep, ← htranscript]
      exact meets_answerReads_heard hfollows hunbroken
    | error e r1 =>
      have htranscript := (keeps_answerLines _).of_run_eq_error hlines
      obtain ⟨he, hbroken⟩ := (meets_answerLines hkeep).of_run_eq_error hlines
      have hnot := hbroken.not_unbroken
      rw [if_neg hnot, ← transcript_keep, ← htranscript]
      refine ⟨he, by simp [fitting, stream], ?_⟩
      obtain ⟨c', hc', -⟩ := hbroken
      rw [if_neg fun h => hnot h.of_foldl, hc'.unanswered]

/-- The reads that the thread of an editor hears. -/
def heardReads (faults : ℕ → Option ℕ) (script : PromptScript) (reads : List Chunk) : List Chunk :=
  heard faults { script } [] reads

/-- What the thread of an editor ends with. -/
theorem heard_answerPrompts (script : PromptScript) (faults : ℕ → Option ℕ) (reads : List Chunk) :
    Heard faults (converse script (completeLines (stream reads))) (stream (fitting 0 (heardReads faults script reads)))
      ((answerPrompts reads).after (.start script faults)) := by
  have hstart : Follows faults { script } (.start script faults) :=
    ⟨rfl, rfl, rfl, rfl, fun n => congrArg faults (Nat.zero_add n).symm⟩
  have hreads := @meets_answerReads_heard faults reads [] _ _ hstart fun i hi => absurd hi (by simp)
  have hlines : promptLines [] reads = completeLines (stream reads) := promptLines_eq reads rfl
  rw [hlines, ← converse] at hreads
  have hclose (r : Responder) {transcript : Bytes} {c : Conversation} (h : Heard faults c transcript r) :
      (do if (← get).answering then closeCommand : Program Responder Exc Unit).Meets r
        (fun _ r' => Heard faults c transcript r') fun _ _ => False := by
    refine (meets_closeIfAnswering r).mono (fun _ r' hr' => ?_) fun _ _ h => h
    cases hanswering : r.answering with
    | true =>
      rw [hr'.1 hanswering]
      exact ⟨h.transcript, h.unanswered⟩
    | false =>
      rw [hr'.2 hanswering]
      exact h
  have hmeets : (answerPrompts reads).Meets (.start script faults)
      (fun _ r' => Heard faults (converse script (completeLines (stream reads)))
        (stream (fitting 0 (heardReads faults script reads))) r') fun _ _ => False := by
    rw [answerPrompts, meets_ensuring, meets_catching]
    refine hreads.mono (fun _ r1 h1 => hclose r1 h1) fun e r1 h1 => ?_
    rw [if_pos h1.1, meets_pure]
    exact hclose r1 h1.2
  obtain ⟨u, r, hrun, hr⟩ := hmeets.exists_ok
  rw [after_of_run_eq_ok hrun]
  exact hr

/-- **What is kept is a beginning of the stream** exactly if what is heard is
kept in one piece. -/
theorem transcript_prefix_iff (script : PromptScript) (faults : ℕ → Option ℕ) (reads : List Chunk) :
    ((answerPrompts reads).after (.start script faults)).transcript <+: stream reads ↔
      OnePiece 0 (heardReads faults script reads) := by
  rw [(heard_answerPrompts script faults reads).transcript, onePiece_iff]
  obtain ⟨rest, hrest⟩ := prefix_heard faults reads { script } []
  have hstream : stream (heardReads faults script reads) <+: stream reads := by
    refine ⟨stream rest, ?_⟩
    rw [heardReads, stream, stream, stream, ← List.flatMap_append, hrest]
  refine ⟨fun h => ?_, fun h => h.trans hstream⟩
  exact List.prefix_of_prefix_length_le h hstream (length_stream_fitting _ _)

/-! ### Reads of whole lines -/

/-- Every read ends with a line. -/
def WholeLines (reads : List Chunk) : Prop := ∀ c ∈ reads, lastLine c.data = []

theorem completeLines_stream : ∀ {reads : List Chunk}, WholeLines reads →
    completeLines (stream reads) = reads.flatMap fun c => completeLines c.data
  | [], _ => rfl
  | c :: reads, h => by
    have hc := h c (by simp)
    rw [stream_cons, completeLines_append, hc, List.nil_append, List.flatMap_cons,
      completeLines_stream fun c' hc' => h c' (by simp [hc'])]

theorem parseStatus_append {a : Bytes} (ha : lastLine a = []) (b : Bytes) :
    parseStatus (a ++ b) = parseStatus a ++ parseStatus b := by
  have hempty : lineRecords (decodeOutput []) = [] := by decide
  rw [parseStatus_eq_flatMap, parseStatus_eq_flatMap, parseStatus_eq_flatMap, splitOn_append, splitOn_eq a, ha,
    List.nil_append]
  simp [hempty]

theorem parseStatus_stream : ∀ {reads : List Chunk}, WholeLines reads →
    parseStatus (stream reads) = reads.flatMap fun c => parseStatus c.data
  | [], _ => by decide
  | c :: reads, h => by
    rw [stream_cons, parseStatus_append (h c (by simp)), List.flatMap_cons,
      parseStatus_stream fun c' hc' => h c' (by simp [hc'])]

/-- Lines that ask nothing. -/
theorem foldl_step_of_noPrompt : ∀ {lines : List Bytes} {c : Conversation},
    (∀ line ∈ lines, promptKeyword line = none) → lines.foldl Conversation.step c = c
  | [], _, _ => rfl
  | line :: lines, c, h => by
    have hline : c.step line = c := by
      unfold Conversation.step
      rw [h line (by simp)]
      split <;> rfl
    rw [List.foldl_cons, hline]
    exact foldl_step_of_noPrompt fun line' hline' => h line' (by simp [hline'])

end Gpg

namespace SmartcardService

open Gpg GPGService CardScripts Program

variable {γ Time : Type} {env : Platform γ Time}

/-! ### What is reported -/

/-- The conversation of an editor over all of its stream. -/
def conversationOf (run : EditorRun) (script : PromptScript) : Conversation :=
  converse script (completeLines (stream run.reads))

/-- What the parser finds of a stream of octets. -/
def failureIn (data : Bytes) : Option Str := cardOperationFailed (parseStatus data)

/-- Every prompt has an answer, and it was written. -/
structure AllAnswered (run : EditorRun) (script : PromptScript) : Prop where
  written : Unbroken run.faults (conversationOf run script)
  unanswered : (conversationOf run script).unanswered = none

/-- The card has done it. -/
structure Succeeded (run : EditorRun) (script : PromptScript) : Prop where
  failure : failureIn (stream run.reads) = none
  returncode : run.returncode = 0
  answered : AllAnswered run script

/-- The editor comes to its end, and shows no failure as far as it is heard and
kept. -/
structure LooksFine (w : World γ Time) (run : EditorRun) (script : PromptScript) : Prop where
  started : w.faults 0 = none ∧ w.faults 1 = none
  raised : run.raised = none
  returncode : run.returncode = 0
  unanswered : Unbroken run.faults (conversationOf run script) → (conversationOf run script).unanswered = none
  failure : failureIn (stream (fitting 0 (heardReads run.faults script run.reads))) = none

theorem run_emitBestEffort (audit : Bool) (event outcome : Str) (payload : Dict) (w : World γ Time) :
    ∃ w', (emitBestEffort env audit event outcome payload).run w = .ok () w' := by
  unfold emitBestEffort
  cases audit with
  | false => exact ⟨w, rfl⟩
  | true =>
    rw [if_pos rfl, run_catching]
    cases (emit env.toEnv event outcome payload).run w with
    | ok u w' => exact ⟨w', rfl⟩
    | error e w' => exact ⟨w', rfl⟩

/-- The run of an editor that is started. -/
theorem run_runPromptScript {args : List Str} {script : PromptScript} {run : EditorRun} {w : World γ Time} {g : γ}
    (hrun : env.gpg.editor args w.gnupg = (.ok run, g)) (h0 : w.faults 0 = none) (h1 : w.faults 1 = none) :
    ∃ w', (runPromptScript env args script).run w =
      match run.raised with
      | some e => .error e w'
      | none => .ok (promptRun run (respond run script), (respond run script).script) w' := by
  have hstart (w1 : World γ Time) (hw1 : w1.gnupg = w.gnupg) :
      (onGnupg (env.gpg.editor args) : Program (World γ Time) Exc EditorRun).run w1 =
        .ok run { w1 with gnupg := g } := by
    simp only [EStateM.run, onGnupg, hw1, hrun]
  unfold runPromptScript
  rw [EStateM.run_bind, run_syscall_of_none h0]
  dsimp only
  rw [EStateM.run_bind, run_syscall_of_none h1]
  dsimp only
  rw [EStateM.run_bind, hstart]
  · dsimp only
    cases run.raised with
    | some e => exact ⟨_, rfl⟩
    | none => exact ⟨_, rfl⟩
  · rfl

theorem run_runPromptScript_of_fault {args : List Str} {script : PromptScript} {w : World γ Time}
    (h : ¬ (w.faults 0 = none ∧ w.faults 1 = none)) :
    ∃ e w', (runPromptScript env args script).run w = .error e w' := by
  unfold runPromptScript
  rw [EStateM.run_bind]
  cases h0 : w.faults 0 with
  | some e =>
    rw [run_syscall_of_some h0]
    exact ⟨e, _, rfl⟩
  | none =>
    rw [run_syscall_of_none h0]
    dsimp only
    rw [EStateM.run_bind]
    cases h1 : w.faults 1 with
    | some e =>
      rw [run_syscall_of_some h1]
      exact ⟨e, _, rfl⟩
    | none => exact absurd ⟨h0, h1⟩ h

/-- What becomes of a run whose prompts were answered. -/
theorem run_finishScript (audit : Bool) (result : PromptRun) (leftover : ℕ) (operation event : Str) (payload : Dict)
    (w : World γ Time) : (∃ w', (finishScript env audit result leftover operation event payload).run w = .ok () w') ↔
      cardOperationFailed result.statusRecords = none ∧ result.returncode = 0 := by
  unfold finishScript
  dsimp only
  by_cases hfailed : (cardOperationFailed result.statusRecords).isSome = true ∨ result.returncode ≠ 0
  · rw [if_pos hfailed]
    refine iff_of_false ?_ ?_
    · intro h
      obtain ⟨w', h⟩ := h
      obtain ⟨_, w1, -, h⟩ := run_bind_eq_ok.mp h
      cases h
    · intro h
      rcases hfailed with hfailed | hfailed
      · rw [h.1] at hfailed
        cases hfailed
      · exact hfailed h.2
  · rw [if_neg hfailed]
    push Not at hfailed
    refine iff_of_true (run_emitBestEffort _ _ _ _ w) ⟨?_, hfailed.2⟩
    simpa using hfailed.1

/-- A script is reported to have succeeded exactly if it looks fine. -/
theorem reported_iff {args : List Str} {script : PromptScript} {run : EditorRun} {w : World γ Time} {g : γ}
    (hrun : env.gpg.editor args w.gnupg = (.ok run, g)) (audit : Bool) (operation event : Str) (payload : Dict) :
    (∃ w', (runCardScript env audit args script operation event payload).run w = .ok () w') ↔
      LooksFine w run script := by
  obtain ⟨htranscript, hunanswered⟩ := heard_answerPrompts script run.faults run.reads
  have hfailure : cardOperationFailed (promptRun run (respond run script)).statusRecords =
      failureIn (stream (fitting 0 (heardReads run.faults script run.reads))) := by
    rw [failureIn, ← htranscript]
    rfl
  have hanswered : (promptRun run (respond run script)).unansweredPrompt = none ↔
      (Unbroken run.faults (conversationOf run script) → (conversationOf run script).unanswered = none) := by
    rw [conversationOf, ← ite_eq_right_iff, ← hunanswered]
    rfl
  by_cases hstarted : w.faults 0 = none ∧ w.faults 1 = none
  · obtain ⟨w1, hedit⟩ := @run_runPromptScript γ Time env args script run w g hrun hstarted.1 hstarted.2
    unfold runCardScript
    rw [EStateM.run_bind, hedit]
    cases hraised : run.raised with
    | some e =>
      refine iff_of_false (fun h => ?_) fun h => ?_
      · obtain ⟨w', h⟩ := h
        cases h
      · rw [h.raised] at hraised
        cases hraised
    | none =>
      dsimp only
      cases hprompt : (promptRun run (respond run script)).unansweredPrompt with
      | some prompt =>
        refine iff_of_false (fun h => ?_) fun h => ?_
        · obtain ⟨w', h⟩ := h
          obtain ⟨_, w2, -, h⟩ := run_bind_eq_ok.mp h
          cases h
        · rw [hanswered.mpr h.unanswered] at hprompt
          cases hprompt
      | none =>
        rw [run_finishScript, hfailure]
        constructor
        · intro h
          exact ⟨hstarted, hraised, h.2, hanswered.mp hprompt, h.1⟩
        · intro h
          exact ⟨h.failure, h.returncode⟩
  · obtain ⟨e, w1, hedit⟩ := @run_runPromptScript_of_fault γ Time env args script w hstarted
    unfold runCardScript
    rw [EStateM.run_bind, hedit]
    refine iff_of_false (fun h => ?_) fun h => hstarted h.started
    obtain ⟨w', h⟩ := h
    cases h

/-- The transcript is a beginning of the stream, and what is reported to have
succeeded has. -/
structure Sound (env : Platform γ Time) (args : List Str) (script : PromptScript) (run : EditorRun)
    (w : World γ Time) : Prop where
  transcript : (respond run script).transcript <+: stream run.reads
  success : ∀ audit operation event payload,
    (∃ w', (runCardScript env audit args script operation event payload).run w = .ok () w') → Succeeded run script

/-- The transcript can be trusted exactly if it is kept in one piece, and a run
that looks fine has no failure beyond what was heard and kept. -/
theorem sound_iff {args : List Str} {script : PromptScript} {run : EditorRun} {w : World γ Time} {g : γ}
    (hrun : env.gpg.editor args w.gnupg = (.ok run, g)) : Sound env args script run w ↔
      OnePiece 0 (heardReads run.faults script run.reads) ∧
        (LooksFine w run script → Unbroken run.faults (conversationOf run script) ∧
          failureIn (stream run.reads) = none) := by
  rw [← transcript_prefix_iff]
  constructor
  · intro h
    refine ⟨h.transcript, fun hfine => ?_⟩
    have hsuccess := h.success false [] [] { items := [], unique := rfl } ((reported_iff hrun _ _ _ _).mpr hfine)
    exact ⟨hsuccess.answered.written, hsuccess.failure⟩
  · intro h
    refine ⟨h.1, fun audit operation event payload hreported => ?_⟩
    have hfine := (reported_iff hrun audit operation event payload).mp hreported
    obtain ⟨hwritten, hfailure⟩ := h.2 hfine
    exact ⟨hfailure, hfine.returncode, hwritten, hfine.unanswered hwritten⟩

/-- The stream is within the limit, and every answer is written. -/
structure Within (run : EditorRun) (script : PromptScript) : Prop where
  size : (stream run.reads).length ≤ statusBufLimit
  written : Unbroken run.faults (conversationOf run script)

theorem Within.heardReads_eq {run : EditorRun} {script : PromptScript} (h : Within run script) :
    heardReads run.faults script run.reads = run.reads := by
  have hlines : promptLines [] run.reads = completeLines (stream run.reads) := promptLines_eq run.reads rfl
  refine heard_of_unbroken run.reads ?_
  rw [hlines]
  exact h.written

/-- Then all of the stream is heard and kept. -/
theorem sound_of_within {args : List Str} {script : PromptScript} {run : EditorRun} {w : World γ Time} {g : γ}
    (hrun : env.gpg.editor args w.gnupg = (.ok run, g)) (h : Within run script) : Sound env args script run w := by
  rw [sound_iff hrun, h.heardReads_eq, onePiece_iff, fitting_eq h.size]
  refine ⟨List.prefix_rfl, fun hfine => ⟨h.written, ?_⟩⟩
  have hfailure := hfine.failure
  rwa [h.heardReads_eq, fitting_eq h.size] at hfailure

theorem failureIn_eq_none_iff {data : Bytes} :
    failureIn data = none ↔ ∀ record ∈ parseStatus data, record.head? ≠ some statusFailure := by
  have hrecords : ∀ records : List Record, cardOperationFailed records = none ↔
      ∀ record ∈ records, record.head? ≠ some statusFailure := by
    intro records
    induction records with
    | nil => simp [cardOperationFailed]
    | cons record records ih =>
      cases record with
      | nil => simp [cardOperationFailed, ih]
      | cons tag rest =>
        by_cases htag : tag = statusFailure
        · simp [cardOperationFailed, htag]
        · simp [cardOperationFailed, htag, ih]
  exact hrecords _

/-! ### Failures that are not heard -/

def promptRead : Chunk where
  data := ascii "[GNUPG:] GET_LINE cardedit.prompt\n"
  nonempty := by decide
  bound := by decide

def paddingRead : Chunk where
  data := ascii "[GNUPG:]\n"
  nonempty := by decide
  bound := by decide

def progressRead : Chunk where
  data := ascii "[GNUPG:] PROGRESS primegen + 0 0\n"
  nonempty := by decide
  bound := by decide

def failureRead : Chunk where
  data := ascii "[GNUPG:] SC_OP_FAILURE 1\n"
  nonempty := by decide
  bound := by decide

/-- A prompt, and progress. -/
def progressReads (progress : ℕ) : List Chunk := promptRead :: paddingRead :: List.replicate progress progressRead

/-- An editor that asks, makes progress, and fails. -/
def failingRun (progress : ℕ) : EditorRun where
  returncode := 0
  reads := progressReads progress ++ [failureRead]

/-- An editor that asks and fails, and does not take the answer. -/
def brokenRun : EditorRun where
  returncode := 0
  reads := [promptRead, failureRead]
  faults := fun n => if n = 0 then some 0 else none

def generateScript : PromptScript := PromptScript.empty.add (lit "cardedit.prompt") [ascii "generate"]

/-- GnuPG with this editor. -/
def editorGnuPG (run : EditorRun) : GnuPG Unit Unit := { noGnuPG with editor := fun _ g => (.ok run, g) }

/-- What an editor does is judged rightly. -/
def JudgedRightly (run : EditorRun) : Prop :=
  Sound (samplePlatform (editorGnuPG run)) [lit "--card-edit"] generateScript run (sampleWorld () fun _ => none)

theorem mem_progressReads {progress : ℕ} {c : Chunk} (h : c ∈ progressReads progress) :
    c ∈ [promptRead, paddingRead, progressRead] := by
  rcases List.mem_cons.mp h with rfl | h
  · simp
  rcases List.mem_cons.mp h with rfl | h
  · simp
  · rw [List.eq_of_mem_replicate h]
    simp

theorem wholeLines_failingRun (progress : ℕ) : WholeLines (failingRun progress).reads := by
  have hall : [promptRead, paddingRead, progressRead].all (fun c => lastLine c.data = []) = true := by decide
  intro c hc
  rcases List.mem_append.mp hc with hc | hc
  · exact of_decide_eq_true (List.all_eq_true.mp hall c (mem_progressReads hc))
  · rw [List.mem_singleton.mp hc]
    decide

theorem length_progressReads (progress : ℕ) : (stream (progressReads progress)).length = 43 + progress * 33 := by
  have hprompt : promptRead.data.length = 34 := by decide
  have hpadding : paddingRead.data.length = 9 := by decide
  have hprogress : progressRead.data.length = 33 := by decide
  rw [progressReads, stream_cons, stream_cons, List.length_append, List.length_append, hprompt, hpadding, stream,
    List.flatMap_replicate, List.length_flatten, List.map_replicate, List.sum_replicate, hprogress, smul_eq_mul]
  omega

theorem length_failingRun (progress : ℕ) : (stream (failingRun progress).reads).length = 68 + progress * 33 := by
  have hfailure : (stream [failureRead]).length = 25 := by decide
  rw [failingRun, stream_append, List.length_append, length_progressReads, hfailure]
  omega

/-- The failure does not fit any more. -/
theorem fitting_failingRun : fitting 0 (failingRun 31773).reads = progressReads 31773 := by
  have hlength := length_progressReads 31773
  have hlimit : statusBufLimit = 1048576 := rfl
  have hfailure : failureRead.data.length = 25 := by decide
  unfold failingRun
  dsimp only
  rw [fitting_append _ _ (by omega), fitting, if_neg (by omega), fitting, List.append_nil]

/-- All that is kept is a prompt and progress. -/
theorem failureIn_progressReads (progress : ℕ) : failureIn (stream (progressReads progress)) = none := by
  have hlines : WholeLines (progressReads progress) := fun c hc =>
    wholeLines_failingRun progress c (List.mem_append_left _ hc)
  have hall : [promptRead, paddingRead, progressRead].all (fun c =>
      (parseStatus c.data).all fun record => record.head? ≠ some statusFailure) = true := by decide
  rw [failureIn_eq_none_iff, parseStatus_stream hlines]
  intro record hrecord
  obtain ⟨c, hc, hrecord⟩ := List.mem_flatMap.mp hrecord
  exact of_decide_eq_true (List.all_eq_true.mp (List.all_eq_true.mp hall c (mem_progressReads hc)) record hrecord)

/-- The prompt has its answer, and there is no other. -/
theorem unanswered_failingRun (progress : ℕ) :
    (conversationOf (failingRun progress) generateScript).unanswered = none := by
  have hrest : ∀ line ∈ (paddingRead :: List.replicate progress progressRead ++ [failureRead]).flatMap fun c =>
      completeLines c.data, promptKeyword line = none := by
    have hall : [paddingRead, progressRead, failureRead].all (fun c =>
        (completeLines c.data).all fun line => promptKeyword line = none) = true := by decide
    intro line hline
    obtain ⟨c, hc, hline⟩ := List.mem_flatMap.mp hline
    have hmem : c ∈ [paddingRead, progressRead, failureRead] := by
      rcases List.mem_append.mp hc with hc | hc
      · rcases List.mem_cons.mp hc with rfl | hc
        · simp
        · rw [List.eq_of_mem_replicate hc]
          simp
      · rw [List.mem_singleton.mp hc]
        simp
    exact of_decide_eq_true (List.all_eq_true.mp (List.all_eq_true.mp hall c hmem) line hline)
  rw [conversationOf, completeLines_stream (wholeLines_failingRun progress), converse, failingRun, progressReads,
    List.cons_append, List.flatMap_cons, List.foldl_append, foldl_step_of_noPrompt hrest]
  decide

theorem failureIn_failingRun (progress : ℕ) : failureIn (stream (failingRun progress).reads) ≠ none := by
  intro h
  have hrecords := failureIn_eq_none_iff.mp h
  rw [parseStatus_stream (wholeLines_failingRun progress)] at hrecords
  refine hrecords [lit "SC_OP_FAILURE", lit "1"] (List.mem_flatMap.mpr ⟨failureRead, ?_, by decide⟩) (by decide)
  simp [failingRun]

/-- The failure is one octet too much, and success is reported. -/
theorem misjudged_failingRun : ¬ JudgedRightly (failingRun 31773) := by
  intro hsound
  have hheard : heardReads (failingRun 31773).faults generateScript (failingRun 31773).reads =
      (failingRun 31773).reads := heard_of_unbroken _ (unbroken_of_noFaults (fun _ => rfl) _)
  have hfine : LooksFine (sampleWorld () fun _ => none) (failingRun 31773) generateScript := by
    refine ⟨⟨rfl, rfl⟩, rfl, rfl, fun _ => unanswered_failingRun _, ?_⟩
    rw [hheard, fitting_failingRun]
    exact failureIn_progressReads _
  have hreported := (@reported_iff _ _ (samplePlatform (editorGnuPG (failingRun 31773))) [lit "--card-edit"]
    generateScript (failingRun 31773) (sampleWorld () fun _ => none) () rfl false [] []
    { items := [], unique := rfl }).mpr hfine
  exact failureIn_failingRun _ (hsound.success _ _ _ _ hreported).failure

/-- The failure comes after an answer that is not written, and success is
reported. -/
theorem misjudged_brokenRun : ¬ JudgedRightly brokenRun := by
  intro hsound
  have hfine : LooksFine (sampleWorld () fun _ => none) brokenRun generateScript :=
    ⟨⟨rfl, rfl⟩, rfl, rfl, fun _ => by decide +kernel, by decide +kernel⟩
  have hreported := (@reported_iff _ _ (samplePlatform (editorGnuPG brokenRun)) [lit "--card-edit"] generateScript
    brokenRun (sampleWorld () fun _ => none) () rfl false [] [] { items := [], unique := rfl }).mpr hfine
  exact absurd (hsound.success _ _ _ _ hreported).failure (by decide +kernel)

/-- **The transcript can be trusted** if the stream is within the limit and every
answer is written. Neither can be spared: with one octet more, or one answer
that is not written, a failure may be reported as a success. -/
theorem sound_within {γ Time : Type} {env : Platform γ Time} {args : List Str} (script : PromptScript)
    {run : EditorRun} {w : World γ Time} {g : γ} (hrun : env.gpg.editor args w.gnupg = (.ok run, g)) :
    (Within run script → Sound env args script run w) ∧
    (∃ run, (stream run.reads).length = statusBufLimit + 1 ∧
      Unbroken run.faults (conversationOf run generateScript) ∧ ¬ JudgedRightly run) ∧
    ∃ run, (stream run.reads).length ≤ statusBufLimit ∧ (∀ i ≠ 0, run.faults i = none) ∧ ¬ JudgedRightly run := by
  refine ⟨sound_of_within hrun, ⟨failingRun 31773, ?_, ?_, ?_⟩, brokenRun, ?_, ?_, misjudged_brokenRun⟩
  · rw [length_failingRun]
    rfl
  · exact unbroken_of_noFaults (fun _ => rfl) _
  · exact misjudged_failingRun
  · decide +kernel
  · exact fun i hi => if_neg hi

/-- An editor that asks and ends well. -/
def succeedingRun : EditorRun where
  returncode := 0
  reads := [promptRead, progressRead]

theorem sound_succeedingRun : JudgedRightly succeedingRun :=
  (sound_within generateScript rfl).1 ⟨by decide +kernel, unbroken_of_noFaults (fun _ => rfl) _⟩

/-- The failure is not kept, and success is reported. -/
theorem not_sound : ¬ ∀ (γ Time : Type) (env : Platform γ Time) args script run w g,
    env.gpg.editor args w.gnupg = (.ok run, g) → Sound env args script run w := fun h =>
  misjudged_failingRun (h Unit Unit (samplePlatform (editorGnuPG (failingRun 31773))) _ _ _ _ () rfl)

end SmartcardService
end GpgMeister
