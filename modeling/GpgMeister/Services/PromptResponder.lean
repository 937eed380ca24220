/-
# Answers to prompts

GnuPG's editors ask on the status stream and read the answers from a command
pipe. `PromptScript` of `services/card_scripts.py` holds the answers, in a
queue for each keyword, and `_answer_prompts` of `services/gpg_service.py`
takes them from there as the prompts arrive. A prompt without an answer ends
the conversation.

* `answerPrompts_conversation`: what is written is what the conversation over
  the lines of the stream says, however they arrive.
-/
import GpgMeister.Lib.Dict
import GpgMeister.Lib.Program
import GpgMeister.Services.SignatureStatus

namespace GpgMeister

/-! ### Scripts -/

/-- `PromptScript`: the lists of answers, and which of them a keyword has. -/
structure PromptScript where
  bindings : List (Str × ℕ)
  queues : List (List Bytes)
  bound : ∀ b ∈ bindings, b.2 < queues.length
  deriving DecidableEq

namespace PromptScript

/-- `PromptScript()` -/
def empty : PromptScript where
  bindings := []
  queues := []
  bound := by simp

/-- The list of a keyword. -/
def queueOf (s : PromptScript) (keyword : Str) : Option ℕ := s.bindings.lookup keyword

theorem queueOf_lt {s : PromptScript} {keyword : Str} {i : ℕ} (h : s.queueOf keyword = some i) : i < s.queues.length := by
  obtain ⟨before, after, hb, -⟩ := List.lookup_eq_some_iff.mp h
  exact s.bound (keyword, i) (by rw [hb]; simp)

/-- The answers that are left for a keyword. -/
def answersOf (s : PromptScript) (keyword : Str) : List Bytes :=
  ((s.queueOf keyword).bind fun i => s.queues[i]?).getD []

/-- `d[keyword] = i` -/
def bind (bindings : List (Str × ℕ)) (keyword : Str) (i : ℕ) : List (Str × ℕ) :=
  if bindings.any (·.1 = keyword) then bindings.map fun b => if b.1 = keyword then (keyword, i) else b
  else bindings ++ [(keyword, i)]

theorem mem_bind {bindings : List (Str × ℕ)} {keyword : Str} {i : ℕ} {b : Str × ℕ} (h : b ∈ bind bindings keyword i) :
    b ∈ bindings ∨ b.2 = i := by
  unfold bind at h
  split_ifs at h
  · obtain ⟨b', hb', rfl⟩ := List.mem_map.mp h
    split_ifs
    · exact .inr rfl
    · exact .inl hb'
  · rcases List.mem_append.mp h with h | h
    · exact .inl h
    · exact .inr (by rw [List.mem_singleton.mp h])

theorem mem_bindAll {i : ℕ} {b : Str × ℕ} : ∀ {keywords : List Str} {bindings : List (Str × ℕ)},
    b ∈ keywords.foldl (fun bindings keyword => bind bindings keyword i) bindings → b ∈ bindings ∨ b.2 = i
  | [], _, h => .inl h
  | keyword :: keywords, bindings, h => by
    rcases @mem_bindAll i b keywords _ h with h | h
    · exact mem_bind h
    · exact .inr h

/-- `add` -/
def add (s : PromptScript) (keyword : Str) (answers : List Bytes) : PromptScript :=
  match s.queueOf keyword with
  | some i =>
    { s with
      queues := s.queues.modify i (· ++ answers)
      bound := fun b hb => by simpa using s.bound b hb }
  | none =>
    { bindings := s.bindings ++ [(keyword, s.queues.length)]
      queues := s.queues ++ [answers]
      bound := by
        intro b hb
        rw [List.length_append, List.length_singleton]
        rcases List.mem_append.mp hb with hb | hb
        · exact Nat.lt_succ_of_lt (s.bound b hb)
        · rw [List.mem_singleton.mp hb]
          exact Nat.lt_succ_self _ }

/-- The keywords get the list of another one. -/
def acceptUnder (s : PromptScript) (first : Str) (keywords : List Str) : PromptScript :=
  match h : s.queueOf first with
  | none => s
  | some i =>
    { s with
      bindings := keywords.foldl (fun bindings keyword => bind bindings keyword i) s.bindings
      bound := by
        intro b hb
        rcases mem_bindAll hb with hb | hb
        · exact s.bound b hb
        · rw [hb]
          exact queueOf_lt h }

/-- `share` -/
def share (s : PromptScript) (keywords : List Str) (answers : List Bytes) : PromptScript :=
  match keywords with
  | [] => s
  | first :: rest => (s.add first answers).acceptUnder first rest

/-- `take` -/
def take (s : PromptScript) (keyword : Str) : Option Bytes × PromptScript :=
  match s.queueOf keyword with
  | none => (none, s)
  | some i =>
    match (s.queues[i]?).getD [] with
    | [] => (none, s)
    | answer :: answers =>
      (some answer,
        { s with
          queues := s.queues.set i answers
          bound := fun b hb => by simpa using s.bound b hb })

/-- `pending`: how many keywords have answers left. -/
def pending (s : PromptScript) : ℕ := (s.bindings.filter fun b => (s.queues[b.2]?).getD [] ≠ []).length

/-! ### What is queued for a keyword -/

/-- Two keywords have one list. -/
def Alias (s : PromptScript) (keyword keyword' : Str) : Prop :=
  (s.queueOf keyword).isSome = true ∧ s.queueOf keyword = s.queueOf keyword'

instance (s : PromptScript) (keyword keyword' : Str) : Decidable (s.Alias keyword keyword') := by
  unfold Alias
  infer_instance

/-- `add` queues the answers for the keyword and its aliases. -/
theorem answersOf_add (s : PromptScript) (keyword : Str) (answers : List Bytes) (k : Str) :
    (s.add keyword answers).answersOf k =
      if k = keyword ∨ s.Alias k keyword then s.answersOf k ++ answers else s.answersOf k := by
  unfold add
  split
  · next i hi =>
    change ((s.queueOf k).bind fun j => (s.queues.modify i (· ++ answers))[j]?).getD [] = _
    cases hk : s.queueOf k with
    | none =>
      have hne : ¬ (k = keyword ∨ s.Alias k keyword) := by
        rintro (rfl | h)
        · rw [hi] at hk
          cases hk
        · rw [Alias, hk] at h
          exact absurd h.1 (by decide)
      rw [if_neg hne, answersOf, hk]
      rfl
    | some j =>
      rw [answersOf, hk, Option.bind_some, Option.bind_some]
      by_cases hij : i = j
      · subst hij
        rw [if_pos (.inr ⟨by rw [hk]; rfl, hk.trans hi.symm⟩), List.getElem?_modify_eq,
          List.getElem?_eq_getElem (queueOf_lt hk)]
        rfl
      · have hne : ¬ (k = keyword ∨ s.Alias k keyword) := by
          rintro (rfl | h)
          · exact hij (Option.some.inj (hi.symm.trans hk))
          · exact hij (Option.some.inj (hi.symm.trans (h.2.symm.trans hk)))
        rw [if_neg hne, List.getElem?_modify_ne _ _ hij]
  · next hi =>
    change (((s.bindings ++ [(keyword, s.queues.length)]).lookup k).bind fun j =>
      (s.queues ++ [answers])[j]?).getD [] = _
    rw [List.lookup_append]
    cases hk : s.queueOf k with
    | none =>
      rw [queueOf] at hk
      rw [hk, Option.none_or, answersOf, queueOf, hk]
      by_cases he : k = keyword
      · subst he
        simp
      · have hne : ¬ (k = keyword ∨ s.Alias k keyword) := by
          rintro (h | h)
          · exact he h
          · rw [Alias, queueOf, hk] at h
            exact absurd h.1 (by decide)
        rw [if_neg hne, Json.lookup_cons_eq, if_neg he]
        rfl
    | some j =>
      have hne : ¬ (k = keyword ∨ s.Alias k keyword) := by
        rintro (rfl | h)
        · rw [hi] at hk
          cases hk
        · rw [Alias, hk, hi] at h
          exact absurd h.2 (by simp)
      have hlt := queueOf_lt hk
      rw [if_neg hne, answersOf, hk]
      rw [queueOf] at hk
      rw [hk, Option.some_or, Option.bind_some, Option.bind_some, List.getElem?_append_left hlt]

theorem lookup_rebind (keyword : Str) (i : ℕ) (k : Str) : ∀ bindings : List (Str × ℕ),
    (bindings.map fun b => if b.1 = keyword then (keyword, i) else b).lookup k =
      if k = keyword then (bindings.lookup k).map fun _ => i else bindings.lookup k
  | [] => by simp
  | b :: bindings => by
    have ih := lookup_rebind keyword i k bindings
    rw [List.map_cons, Json.lookup_cons_eq, Json.lookup_cons_eq, ih]
    by_cases hb : b.1 = keyword
    · by_cases hk : k = keyword
      · simp [hb, hk]
      · simp [hb, hk]
    · by_cases hk : k = keyword
      · simp [hb, hk, Ne.symm hb]
      · simp [hb, hk]

theorem lookup_bind (bindings : List (Str × ℕ)) (keyword : Str) (i : ℕ) (k : Str) :
    (bind bindings keyword i).lookup k = if k = keyword then some i else bindings.lookup k := by
  unfold bind
  by_cases hany : (bindings.any (·.1 = keyword)) = true
  · rw [if_pos hany, lookup_rebind]
    by_cases hk : k = keyword
    · obtain ⟨b, hb, he⟩ := List.any_eq_true.mp hany
      have hsome : (bindings.lookup k).isSome = true := by
        rw [List.lookup_isSome_iff]
        exact ⟨b, hb, by rw [hk]; simpa using (of_decide_eq_true he).symm⟩
      obtain ⟨j, hj⟩ := Option.isSome_iff_exists.mp hsome
      rw [if_pos hk, if_pos hk, hj]
      rfl
    · rw [if_neg hk, if_neg hk]
  · rw [if_neg hany, List.lookup_append, Json.lookup_cons_eq, List.lookup_nil]
    by_cases hk : k = keyword
    · have hnone : bindings.lookup k = none := by
        rw [List.lookup_eq_none_iff]
        intro b hb
        have hne : ¬ b.1 = keyword := fun he => hany (List.any_eq_true.mpr ⟨b, hb, decide_eq_true he⟩)
        simpa [hk] using Ne.symm hne
      rw [hnone, if_pos hk, Option.none_or]
    · rw [if_neg hk, if_neg hk, Option.or_none]

theorem lookup_bindAll (i : ℕ) (k : Str) : ∀ (keywords : List Str) (bindings : List (Str × ℕ)),
    (keywords.foldl (fun bindings keyword => bind bindings keyword i) bindings).lookup k =
      if k ∈ keywords then some i else bindings.lookup k
  | [], bindings => by simp
  | keyword :: keywords, bindings => by
    rw [List.foldl_cons, lookup_bindAll i k keywords, lookup_bind]
    by_cases hk : k ∈ keywords
    · simp [hk]
    · simp [hk]

theorem queueOf_add_self (s : PromptScript) (keyword : Str) (answers : List Bytes) :
    ((s.add keyword answers).queueOf keyword).isSome = true := by
  unfold add
  split
  · next i hi =>
    change (s.queueOf keyword).isSome = true
    rw [hi]
    rfl
  · change ((s.bindings ++ [(keyword, s.queues.length)]).lookup keyword).isSome = true
    rw [List.lookup_append, Json.lookup_cons_eq, if_pos rfl]
    cases s.bindings.lookup keyword <;> rfl

theorem answersOf_acceptUnder {s : PromptScript} {first : Str} (h : (s.queueOf first).isSome = true) (rest : List Str)
    (k : Str) : (s.acceptUnder first rest).answersOf k = s.answersOf (if k ∈ rest then first else k) := by
  unfold acceptUnder
  split
  · next hnone =>
    rw [hnone] at h
    cases h
  · next i hi =>
    rw [answersOf, answersOf]
    change (((rest.foldl (fun bindings keyword => bind bindings keyword i) s.bindings).lookup k).bind
      fun j => s.queues[j]?).getD [] = _
    rw [lookup_bindAll]
    by_cases hk : k ∈ rest
    · rw [if_pos hk, if_pos hk, hi]
    · rw [if_neg hk, if_neg hk]
      rfl

/-- `share` queues the answers for the first keyword, as `add` does, and gives
its list to the others. -/
theorem answersOf_share (s : PromptScript) (first : Str) (rest : List Str) (answers : List Bytes) (k : Str) :
    (s.share (first :: rest) answers).answersOf k =
      (s.add first answers).answersOf (if k ∈ rest then first else k) :=
  answersOf_acceptUnder (queueOf_add_self s first answers) rest k

/-! ### What is left for a keyword -/

theorem queueOf_take (s : PromptScript) (keyword keyword' : Str) :
    (s.take keyword).2.queueOf keyword' = s.queueOf keyword' := by
  unfold take
  split
  · rfl
  · split <;> rfl

/-- Nothing is taken where there is nothing left. -/
theorem take_of_nil {s : PromptScript} {keyword : Str} (h : s.answersOf keyword = []) : s.take keyword = (none, s) := by
  unfold take
  cases hq : s.queueOf keyword with
  | none => rfl
  | some i =>
    rw [answersOf, hq, Option.bind_some] at h
    dsimp only
    rw [h]

/-- The first answer that is left is taken, from the list that the keyword has. -/
theorem take_of_cons {s : PromptScript} {keyword : Str} {answer : Bytes} {answers : List Bytes}
    (h : s.answersOf keyword = answer :: answers) : (s.take keyword).1 = some answer ∧
      ∀ keyword', (s.take keyword).2.answersOf keyword' =
        if s.queueOf keyword' = s.queueOf keyword then answers else s.answersOf keyword' := by
  unfold answersOf at h
  cases hq : s.queueOf keyword with
  | none =>
    rw [hq] at h
    cases h
  | some i =>
    rw [hq, Option.bind_some] at h
    have ht : s.take keyword =
        (some answer, { s with
          queues := s.queues.set i answers
          bound := fun b hb => by simpa using s.bound b hb }) := by
      unfold take
      rw [hq]
      dsimp only
      rw [h]
    rw [ht]
    refine ⟨rfl, fun keyword' => ?_⟩
    change ((s.queueOf keyword').bind fun j => (s.queues.set i answers)[j]?).getD [] = _
    cases hq' : s.queueOf keyword' with
    | none => simp [answersOf, hq']
    | some j =>
      rw [answersOf, hq', Option.bind_some, Option.bind_some, List.getElem?_set]
      by_cases hij : i = j
      · subst hij
        simp [queueOf_lt hq]
      · have hji : some j ≠ some i := fun he => hij (Option.some.inj he).symm
        rw [if_neg hij, if_neg hji]

theorem take_of_none {s : PromptScript} {k : Str} (h : (s.take k).1 = none) : (s.take k).2 = s := by
  cases ha : s.answersOf k with
  | nil => rw [take_of_nil ha]
  | cons answer answers =>
    rw [(take_of_cons ha).1] at h
    cases h

end PromptScript

namespace Gpg

open Program

/-! ### The responder -/

/-- What happens to the command pipe; a write is for a prompt. -/
inductive PipeEvent
  | write (keyword : Str) (octets : Bytes)
  | close
  deriving DecidableEq

/-- The state of `_answer_prompts`, and what the writes to come do: `some n` is
a write that fails after `n` octets. -/
structure Responder where
  script : PromptScript
  faults : ℕ → Option ℕ
  transcript : Bytes := []
  answering : Bool := true
  unanswered : Option Str := none
  pipe : List PipeEvent := []

/-- `_write_all`, to the command pipe -/
def writeAll (keyword : Str) (octets : Bytes) : Program Responder Exc Unit := fun r =>
  let r' := { r with faults := fun n => r.faults (n + 1) }
  match r.faults 0 with
  | none => .ok () { r' with pipe := r.pipe ++ [.write keyword octets] }
  | some n => .error { cls := .osError, message := [] } { r' with pipe := r.pipe ++ [.write keyword (octets.take n)] }

/-- `script.take(keyword)` -/
def takeAnswer (keyword : Str) : Program Responder Exc (Option Bytes) :=
  modifyGet fun r => ((r.script.take keyword).1, { r with script := (r.script.take keyword).2 })

/-- `os.close(command_fd)`, whose errors are suppressed -/
def closeCommand : Program Responder Exc Unit := modify fun r => { r with pipe := r.pipe ++ [.close] }

/-- One line. -/
def answerLine (line : Bytes) : Program Responder Exc Unit := do
  if (← get).answering then
    match promptKeyword line with
    | none => return
    | some keyword =>
      match ← takeAnswer keyword with
      | none =>
        modify fun r => { r with unanswered := r.unanswered <|> some keyword, answering := false }
        closeCommand
      | some answer => writeAll keyword (answer ++ [lineFeedOctet])

def answerLines : List Bytes → Program Responder Exc Unit
  | [] => return
  | line :: lines => do
    answerLine line
    answerLines lines

/-- The reads, up to the end of the stream or to one that fails. -/
def answerReads : Bytes → List Chunk → Program Responder Exc Unit
  | _, [] => return
  | buffer, c :: reads => do
    modify fun r =>
      if r.transcript.length + c.data.length ≤ statusBufLimit then { r with transcript := r.transcript ++ c.data } else r
    answerLines (completeLines (buffer ++ c.data))
    answerReads (lastLine (buffer ++ c.data)) reads

/-- `_answer_prompts` -/
def answerPrompts (reads : List Chunk) : Program Responder Exc Unit :=
  Program.ensuring
    (Program.catching (answerReads [] reads) fun e => if e.isA [.osError] then return else raise e)
    (do if (← get).answering then closeCommand)

/-- Before the first read. -/
def Responder.start (script : PromptScript) (faults : ℕ → Option ℕ) : Responder where
  script := script
  faults := faults

/-! ### The conversation -/

/-- What has been asked and answered. -/
structure Conversation where
  script : PromptScript
  answers : List (Str × Bytes) := []
  unanswered : Option Str := none

/-- One line of the stream: a prompt takes the next answer of its keyword; one
for which there is none ends the conversation. -/
def Conversation.step (c : Conversation) (line : Bytes) : Conversation :=
  if c.unanswered.isSome then c
  else
    match promptKeyword line with
    | none => c
    | some keyword =>
      match c.script.take keyword with
      | (none, _) => { c with unanswered := some keyword }
      | (some answer, script) => { c with script, answers := c.answers ++ [(keyword, answer)] }

/-- The conversation over some lines. -/
def converse (script : PromptScript) (lines : List Bytes) : Conversation := lines.foldl Conversation.step { script }

/-- The writes of the conversation. -/
def Conversation.writes (c : Conversation) : List PipeEvent :=
  c.answers.map fun (keyword, answer) => .write keyword (answer ++ [lineFeedOctet])

/-- Everything that happens to the pipe up to where the conversation is. -/
def Conversation.events (c : Conversation) : List PipeEvent :=
  c.writes ++ if c.unanswered.isSome then [.close] else []

/-! ### The responder follows the conversation -/

/-- The responder is where the conversation is. -/
structure Follows (faults : ℕ → Option ℕ) (c : Conversation) (r : Responder) : Prop where
  script : r.script = c.script
  answering : r.answering = c.unanswered.isNone
  unanswered : r.unanswered = c.unanswered
  pipe : r.pipe = c.events
  faults : ∀ n, r.faults n = faults (c.answers.length + n)

/-- The last write of the conversation has failed. -/
structure BrokenOff (faults : ℕ → Option ℕ) (c : Conversation) (r : Responder) : Prop where
  answering : r.answering = true
  unanswered : r.unanswered = none
  last : ∃ answers keyword answer n, c.answers = answers ++ [(keyword, answer)] ∧ faults answers.length = some n ∧
    r.pipe = (answers.map fun (keyword, answer) => .write keyword (answer ++ [lineFeedOctet])) ++
      [.write keyword ((answer ++ [lineFeedOctet]).take n)]

theorem step_of_unanswered {c : Conversation} (h : c.unanswered.isSome = true) (line : Bytes) : c.step line = c :=
  if_pos h

theorem meets_answerLine {faults : ℕ → Option ℕ} {c : Conversation} {r : Responder} (h : Follows faults c r)
    (line : Bytes) : (answerLine line).Meets r (fun _ r' => Follows faults (c.step line) r' ∧ r'.transcript = r.transcript)
      fun e r' => e.isA [.osError] = true ∧ BrokenOff faults (c.step line) r' := by
  rw [answerLine, meets_bind]
  change (if r.answering = true then _ else _ : Program Responder Exc Unit).Meets r _ _
  rw [h.answering]
  cases hu : c.unanswered with
  | some keyword =>
    rw [step_of_unanswered (by rw [hu]; rfl)]
    exact ⟨h, rfl⟩
  | none =>
    rw [if_pos (by rfl)]
    unfold Conversation.step
    rw [hu, if_neg (by simp)]
    cases promptKeyword line with
    | none => exact ⟨h, rfl⟩
    | some keyword =>
      dsimp only
      rw [meets_bind]
      change (match (r.script.take keyword).1 with
        | none => _
        | some answer => _ : Program Responder Exc Unit).Meets { r with script := (r.script.take keyword).2 } _ _
      rw [h.script]
      obtain ⟨taken, script, ht⟩ : ∃ taken script, c.script.take keyword = (taken, script) := ⟨_, _, rfl⟩
      rw [ht]
      cases taken with
      | none =>
        have hscript : script = c.script := by
          have hs := @PromptScript.take_of_none c.script keyword (by rw [ht])
          rwa [ht] at hs
        refine ⟨⟨hscript, rfl, ?_, ?_, h.faults⟩, rfl⟩
        · change (r.unanswered <|> some keyword) = some keyword
          rw [h.unanswered, hu]
          rfl
        · change r.pipe ++ [.close] = _
          rw [h.pipe, Conversation.events, hu]
          simp [Conversation.events, Conversation.writes]
      | some answer =>
        have hfault : r.faults 0 = faults c.answers.length := h.faults 0
        have hpipe : r.pipe = c.writes := by
          rw [h.pipe, Conversation.events, hu]
          simp
        unfold Meets writeAll
        simp only [EStateM.run]
        rw [hfault]
        cases hf : faults c.answers.length with
        | none =>
          refine ⟨⟨rfl, ?_, ?_, ?_, ?_⟩, rfl⟩
          · change r.answering = true
            rw [h.answering, hu]
            rfl
          · change r.unanswered = none
            rw [h.unanswered, hu]
          · change r.pipe ++ _ = _
            rw [hpipe]
            simp [Conversation.events, Conversation.writes]
          · intro n
            change r.faults (n + 1) = _
            rw [h.faults, List.length_append, List.length_singleton]
            congr 1
            omega
        | some n =>
          refine ⟨by decide, ?_, ?_, c.answers, keyword, answer, n, rfl, hf, ?_⟩
          · change r.answering = true
            rw [h.answering, hu]
            rfl
          · change r.unanswered = none
            rw [h.unanswered, hu]
          · change r.pipe ++ _ = _
            rw [hpipe, Conversation.writes]

/-- A step only adds to the answers. -/
theorem answers_step (c : Conversation) (line : Bytes) : c.answers <+: (c.step line).answers := by
  unfold Conversation.step
  split
  · exact List.prefix_rfl
  · split
    · exact List.prefix_rfl
    · split
      · exact List.prefix_rfl
      · exact List.prefix_append _ _

theorem answers_foldl : ∀ (lines : List Bytes) (c : Conversation), c.answers <+: (lines.foldl Conversation.step c).answers
  | [], _ => List.prefix_rfl
  | line :: lines, c => (answers_step c line).trans (answers_foldl lines _)

/-- A responder that has broken off, and what the conversation would have been. -/
def BrokenBefore (faults : ℕ → Option ℕ) (c : Conversation) (r : Responder) : Prop :=
  ∃ c' : Conversation, BrokenOff faults c' r ∧ c'.answers <+: c.answers

theorem meets_answerLines {faults : ℕ → Option ℕ} : ∀ {lines : List Bytes} {c : Conversation} {r : Responder},
    Follows faults c r → (answerLines lines).Meets r
      (fun _ r' => Follows faults (lines.foldl Conversation.step c) r' ∧ r'.transcript = r.transcript)
      fun e r' => e.isA [.osError] = true ∧ BrokenBefore faults (lines.foldl Conversation.step c) r'
  | [], c, r, h => ⟨h, rfl⟩
  | line :: lines, c, r, h => by
    rw [answerLines, meets_bind]
    refine (meets_answerLine h line).mono (fun _ r1 h1 => ?_) fun e r1 h1 => ⟨h1.1, _, h1.2, answers_foldl lines _⟩
    exact (meets_answerLines h1.1).mono (fun _ r2 h2 => ⟨h2.1, h2.2.trans h1.2⟩) fun _ _ h => h

/-- The reads make no difference to where the responder is. -/
theorem meets_answerReads {faults : ℕ → Option ℕ} : ∀ {reads : List Chunk} {buffer : Bytes} {c : Conversation}
    {r : Responder}, Follows faults c r → (answerReads buffer reads).Meets r
      (fun _ r' => Follows faults ((promptLines buffer reads).foldl Conversation.step c) r')
      fun e r' => e.isA [.osError] = true ∧
        BrokenBefore faults ((promptLines buffer reads).foldl Conversation.step c) r'
  | [], buffer, c, r, h => h
  | chunk :: reads, buffer, c, r, h => by
    rw [answerReads, meets_bind, promptLines, List.foldl_append]
    have hread : Follows faults c (if r.transcript.length + chunk.data.length ≤ statusBufLimit then
        { r with transcript := r.transcript ++ chunk.data } else r) := by
      split_ifs
      · exact ⟨h.script, h.answering, h.unanswered, h.pipe, h.faults⟩
      · exact h
    change ((answerLines (completeLines (buffer ++ chunk.data))) >>= fun _ => _).Meets _ _ _
    rw [meets_bind]
    refine (meets_answerLines hread).mono (fun _ r1 h1 => ?_) fun e r1 h1 => ⟨h1.1, ?_⟩
    · exact meets_answerReads h1.1
    · obtain ⟨c', hc', hp⟩ := h1.2
      exact ⟨c', hc', hp.trans (answers_foldl _ _)⟩

/-- How a responder ends: with the conversation, or broken off before. -/
def Ended (faults : ℕ → Option ℕ) (c : Conversation) (r : Responder) : Prop :=
  (r.pipe = c.writes ++ [.close] ∧ r.unanswered = c.unanswered ∧ r.script = c.script) ∨
    ∃ r' : Responder, BrokenBefore faults c r' ∧ r.pipe = r'.pipe ++ [.close] ∧ r.unanswered = none

/-- The end of `_answer_prompts`. -/
theorem meets_closeIfAnswering (r : Responder) :
    (do if (← get).answering then closeCommand : Program Responder Exc Unit).Meets r
      (fun _ r' => (r.answering = true → r' = { r with pipe := r.pipe ++ [.close] }) ∧ (r.answering = false → r' = r))
      fun _ _ => False := by
  change (if r.answering = true then closeCommand else pure () : Program Responder Exc Unit).Meets r _ _
  by_cases ha : r.answering = true
  · rw [if_pos ha]
    exact ⟨fun _ => rfl, fun h => absurd (ha.symm.trans h) (by decide)⟩
  · rw [if_neg ha]
    exact ⟨fun h => absurd h ha, fun _ => rfl⟩

theorem meets_answerPrompts (script : PromptScript) (faults : ℕ → Option ℕ) (reads : List Chunk) :
    (answerPrompts reads).Meets (.start script faults)
      (fun _ r' => Ended faults (converse script (completeLines (stream reads))) r') fun _ _ => False := by
  have hstart : Follows faults { script } (.start script faults) :=
    ⟨rfl, rfl, rfl, rfl, fun n => congrArg faults (Nat.zero_add n).symm⟩
  have hlines : promptLines [] reads = completeLines (stream reads) := promptLines_eq reads rfl
  have hreads := @meets_answerReads faults reads [] _ _ hstart
  rw [hlines, ← converse] at hreads
  generalize converse script (completeLines (stream reads)) = c at hreads ⊢
  rw [answerPrompts, meets_ensuring, meets_catching]
  refine hreads.mono (fun _ r1 h1 => ?_) fun e r1 h1 => ?_
  · refine (meets_closeIfAnswering r1).mono (fun _ r2 h2 => .inl ?_) fun _ _ h => h
    have hpipe := h1.pipe
    unfold Conversation.events at hpipe
    cases hu : c.unanswered with
    | none =>
      obtain rfl := h2.1 (by rw [h1.answering, hu]; rfl)
      refine ⟨?_, h1.unanswered.trans hu, h1.script⟩
      change r1.pipe ++ [.close] = _
      rw [hpipe, hu]
      simp
    | some keyword =>
      obtain rfl := h2.2 (by rw [h1.answering, hu]; rfl)
      rw [hu] at hpipe
      exact ⟨hpipe, h1.unanswered.trans hu, h1.script⟩
  · rw [if_pos h1.1, meets_pure]
    obtain ⟨c', hbroken, hprefix⟩ := h1.2
    refine (meets_closeIfAnswering r1).mono (fun _ r2 h2 => .inr ⟨r1, ⟨c', hbroken, hprefix⟩, ?_⟩) fun _ _ h => h
    obtain rfl := h2.1 hbroken.answering
    exact ⟨rfl, hbroken.unanswered⟩

/-! ### What is written -/

/-- The octets that have been written. -/
def written (pipe : List PipeEvent) : Bytes :=
  pipe.flatMap fun
    | .write _ octets => octets
    | .close => []

/-- A step takes from the list of its keyword. -/
theorem answersOf_step {script : PromptScript} {c : Conversation} (hq : ∀ k, c.script.queueOf k = script.queueOf k)
    (line : Bytes) : (∀ k, (c.step line).script.queueOf k = script.queueOf k) ∧
      ∃ new : List (Str × Bytes), (c.step line).answers = c.answers ++ new ∧ ∀ k, c.script.answersOf k =
        ((new.filter fun a => script.queueOf a.1 = script.queueOf k).map Prod.snd) ++ (c.step line).script.answersOf k := by
  unfold Conversation.step
  split
  · exact ⟨hq, [], by simp, fun k => rfl⟩
  · cases promptKeyword line with
    | none => exact ⟨hq, [], by simp, fun k => rfl⟩
    | some keyword =>
      dsimp only
      cases ha : c.script.answersOf keyword with
      | nil =>
        rw [PromptScript.take_of_nil ha]
        exact ⟨hq, [], by simp, fun k => rfl⟩
      | cons answer answers =>
        obtain ⟨htake, hleft⟩ := PromptScript.take_of_cons ha
        have ht : c.script.take keyword = (some answer, (c.script.take keyword).2) := Prod.ext htake rfl
        rw [ht]
        dsimp only
        refine ⟨fun k => by rw [PromptScript.queueOf_take, hq], [(keyword, answer)], rfl, fun k => ?_⟩
        rw [hleft k, hq, hq]
        by_cases hk : script.queueOf k = script.queueOf keyword
        · have hsame : c.script.answersOf k = c.script.answersOf keyword := by
            rw [PromptScript.answersOf, PromptScript.answersOf, hq, hq, hk]
          rw [if_pos hk, hsame, ha]
          simp [hk]
        · have hk' : ¬ script.queueOf keyword = script.queueOf k := fun h => hk h.symm
          rw [if_neg hk]
          simp [hk']

/-- The answers to a keyword and its aliases, in order, and what is left for it
are what there was for it. -/
theorem answersOf_foldl {script : PromptScript} : ∀ (lines : List Bytes) {c : Conversation},
    (∀ k, c.script.queueOf k = script.queueOf k) → ∃ new : List (Str × Bytes),
      (lines.foldl Conversation.step c).answers = c.answers ++ new ∧ ∀ k, c.script.answersOf k =
        ((new.filter fun a => script.queueOf a.1 = script.queueOf k).map Prod.snd) ++
          (lines.foldl Conversation.step c).script.answersOf k
  | [], c, _ => ⟨[], by simp, fun k => rfl⟩
  | line :: lines, c, hq => by
    obtain ⟨hq', new, hnew, hleft⟩ := answersOf_step hq line
    obtain ⟨new', hnew', hleft'⟩ := answersOf_foldl lines hq'
    refine ⟨new ++ new', ?_, fun k => ?_⟩
    · rw [List.foldl_cons, hnew', hnew, List.append_assoc]
    · rw [hleft k, hleft' k, List.filter_append, List.map_append, List.append_assoc, List.foldl_cons]

/-- The prompt that has ended the conversation has no answer left. -/
theorem unanswered_foldl {keyword : Str} : ∀ (lines : List Bytes) {c : Conversation},
    (c.unanswered = some keyword → c.script.answersOf keyword = []) →
      (lines.foldl Conversation.step c).unanswered = some keyword →
        (lines.foldl Conversation.step c).script.answersOf keyword = []
  | [], _, hc, h => hc h
  | line :: lines, c, hc, h => by
    refine unanswered_foldl lines (c := c.step line) ?_ h
    unfold Conversation.step
    split
    · exact hc
    · rename_i hu
      have hnone : c.unanswered = none := by simpa using hu
      cases promptKeyword line with
      | none => exact hc
      | some asked =>
        dsimp only
        cases ha : c.script.answersOf asked with
        | nil =>
          rw [PromptScript.take_of_nil ha]
          intro heq
          obtain rfl : asked = keyword := Option.some.inj heq
          exact ha
        | cons answer answers =>
          have htake : c.script.take asked = (some answer, (c.script.take asked).2) :=
            Prod.ext (PromptScript.take_of_cons ha).1 rfl
          rw [htake]
          intro heq
          cases hnone.symm.trans heq

/-- Every answer was there for the keyword of its prompt. -/
theorem mem_answersOf {script : PromptScript} {new : List (Str × Bytes)} {left : List Bytes} {a : Str × Bytes}
    (h : script.answersOf a.1 =
      ((new.filter fun b => script.queueOf b.1 = script.queueOf a.1).map Prod.snd) ++ left) (ha : a ∈ new) :
    a.2 ∈ script.answersOf a.1 := by
  rw [h]
  refine List.mem_append_left _ (List.mem_map.mpr ⟨a, List.mem_filter.mpr ⟨ha, ?_⟩, rfl⟩)
  simp

theorem close_not_mem_writes (answers : List (Str × Bytes)) :
    PipeEvent.close ∉ answers.map fun a => PipeEvent.write a.1 (a.2 ++ [lineFeedOctet]) := by
  intro h
  obtain ⟨a, -, ha⟩ := List.mem_map.mp h
  cases ha

/-- What a responder that has broken off has written. -/
theorem BrokenBefore.written_prefix {faults : ℕ → Option ℕ} {c : Conversation} {r : Responder}
    (h : BrokenBefore faults c r) : .close ∉ r.pipe ∧ written r.pipe <+: written c.writes := by
  obtain ⟨c', hbroken, rest, hrest⟩ := h
  obtain ⟨answers, keyword, answer, n, hanswers, -, hpipe⟩ := hbroken.last
  rw [hpipe]
  constructor
  · intro hc
    rcases List.mem_append.mp hc with hc | hc
    · exact close_not_mem_writes answers hc
    · simp at hc
  · unfold Conversation.writes
    rw [← hrest, hanswers, List.append_assoc, List.map_append, written, written, List.flatMap_append,
      List.flatMap_append, List.prefix_append_right_inj, List.flatMap_singleton, List.singleton_append, List.map_cons,
      List.flatMap_cons]
    exact (List.take_prefix _ _).trans (List.prefix_append _ _)

/-- **What is written to the command pipe is what the conversation over the
lines says**, whatever the reads: each prompt has the next answer of its
keyword's list, the first one without an answer is reported, and the pipe is
closed after the last answer. Of writes that fail there is a beginning. The
answers to a keyword and its aliases are those that were there for it, and for
the one that is reported there is none left. -/
theorem answerPrompts_conversation (script : PromptScript) (reads : List Chunk) :
    (∃ r, (answerPrompts reads).run (.start script fun _ => none) = .ok () r ∧
      r.pipe = (converse script (completeLines (stream reads))).writes ++ [.close] ∧
      r.unanswered = (converse script (completeLines (stream reads))).unanswered) ∧
    (∀ faults, ∃ r writes, (answerPrompts reads).run (.start script faults) = .ok () r ∧
      r.pipe = writes ++ [.close] ∧ .close ∉ writes ∧
      written writes <+: written (converse script (completeLines (stream reads))).writes) ∧
    (∀ keyword, script.answersOf keyword =
      (((converse script (completeLines (stream reads))).answers.filter fun a =>
          script.queueOf a.1 = script.queueOf keyword).map Prod.snd) ++
        (converse script (completeLines (stream reads))).script.answersOf keyword) ∧
    (∀ a ∈ (converse script (completeLines (stream reads))).answers, a.2 ∈ script.answersOf a.1) ∧
    ∀ keyword, (converse script (completeLines (stream reads))).unanswered = some keyword →
      (converse script (completeLines (stream reads))).script.answersOf keyword = [] := by
  have hrun (faults : ℕ → Option ℕ) : ∃ r, (answerPrompts reads).run (.start script faults) = .ok () r ∧
      Ended faults (converse script (completeLines (stream reads))) r := by
    have h := meets_answerPrompts script faults reads
    unfold Meets at h
    cases hr : (answerPrompts reads).run (.start script faults) with
    | ok u r =>
      rw [hr] at h
      exact ⟨r, rfl, h⟩
    | error e r =>
      rw [hr] at h
      exact h.elim
  obtain ⟨new, hnew, hleft⟩ := @answersOf_foldl script (completeLines (stream reads)) { script } fun _ => rfl
  rw [List.nil_append, ← converse] at hnew
  rw [← converse] at hleft
  refine ⟨?_, fun faults => ?_, ?_, ?_, fun keyword => unanswered_foldl _ nofun⟩
  · obtain ⟨r, hr, ⟨hpipe, hunanswered, -⟩ | ⟨r', ⟨c', hbroken, -⟩, -⟩⟩ := hrun fun _ => none
    · exact ⟨r, hr, hpipe, hunanswered⟩
    · obtain ⟨answers, keyword, answer, n, -, hn, -⟩ := hbroken.last
      cases hn
  · obtain ⟨r, hr, ⟨hpipe, -⟩ | ⟨r', hbroken, hpipe, -⟩⟩ := hrun faults
    · exact ⟨r, _, hr, hpipe, close_not_mem_writes _, List.prefix_rfl⟩
    · exact ⟨r, r'.pipe, hr, hpipe, hbroken.written_prefix⟩
  · rw [hnew]
    exact hleft
  · rw [hnew]
    exact fun a ha => mem_answersOf (hleft a.1) ha

/-- Two keywords with one list, and an answer in it. -/
def sharedScript : PromptScript := PromptScript.empty.share [lit "a", lit "b"] [ascii "1"]

def sharedReads : List Chunk :=
  [{ data := ascii "[GNUPG:] GET_LI", nonempty := by decide, bound := by decide },
    { data := ascii "NE b\n[GNUPG:] GET_LINE a\n[GNUPG:] GET_LINE b\n", nonempty := by decide, bound := by decide }]

/-- The second keyword takes the answer, and the first one has none left. -/
theorem answerPrompts_conversation_shared :
    (∃ r, (answerPrompts sharedReads).run (.start sharedScript fun _ => none) = .ok () r ∧
      r.pipe = [.write (lit "b") (ascii "1\n"), .close] ∧ r.unanswered = some (lit "a")) ∧
    (converse sharedScript (completeLines (stream sharedReads))).script.answersOf (lit "a") = [] := by
  obtain ⟨⟨r, hr, hpipe, hunanswered⟩, -, -, -, hleft⟩ := answerPrompts_conversation sharedScript sharedReads
  refine ⟨⟨r, hr, hpipe.trans (by decide), hunanswered.trans (by decide)⟩, hleft _ (by decide)⟩

end Gpg
end GpgMeister
