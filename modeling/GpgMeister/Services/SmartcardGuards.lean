/-
# Keys on a card are not overwritten unasked

Moving a key onto a card and generating keys on one, without leave to
overwrite.

* `guarded_withoutOverwrite`: no editor is started for a card that shows the
  slot occupied; the question whether existing keys are replaced is never
  answered with yes; and an operation in which GnuPG asked something unexpected
  raises, and records no success.

The parts are the script, which has no such answer (`CardScripts`), the
responder, which writes only what the script has (`exists_of_write_mem`) and
reports what it has no answer for (`unanswered_of_ended`), and the service,
which looks at the card first and at the report last.
-/
import GpgMeister.Services.SmartcardService

namespace GpgMeister

/-! ### The responder -/

namespace Gpg

open Program

/-- What is written for a prompt is the beginning of one of its answers. -/
theorem exists_of_write_mem {faults : ℕ → Option ℕ} {c : Conversation} {r : Responder} (h : Ended faults c r)
    {keyword : Str} {octets : Bytes} (hm : .write keyword octets ∈ r.pipe) :
    ∃ answer, (keyword, answer) ∈ c.answers ∧ octets <+: answer ++ [lineFeedOctet] := by
  have hwrites {answers : List (Str × Bytes)}
      (hm : PipeEvent.write keyword octets ∈ answers.map fun a => PipeEvent.write a.1 (a.2 ++ [lineFeedOctet])) :
      ∃ answer, (keyword, answer) ∈ answers ∧ octets = answer ++ [lineFeedOctet] := by
    obtain ⟨a, ha, he⟩ := List.mem_map.mp hm
    obtain ⟨rfl, rfl⟩ := PipeEvent.write.inj he
    exact ⟨a.2, ha, rfl⟩
  rcases h with ⟨hpipe, -⟩ | ⟨r', ⟨c', hbroken, hle⟩, hpipe, -⟩
  · rw [hpipe] at hm
    rcases List.mem_append.mp hm with hm | hm
    · obtain ⟨answer, ha, rfl⟩ := hwrites hm
      exact ⟨answer, ha, List.prefix_rfl⟩
    · simp at hm
  · obtain ⟨answers, k, answer, n, hanswers, -, hlast⟩ := hbroken.last
    rw [hpipe, hlast] at hm
    simp only [List.mem_append, List.mem_singleton, PipeEvent.write.injEq, reduceCtorEq, or_false] at hm
    rcases hm with hm | ⟨rfl, rfl⟩
    · obtain ⟨answer', ha, rfl⟩ := hwrites hm
      exact ⟨answer', hle.subset (by rw [hanswers]; exact List.mem_append_left _ ha), List.prefix_rfl⟩
    · exact ⟨answer, hle.subset (by rw [hanswers]; simp), List.take_prefix _ _⟩

/-- What is answered was there for the keyword. -/
theorem mem_answersOf_of_converse {script : PromptScript} {lines : List Bytes} {a : Str × Bytes}
    (h : a ∈ (converse script lines).answers) : a.2 ∈ script.answersOf a.1 := by
  obtain ⟨new, hnew, hleft⟩ := @answersOf_foldl script lines { script } fun _ => rfl
  rw [List.nil_append, ← converse] at hnew
  rw [hnew] at h
  exact mem_answersOf (hleft a.1) h

/-- Every answer, and a prompt left unanswered, is for a prompt of its own. -/
theorem asked_foldl : ∀ (lines : List Bytes) (c : Conversation),
    (lines.foldl Conversation.step c).answers.length + (lines.foldl Conversation.step c).unanswered.toList.length ≤
      c.answers.length + c.unanswered.toList.length + (lines.filterMap promptKeyword).length
  | [], c => by simp
  | line :: lines, c => by
    have ih := asked_foldl lines (c.step line)
    have hstep : (c.step line).answers.length + (c.step line).unanswered.toList.length ≤
        c.answers.length + c.unanswered.toList.length + (promptKeyword line).toList.length := by
      unfold Conversation.step
      split_ifs with hu
      · omega
      · cases hk : promptKeyword line with
        | none => simp
        | some keyword =>
          dsimp only
          rcases c.script.take keyword with ⟨_ | answer, script⟩
          · simp [Option.not_isSome_iff_eq_none.mp hu]
          · simp [Option.not_isSome_iff_eq_none.mp hu]
    rw [List.foldl_cons]
    cases hk : promptKeyword line with
    | none =>
      rw [hk] at hstep
      simp only [Option.toList_none, List.length_nil] at hstep
      rw [List.filterMap_cons_none hk]
      omega
    | some keyword =>
      rw [hk] at hstep
      simp only [Option.toList_some, List.length_singleton] at hstep
      rw [List.filterMap_cons_some hk, List.length_cons]
      omega

/-- GnuPG asks no further prompt once a write to its pipe has failed: it waits
for the answer to each of them, and the write fails when it has gone. -/
def EditorRun.Waits (run : EditorRun) : Prop :=
  ∀ i, (run.faults i).isSome = true →
    ((completeLines (stream run.reads)).filterMap promptKeyword).length ≤ i + 1

/-- A prompt without an answer is reported. -/
theorem unanswered_of_ended {run : EditorRun} (hwaits : run.Waits) {script : PromptScript} {r : Responder}
    (h : Ended run.faults (converse script (completeLines (stream run.reads))) r)
    (hu : (converse script (completeLines (stream run.reads))).unanswered.isSome = true) :
    r.unanswered = (converse script (completeLines (stream run.reads))).unanswered := by
  have hasked := asked_foldl (completeLines (stream run.reads)) { script }
  rw [← converse] at hasked
  obtain ⟨prompt, hprompt⟩ := Option.isSome_iff_exists.mp hu
  rcases h with ⟨-, h, -⟩ | ⟨r', ⟨c', hbroken, hle⟩, -⟩
  · exact h
  · -- The write that failed was not the last prompt.
    obtain ⟨answers, keyword, answer, n, hanswers, hfault, -⟩ := hbroken.last
    have hmany := hwaits answers.length (by rw [hfault]; rfl)
    have hlen := hle.length_le
    rw [hanswers] at hlen
    rw [hprompt] at hasked
    simp at hasked hlen
    omega

theorem ended_respond (run : EditorRun) (script : PromptScript) :
    Ended run.faults (converse script (completeLines (stream run.reads))) (GPGService.respond run script) := by
  have h := meets_answerPrompts script run.faults run.reads
  unfold Meets at h
  unfold GPGService.respond after
  cases hr : (answerPrompts run.reads).run (.start script run.faults) with
  | ok u r =>
    rw [hr] at h
    exact h
  | error e r =>
    rw [hr] at h
    exact h.elim

end Gpg

/-- Every editor of GnuPG waits for its answers. -/
def GnuPG.Waits {γ Time : Type} (gpg : GnuPG γ Time) : Prop :=
  ∀ args g run g', gpg.editor args g = (.ok run, g') → run.Waits

/-! ### What an operation may do -/

namespace Call

/-- An editor was asked something that its script has no answer to. -/
def AsksUnexpected : Call → Prop
  | editor _ script reads _ => (Gpg.converse script (Gpg.completeLines (Gpg.stream reads))).unanswered.isSome = true
  | _ => False

/-- The octets `y` were written for the question whether existing keys are
replaced. -/
def AnswersYes : Call → Prop
  | editor _ _ _ pipe => ∃ octets, .write CardScripts.promptReplaceKeys octets ∈ pipe ∧ ascii "y" <:+: octets
  | _ => False

/-- A record of a success. -/
def IsSuccess : Call → Prop
  | emit _ outcome _ => outcome = lit "ok"
  | _ => False

end Call

/-- The calls of an operation that has returned, or has raised: nothing is
answered with yes, and after something unexpected there is no success. -/
structure Cautious (returned : Prop) (calls : List Call) : Prop where
  never_yes : ∀ call ∈ calls, ¬ call.AnswersYes
  unexpected : (∃ call ∈ calls, call.AsksUnexpected) → ¬ returned ∧ ∀ call ∈ calls, ¬ call.IsSuccess

namespace SmartcardService

open Program CardScripts

variable {γ Time α β : Type} (env : Platform γ Time)

/-- In every run the calls are cautious. -/
def CautiousRun (x : Program (World γ Time) Exc α) : Prop :=
  ∀ w, x.Meets w (fun _ w' => ∃ calls, w'.history = w.history ++ calls ∧ Cautious True calls)
    fun _ w' => ∃ calls, w'.history = w.history ++ calls ∧ Cautious False calls

/-- An operation that does not touch an occupied card. -/
structure Guarded (occupied : CardInfo → Prop) (x : Program (World γ Time) Exc Unit) : Prop where
  /-- Where the probe shows it occupied, the operation raises, and neither an
  editor is started nor anything recorded. -/
  refused : ∀ w card w1, (detect env).run w = .ok (some card) w1 → occupied card →
    x.Meets w (fun _ _ => False) fun _ w' => w'.history = w.history
  cautious : CautiousRun x

/-! ### The probe -/

theorem calm_history : Calm (World.history : World γ Time → List Call) where
  audit _ _ := rfl
  faults _ _ := rfl
  random _ _ := rfl
  clock _ _ := rfl
  buffers _ _ := rfl

theorem keeps_cardStatus : Keeps World.history (GPGService.cardStatus env) :=
  (keeps_runGpg env calm_history (fun _ _ => rfl) _ _ _ _).bind fun _ => keeps_ofExcept _

theorem keeps_probe : Keeps World.history (probe env) := by
  apply ((keeps_cardStatus env).attempt _).bind
  intro r
  cases r with
  | error e =>
    dsimp only
    split_ifs
    · exact keeps_pure _
    · exact keeps_pure _
  | ok output =>
    apply (keeps_ofExcept _).bind
    intro card
    cases card with
    | none => exact keeps_pure _
    | some card => exact keeps_pure _

theorem keeps_detect : Keeps World.history (detect env) := (keeps_probe env).map Prod.fst

theorem keeps_requireFreeSlot (slot : CardSlot) (allowOverwrite : Bool) :
    Keeps World.history (requireFreeSlot env slot allowOverwrite) := by
  unfold requireFreeSlot
  split_ifs
  · exact keeps_pure _
  · apply (keeps_detect env).bind
    intro card
    cases card with
    | none => exact keeps_raise _
    | some card =>
      dsimp only
      split_ifs
      · exact keeps_raise _
      · exact keeps_pure _

theorem keeps_requireFreeCard (allowOverwrite : Bool) : Keeps World.history (requireFreeCard env allowOverwrite) := by
  unfold requireFreeCard
  split_ifs
  · exact keeps_pure _
  · apply (keeps_detect env).bind
    intro card
    cases card with
    | none => exact keeps_pure _
    | some card =>
      dsimp only
      split_ifs
      · exact keeps_raise _
      · exact keeps_pure _

/-- An occupied slot is refused right after the probe. -/
theorem requireFreeSlot_of_occupied {slot : CardSlot} {w w1 : World γ Time} {card : CardInfo}
    (hd : (detect env).run w = .ok (some card) w1) (ho : card.slotFingerprint slot ≠ []) :
    ∃ e, (requireFreeSlot env slot false).run w = .error e w1 := by
  unfold requireFreeSlot
  rw [if_neg (by decide), EStateM.run_bind, hd]
  dsimp only
  rw [if_pos ho]
  exact ⟨_, rfl⟩

theorem requireFreeCard_of_occupied {w w1 : World γ Time} {card : CardInfo}
    (hd : (detect env).run w = .ok (some card) w1) (ho : ∃ slot, card.slotFingerprint slot ≠ []) :
    ∃ e, (requireFreeCard env false).run w = .error e w1 := by
  obtain ⟨slot, hslot⟩ := ho
  have hne : card.occupiedSlots ≠ [] := List.ne_nil_of_mem (CardInfo.mem_occupiedSlots.mpr hslot)
  unfold requireFreeCard
  rw [if_neg (by decide), EStateM.run_bind, hd]
  dsimp only
  rw [if_pos hne]
  exact ⟨_, rfl⟩

/-! ### The editor -/

/-- The call of an editor. -/
def session (args : List Str) (script : PromptScript) (run : Gpg.EditorRun) : Call :=
  .editor args script run.reads (GPGService.respond run script).pipe

/-- Neither is a yes, nor the beginning of one. -/
def NoYes (script : PromptScript) : Prop :=
  ∀ answer ∈ script.answersOf promptReplaceKeys, ¬ ascii "y" <:+: answer ++ [Gpg.lineFeedOctet]

theorem session_never_yes {args : List Str} {script : PromptScript} (hscript : NoYes script) (run : Gpg.EditorRun) :
    ¬ (session args script run).AnswersYes := by
  rintro ⟨octets, hmem, hyes⟩
  obtain ⟨answer, ha, hle⟩ := Gpg.exists_of_write_mem (Gpg.ended_respond run script) hmem
  exact hscript answer (Gpg.mem_answersOf_of_converse ha) (hyes.trans hle.isInfix)

theorem unanswered_of_session {args : List Str} {script : PromptScript} {run : Gpg.EditorRun} (hwaits : run.Waits)
    (hu : (session args script run).AsksUnexpected) : (GPGService.respond run script).unanswered.isSome = true := by
  rw [Gpg.unanswered_of_ended hwaits (Gpg.ended_respond run script) hu]
  exact hu

theorem meets_runPromptScript {env : Platform γ Time} (hwaits : env.gpg.Waits) (args : List Str) (script : PromptScript)
    (w : World γ Time) : (GPGService.runPromptScript env args script).Meets w
      (fun r w' => ∃ run : Gpg.EditorRun, run.Waits ∧ w'.history = w.history ++ [session args script run] ∧
        r.1.unansweredPrompt = (GPGService.respond run script).unanswered)
      fun _ w' => w'.history = w.history ∨ ∃ run, w'.history = w.history ++ [session args script run] := by
  unfold GPGService.runPromptScript
  rw [meets_bind]
  refine calm_history.syscall.meets (fun _ w1 h1 => ?_) fun _ w1 h1 => .inl h1
  rw [meets_bind]
  refine calm_history.syscall.meets (fun _ w2 h2 => ?_) fun _ w2 h2 => .inl (h2.trans h1)
  rw [meets_bind]
  unfold Meets GPGService.onGnupg
  simp only [EStateM.run]
  rcases hr : env.gpg.editor args w2.gnupg with ⟨e | run, g⟩
  · exact .inl (h2.trans h1)
  · have hhistory : w2.history ++ [session args script run] = w.history ++ [session args script run] := by rw [h2, h1]
    show Meets (_ >>= fun _ => _) _ _ _
    rw [meets_bind, meets_modify]
    cases run.raised with
    | some e => exact .inr ⟨run, hhistory⟩
    | none => exact ⟨run, hwaits _ _ _ _ hr, hhistory, rfl⟩

/-! ### The records -/

/-- Records with such outcomes. -/
def Records (p : Str → Prop) (calls : List Call) : Prop :=
  ∀ call ∈ calls, ∃ event outcome raised, call = .emit event outcome raised ∧ p outcome

theorem meets_emitBestEffort {p : Str → Prop} (audit : Bool) (event : Str) {outcome : Str} (hp : p outcome)
    (payload : Dict) (w : World γ Time) : (emitBestEffort env audit event outcome payload).Meets w
      (fun _ w' => ∃ calls, w'.history = w.history ++ calls ∧ Records p calls) fun _ _ => False := by
  have hnote (w' : World γ Time) (hw : w'.history = w.history) (raised : Option Exc) :
      ∃ calls, (w'.note (.emit event outcome raised)).history = w.history ++ calls ∧ Records p calls := by
    refine ⟨[.emit event outcome raised], congrArg (· ++ _) hw, fun call hcall => ?_⟩
    exact ⟨event, outcome, raised, List.mem_singleton.mp hcall, hp⟩
  unfold emitBestEffort
  split_ifs
  · rw [meets_catching, emit, meets_recorded]
    have hkeeps := keeps_onPart World.audit (fun audit (w : World γ Time) => { w with audit := audit })
      (fun audit w => calm_history.audit w audit) (AuditSink.emit env.toEnv event outcome payload)
    exact hkeeps.meets (fun _ w' h => hnote w' h none) fun e w' h => hnote w' h (some e)
  · exact ⟨[], (List.append_nil _).symm, fun call h => absurd h (by simp)⟩

theorem meets_finishScript (audit : Bool) (result : GPGService.PromptRun) (leftover : ℕ) (operation event : Str)
    (payload : Dict) (w : World γ Time) : (finishScript env audit result leftover operation event payload).Meets w
      (fun _ w' => ∃ calls, w'.history = w.history ++ calls ∧ Records (fun _ => True) calls)
      fun _ w' => ∃ calls, w'.history = w.history ++ calls ∧ Records (fun _ => True) calls := by
  unfold finishScript
  dsimp only
  split_ifs
  · rw [meets_bind]
    exact (meets_emitBestEffort env audit event trivial _ w).mono (fun _ _ h => h) fun _ _ h => h.elim
  · exact (meets_emitBestEffort env audit event trivial _ w).mono (fun _ _ h => h) fun _ _ h => h.elim

/-! ### The operations -/

theorem Records.not_answersYes {p : Str → Prop} {calls : List Call} (h : Records p calls) {call : Call}
    (hc : call ∈ calls) : ¬ call.AnswersYes := by
  obtain ⟨event, outcome, raised, rfl, -⟩ := h call hc
  exact id

theorem Records.not_asksUnexpected {p : Str → Prop} {calls : List Call} (h : Records p calls) {call : Call}
    (hc : call ∈ calls) : ¬ call.AsksUnexpected := by
  obtain ⟨event, outcome, raised, rfl, -⟩ := h call hc
  exact id

theorem cautious_nil (returned : Prop) : Cautious returned [] where
  never_yes call h := absurd h (by simp)
  unexpected := by
    rintro ⟨call, h, -⟩
    simp at h

/-- An editor that raises, or is reported a failure. -/
theorem cautious_session {args : List Str} {script : PromptScript} (hscript : NoYes script) {run : Gpg.EditorRun}
    {calls : List Call} (hcalls : Records (· ≠ lit "ok") calls) : Cautious False (session args script run :: calls) where
  never_yes call h := by
    rcases List.mem_cons.mp h with rfl | h
    · exact session_never_yes hscript run
    · exact hcalls.not_answersYes h
  unexpected _ := by
    refine ⟨id, fun call h => ?_⟩
    rcases List.mem_cons.mp h with rfl | h
    · exact id
    · obtain ⟨event, outcome, raised, rfl, hne⟩ := hcalls call h
      exact hne

/-- An editor that was asked nothing unexpected. -/
theorem cautious_session_of_expected {returned : Prop} {args : List Str} {script : PromptScript}
    (hscript : NoYes script) {run : Gpg.EditorRun} (hrun : ¬ (session args script run).AsksUnexpected)
    {p : Str → Prop} {calls : List Call} (hcalls : Records p calls) :
    Cautious returned (session args script run :: calls) where
  never_yes call h := by
    rcases List.mem_cons.mp h with rfl | h
    · exact session_never_yes hscript run
    · exact hcalls.not_answersYes h
  unexpected := by
    rintro ⟨call, h, hu⟩
    rcases List.mem_cons.mp h with rfl | h
    · exact absurd hu hrun
    · exact absurd hu (hcalls.not_asksUnexpected h)

theorem cautious_runCardScript {env : Platform γ Time} (hwaits : env.gpg.Waits) (audit : Bool) (args : List Str)
    {script : PromptScript} (hscript : NoYes script) (operation event : Str) (payload : Dict) :
    CautiousRun (runCardScript env audit args script operation event payload) := by
  intro w
  unfold runCardScript
  rw [meets_bind]
  refine (meets_runPromptScript hwaits args script w).mono ?_ ?_
  · rintro ⟨result, left⟩ w1 ⟨run, hrun, hhistory, hreport⟩
    dsimp only at hreport ⊢
    cases hu : result.unansweredPrompt with
    | some prompt =>
      show Meets (_ >>= fun _ => _) _ _ _
      rw [meets_bind]
      refine (meets_emitBestEffort env audit event (p := (· ≠ lit "ok")) (by decide) _ w1).mono ?_ fun _ _ h => h.elim
      rintro - w2 ⟨calls, hcalls, hrecords⟩
      exact ⟨_, by rw [hcalls, hhistory, List.append_assoc]; rfl, cautious_session hscript hrecords⟩
    | none =>
      have hexpected : ¬ (session args script run).AsksUnexpected := by
        intro h
        have hsome := unanswered_of_session hrun h
        rw [← hreport, hu] at hsome
        cases hsome
      refine (meets_finishScript env audit result left.pending operation event payload w1).mono ?_ ?_
      · rintro - w2 ⟨calls, hcalls, hrecords⟩
        exact ⟨_, by rw [hcalls, hhistory, List.append_assoc]; rfl,
          cautious_session_of_expected hscript hexpected hrecords⟩
      · rintro - w2 ⟨calls, hcalls, hrecords⟩
        exact ⟨_, by rw [hcalls, hhistory, List.append_assoc]; rfl,
          cautious_session_of_expected hscript hexpected hrecords⟩
  · rintro - w1 (hhistory | ⟨run, hhistory⟩)
    · exact ⟨[], by rw [hhistory, List.append_nil], cautious_nil False⟩
    · exact ⟨_, hhistory, cautious_session hscript fun call h => absurd h (by simp)⟩

/-- What comes before leaves the history alone. -/
theorem CautiousRun.keeps_bind {x : Program (World γ Time) Exc β} (hx : Keeps World.history x)
    {f : β → Program (World γ Time) Exc α} (hf : ∀ b, CautiousRun (f b)) : CautiousRun (x >>= f) := by
  intro w
  rw [meets_bind]
  refine hx.meets (fun b w1 h => ?_) fun e w1 h => ⟨[], by rw [h, List.append_nil], cautious_nil False⟩
  rw [← h]
  exact hf b w1

theorem cautious_raise (e : Exc) : CautiousRun (raise e : Program (World γ Time) Exc α) :=
  fun _ => ⟨[], (List.append_nil _).symm, cautious_nil False⟩

theorem CautiousRun.ofExcept_bind {r : Except Exc β} {f : β → Program (World γ Time) Exc α}
    (hf : ∀ b, r = .ok b → CautiousRun (f b)) : CautiousRun (Program.ofExcept r >>= f) := by
  cases r with
  | ok b => exact hf b rfl
  | error e => exact cautious_raise e

/-- A computation in front. -/
theorem Guarded.ofExcept_bind {env : Platform γ Time} {occupied : CardInfo → Prop} (r : Except Exc β)
    {f : β → Program (World γ Time) Exc Unit} (hf : ∀ b, Guarded env occupied (f b)) :
    Guarded env occupied (Program.ofExcept r >>= f) := by
  cases r with
  | ok b => exact hf b
  | error e => exact ⟨fun w card w1 hd ho => rfl, cautious_raise e⟩

/-- A check that refuses an occupied card in front. -/
theorem Guarded.of_check {env : Platform γ Time} {occupied : CardInfo → Prop} {check : Program (World γ Time) Exc Unit}
    (hkeeps : Keeps World.history check)
    (hcheck : ∀ w card w1, (detect env).run w = .ok (some card) w1 → occupied card → ∃ e, check.run w = .error e w1)
    {f : Unit → Program (World γ Time) Exc Unit} (hf : ∀ u, CautiousRun (f u)) : Guarded env occupied (check >>= f) where
  refused w card w1 hd ho := by
    obtain ⟨e, he⟩ := hcheck w card w1 hd ho
    rw [meets_bind]
    unfold Meets
    rw [he]
    exact (keeps_detect env).of_run_eq_ok hd
  cautious := .keeps_bind hkeeps hf

theorem noYes_keytocardScript {slot : CardSlot} {keyIndex : ℤ} {keyPassphrase adminPin : Bytes} {script : PromptScript}
    (h : keytocardScript slot keyIndex keyPassphrase adminPin = .ok script) : NoYes script := by
  intro answer ha
  rw [answersOf_keytocardScript h] at ha
  simp at ha

theorem noYes_generateOnCardScript {adminPin userPin : Bytes} {name email expiry : Str} {offCardBackup : Bool}
    {script : PromptScript}
    (h : generateOnCardScript adminPin userPin name email expiry offCardBackup false = .ok script) : NoYes script := by
  intro answer ha
  rw [answersOf_generateOnCardScript h] at ha
  rw [List.mem_singleton.mp ha]
  decide

theorem guarded_moveKeyToCard {env : Platform γ Time} (hwaits : env.gpg.Waits) (audit : Bool) {args : MoveArgs}
    (hargs : args.allowOverwrite = false) :
    Guarded env (fun card => card.slotFingerprint args.slot ≠ []) (moveKeyToCard env audit args) := by
  unfold moveKeyToCard
  rw [hargs]
  refine .ofExcept_bind _ fun fp => ?_
  split_ifs
  · exact ⟨fun w card w1 hd ho => rfl, cautious_raise _⟩
  · refine .of_check (keeps_requireFreeSlot env args.slot false)
      (fun w card w1 => requireFreeSlot_of_occupied env) fun _ => .ofExcept_bind fun script hscript => ?_
    exact cautious_runCardScript hwaits audit _ (noYes_keytocardScript hscript) _ _ _

theorem guarded_generateKeyOnCard {env : Platform γ Time} (hwaits : env.gpg.Waits) (audit : Bool) {args : GenerateArgs}
    (hargs : args.allowOverwrite = false) :
    Guarded env (fun card => ∃ slot, card.slotFingerprint slot ≠ []) (generateKeyOnCard env audit args) := by
  have hlast (cleanName cleanEmail : Str) : Guarded env (fun card => ∃ slot, card.slotFingerprint slot ≠ [])
      (requireFreeCard env false >>= fun _ =>
        Program.ofExcept (generateOnCardScript args.adminPin args.userPin cleanName cleanEmail args.expiry
          args.offCardBackup false) >>= fun script =>
        runCardScript env audit [lit "--card-edit"] script (lit "generating keys on the card")
          (lit "smartcard_key_generated") { items := [], unique := rfl }) := by
    refine .of_check (keeps_requireFreeCard env false)
      (fun w card w1 => requireFreeCard_of_occupied env) fun _ => .ofExcept_bind fun script hscript => ?_
    exact cautious_runCardScript hwaits audit _ (noYes_generateOnCardScript hscript) _ _ _
  unfold generateKeyOnCard
  rw [hargs]
  refine .ofExcept_bind _ fun cleanName => .ofExcept_bind _ fun cleanEmail => ?_
  split_ifs
  · exact .ofExcept_bind _ fun _ => hlast cleanName cleanEmail
  · exact hlast cleanName cleanEmail

/-- **Without leave to overwrite, an occupied card is left alone**: no editor is
started for it, existing keys are never replaced, and an operation in which
GnuPG asked something unexpected raises and records no success. -/
theorem guarded_withoutOverwrite {env : Platform γ Time} (hwaits : env.gpg.Waits) (audit : Bool) :
    (∀ args : MoveArgs, args.allowOverwrite = false →
      Guarded env (fun card => card.slotFingerprint args.slot ≠ []) (moveKeyToCard env audit args)) ∧
    ∀ args : GenerateArgs, args.allowOverwrite = false →
      Guarded env (fun card => ∃ slot, card.slotFingerprint slot ≠ []) (generateKeyOnCard env audit args) :=
  ⟨fun _ => guarded_moveKeyToCard hwaits audit, fun _ => guarded_generateKeyOnCard hwaits audit⟩

/-- A menu, and a question that nobody expects. -/
def unexpectedQuestion : Gpg.Chunk where
  data := ascii "[GNUPG:] GET_LINE keyedit.prompt\n[GNUPG:] GET_BOOL cardedit.genkeys.replace_keys\n"
  nonempty := by decide
  bound := by decide

/-- The editor goes when it has asked. -/
def askingRun : Gpg.EditorRun where
  returncode := 0
  reads := [unexpectedQuestion]
  faults i := if i = 0 then none else some 0

theorem waits_askingRun : askingRun.Waits := by
  intro i hi
  have hasked : ((Gpg.completeLines (Gpg.stream askingRun.reads)).filterMap Gpg.promptKeyword).length = 2 := by
    decide +kernel
  cases i with
  | zero => exact absurd hi (by decide)
  | succ i =>
    rw [hasked]
    omega

/-- GnuPG with an empty card. -/
def askingGnuPG : GnuPG Unit Unit where
  baseCmd := [lit "gpg"]
  pipes _ := (lit "3", lit "4")
  popen _ _ _ g := (.ok { returncode := 0, stdout := ascii "serial:12345678:\nfpr::::\n" }, g)
  listKeys _ g := (.ok [], g)
  editor _ g := (.ok askingRun, g)

theorem waits_askingGnuPG : askingGnuPG.Waits := by
  intro args g run g' h
  obtain rfl := Except.ok.inj (Prod.mk.inj h).1
  exact waits_askingRun

def sampleMove : MoveArgs where
  fingerprint := List.replicate 40 0x41
  slot := .signature
  keyPassphrase := ascii "key pass"
  adminPin := ascii "12345678"

/-- The editor is started, and the question reported. -/
theorem guarded_withoutOverwrite_asking :
    Guarded (samplePlatform askingGnuPG) (fun card => card.slotFingerprint .signature ≠ [])
      (moveKeyToCard (samplePlatform askingGnuPG) true sampleMove) ∧
    ((moveKeyToCard (samplePlatform askingGnuPG) true sampleMove).after (sampleWorld () fun _ => none)).history.length =
      2 :=
  ⟨(guarded_withoutOverwrite waits_askingGnuPG true).1 sampleMove rfl, by decide +kernel⟩

end SmartcardService
end GpgMeister
