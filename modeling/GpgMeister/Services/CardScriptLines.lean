/-
# Answers of one line

An answer with a line feed in it is two lines for GnuPG, and the second one
answers the next prompt. The PINs are checked for octets that end a line
(`_reject_control_characters`), names and email addresses by their patterns;
the passphrase of a key that is moved is not checked, and `$` lets an email
address and an expiry date end with a line feed.

* `sendsLines_iff`: exactly when every answer of an operation on a card is one
  line.
-/
import GpgMeister.Lib.Toml
import GpgMeister.Services.SmartcardGuards
import GpgMeister.Services.ValidationGrammar

namespace GpgMeister

/-- Without an octet that ends a line. -/
def Framed (octets : Bytes) : Prop := ∀ octet ∈ octets, octet ∉ GPGService.framingBytes

/-- A text without a character that ends a line. -/
def FramedText (s : Str) : Prop := ∀ c ∈ s, c.val ≠ 0x00 ∧ c.val ≠ 0x0A ∧ c.val ≠ 0x0D

theorem framedText_of_all {s : Str} (h : s.all (fun c => c.val ≠ 0x00 && c.val ≠ 0x0A && c.val ≠ 0x0D) = true) :
    FramedText s := by
  intro c hc
  have hall := List.all_eq_true.mp h c hc
  simpa [and_assoc] using hall

/-- The encoding of a text. -/
theorem framed_encodeUtf8 {s : Str} {octets : Bytes} (h : encodeUtf8 s = .ok octets) : Framed octets ↔ FramedText s := by
  have he := encodeUtf8_eq_ok h
  have hmem : ∀ b ∈ GPGService.framingBytes, (b ∈ octets ↔ ∃ c ∈ s, c.val = b.toNat) := fun b hb =>
    Utf8.mem_encode_ascii he (by fin_cases hb <;> decide)
  simp only [GPGService.framingBytes, List.forall_mem_cons] at hmem
  obtain ⟨hnul, hlf, hcr, -⟩ := hmem
  have hoctets : Framed octets ↔ 0x00 ∉ octets ∧ 0x0A ∉ octets ∧ 0x0D ∉ octets := by
    unfold Framed GPGService.framingBytes
    constructor
    · intro hall
      exact ⟨fun hm => hall _ hm (by decide), fun hm => hall _ hm (by decide), fun hm => hall _ hm (by decide)⟩
    · rintro ⟨h1, h2, h3⟩ b hb hframing
      simp only [List.mem_cons, List.not_mem_nil, or_false] at hframing
      rcases hframing with rfl | rfl | rfl
      · exact h1 hb
      · exact h2 hb
      · exact h3 hb
  rw [hoctets, hnul, hlf, hcr]
  unfold FramedText
  constructor
  · rintro ⟨h1, h2, h3⟩ c hc
    exact ⟨fun he => h1 ⟨c, hc, he⟩, fun he => h2 ⟨c, hc, he⟩, fun he => h3 ⟨c, hc, he⟩⟩
  · intro hall
    refine ⟨?_, ?_, ?_⟩
    · rintro ⟨c, hc, he⟩
      exact (hall c hc).1 he
    · rintro ⟨c, hc, he⟩
      exact (hall c hc).2.1 he
    · rintro ⟨c, hc, he⟩
      exact (hall c hc).2.2 he

/-! ### Scripts -/

namespace PromptScript

/-- Every answer that is queued is one line. -/
def Framed (s : PromptScript) : Prop := ∀ queue ∈ s.queues, ∀ answer ∈ queue, GpgMeister.Framed answer

theorem framed_empty : empty.Framed := fun queue h => absurd h (by simp [empty])

theorem framed_add {s : PromptScript} {keyword : Str} {answers : List Bytes} :
    (s.add keyword answers).Framed ↔ s.Framed ∧ ∀ answer ∈ answers, GpgMeister.Framed answer := by
  unfold add
  split
  · next i hi =>
    have hlt := queueOf_lt hi
    have hqueues : s.queues = s.queues.take i ++ s.queues[i] :: s.queues.drop (i + 1) := by
      rw [List.getElem_cons_drop, List.take_append_drop]
    unfold Framed
    dsimp only
    rw [List.modify_eq_take_cons_drop hlt, List.forall_mem_append, List.forall_mem_cons, List.forall_mem_append]
    conv_rhs => rw [hqueues, List.forall_mem_append, List.forall_mem_cons]
    tauto
  · unfold Framed
    dsimp only
    rw [List.forall_mem_append, List.forall_mem_singleton]

theorem queues_acceptUnder (s : PromptScript) (first : Str) (keywords : List Str) :
    (s.acceptUnder first keywords).queues = s.queues := by
  unfold acceptUnder
  split <;> rfl

/-- What is left for a keyword is queued. -/
theorem mem_queues_of_mem_answersOf {s : PromptScript} {k : Str} {answer : Bytes} (h : answer ∈ s.answersOf k) :
    ∃ queue ∈ s.queues, answer ∈ queue := by
  unfold answersOf at h
  cases hq : s.queueOf k with
  | none => simp [hq] at h
  | some i =>
    have hlt := queueOf_lt hq
    rw [hq, Option.bind_some, List.getElem?_eq_getElem hlt] at h
    exact ⟨s.queues[i], List.getElem_mem hlt, h⟩

end PromptScript

namespace CardScripts

/-- An answer of one line. -/
def Answer.Framed : Answer → Prop
  | .text s => FramedText s
  | .secret octets => GpgMeister.Framed octets

theorem framed_toBuffer {answer : Answer} {octets : Bytes} (h : toBuffer answer = .ok octets) :
    GpgMeister.Framed octets ↔ answer.Framed := by
  cases answer with
  | text s => exact framed_encodeUtf8 h
  | secret data =>
    obtain rfl := Except.ok.inj h
    exact Iff.rfl

theorem framed_mapM_toBuffer : ∀ {answers : List Answer} {octets : List Bytes}, answers.mapM toBuffer = .ok octets →
    ((∀ o ∈ octets, GpgMeister.Framed o) ↔ ∀ a ∈ answers, a.Framed)
  | [], octets, h => by
    obtain rfl := Except.ok.inj h
    simp
  | a :: answers, octets, h => by
    rw [List.mapM_cons] at h
    obtain ⟨o, ho, h⟩ := bind_eq_ok h
    obtain ⟨os, hos, h⟩ := bind_eq_ok h
    obtain rfl := Except.ok.inj h
    rw [List.forall_mem_cons, List.forall_mem_cons, framed_toBuffer ho, framed_mapM_toBuffer hos]

theorem framed_add {script script' : PromptScript} {keyword : Str} {answers : List Answer}
    (h : add script keyword answers = .ok script') : script'.Framed ↔ script.Framed ∧ ∀ a ∈ answers, a.Framed := by
  unfold add at h
  cases ha : answers.mapM toBuffer with
  | error e =>
    rw [ha] at h
    cases h
  | ok octets =>
    rw [ha] at h
    obtain rfl := Except.ok.inj h
    rw [PromptScript.framed_add, framed_mapM_toBuffer ha]

theorem framed_shareSecrets {script script' : PromptScript} {answers : List Answer}
    (h : shareSecrets script answers = .ok script') : script'.Framed ↔ script.Framed ∧ ∀ a ∈ answers, a.Framed := by
  unfold shareSecrets at h
  cases ha : answers.mapM toBuffer with
  | error e =>
    rw [ha] at h
    cases h
  | ok octets =>
    rw [ha] at h
    obtain rfl := Except.ok.inj h
    show ((script.add secretPrompt octets).acceptUnder secretPrompt secretAliases).Framed ↔ _
    rw [PromptScript.Framed, PromptScript.queues_acceptUnder, ← PromptScript.Framed, PromptScript.framed_add,
      framed_mapM_toBuffer ha]

/-- A PIN that is not rejected. -/
theorem framed_of_rejectControlCharacters {value : Bytes} {what : Str} {u : Unit}
    (h : rejectControlCharacters value what = .ok u) : Framed value := by
  unfold rejectControlCharacters at h
  split_ifs at h with hany
  intro octet hm hframing
  refine hany (List.any_eq_true.mpr ⟨octet, hm, ?_⟩)
  simpa [GPGService.framingBytes] using hframing

/-! ### The scripts -/

theorem framed_changePinScript {pin : CardPin} {current new : Bytes} {script : PromptScript}
    (h : changePinScript pin current new = .ok script) : script.Framed := by
  obtain ⟨u1, hcurrent, h⟩ := bind_eq_ok h
  obtain ⟨u2, hnew, h⟩ := bind_eq_ok h
  obtain ⟨s1, h1, h⟩ := bind_eq_ok h
  obtain ⟨s2, h2, h⟩ := bind_eq_ok h
  have hcur := framed_of_rejectControlCharacters hcurrent
  have hn := framed_of_rejectControlCharacters hnew
  rw [framed_shareSecrets h, framed_add h2, framed_add h1]
  refine ⟨⟨⟨PromptScript.framed_empty, ?_⟩, ?_⟩, ?_⟩
  · have hmenu : FramedText (lit "admin") ∧ FramedText (lit "passwd") ∧ FramedText (lit "quit") :=
      ⟨framedText_of_all (by decide), framedText_of_all (by decide), framedText_of_all (by decide)⟩
    simpa [Answer.Framed] using hmenu
  · have hchoice : FramedText (if pin = .user then lit "1" else lit "3") ∧ FramedText (lit "Q") :=
      ⟨framedText_of_all (by cases pin <;> decide), framedText_of_all (by decide)⟩
    simpa [Answer.Framed] using hchoice
  · simpa [Answer.Framed] using ⟨hcur, hn⟩

theorem framed_unblockPinScript {adminPin newUserPin : Bytes} {script : PromptScript}
    (h : unblockPinScript adminPin newUserPin = .ok script) : script.Framed := by
  obtain ⟨u1, hadmin, h⟩ := bind_eq_ok h
  obtain ⟨u2, hnew, h⟩ := bind_eq_ok h
  obtain ⟨s1, h1, h⟩ := bind_eq_ok h
  obtain ⟨s2, h2, h⟩ := bind_eq_ok h
  have ha := framed_of_rejectControlCharacters hadmin
  have hn := framed_of_rejectControlCharacters hnew
  rw [framed_shareSecrets h, framed_add h2, framed_add h1]
  refine ⟨⟨⟨PromptScript.framed_empty, ?_⟩, ?_⟩, ?_⟩
  · have hmenu : FramedText (lit "admin") ∧ FramedText (lit "passwd") ∧ FramedText (lit "quit") :=
      ⟨framedText_of_all (by decide), framedText_of_all (by decide), framedText_of_all (by decide)⟩
    simpa [Answer.Framed] using hmenu
  · have hchoice : FramedText (lit "2") ∧ FramedText (lit "Q") :=
      ⟨framedText_of_all (by decide), framedText_of_all (by decide)⟩
    simpa [Answer.Framed] using hchoice
  · simpa [Answer.Framed] using ⟨ha, hn⟩

/-- The digits of a number. -/
theorem framedText_decimal (n : ℕ) : FramedText (Json.decimal n) := by
  intro c hc
  have hdigit := Toml.isDigit_of_mem_decimal hc
  rw [Json.isDigit, Bool.and_eq_true, decide_eq_true_eq, decide_eq_true_eq] at hdigit
  refine ⟨?_, ?_, ?_⟩ <;> omega

theorem framed_keyMenu {keyIndex : ℤ} {script : PromptScript} (h : keyMenu keyIndex = .ok script) : script.Framed := by
  unfold keyMenu at h
  split_ifs at h with hpos
  · rw [framed_add h]
    refine ⟨PromptScript.framed_empty, ?_⟩
    have hkey : FramedText (lit "key " ++ Json.intText keyIndex) := by
      have hprefix : FramedText (lit "key ") := framedText_of_all (by decide)
      have htext : Json.intText keyIndex = Json.decimal keyIndex.toNat := by
        obtain ⟨n, rfl⟩ := Int.eq_ofNat_of_zero_le hpos.le
        rfl
      rw [htext]
      intro c hc
      rcases List.mem_append.mp hc with hc | hc
      · exact hprefix c hc
      · exact framedText_decimal _ c hc
    have hrest : FramedText (lit "keytocard") ∧ FramedText (lit "save") :=
      ⟨framedText_of_all (by decide), framedText_of_all (by decide)⟩
    simpa [Answer.Framed] using ⟨hkey, hrest⟩
  · obtain ⟨s1, h1, h⟩ := bind_eq_ok h
    rw [framed_add h, framed_add h1]
    have hmenu : FramedText (lit "keytocard") ∧ FramedText (lit "save") :=
      ⟨framedText_of_all (by decide), framedText_of_all (by decide)⟩
    have hyes : FramedText yes := framedText_of_all (by decide)
    refine ⟨⟨PromptScript.framed_empty, ?_⟩, ?_⟩
    · simpa [Answer.Framed] using hmenu
    · simpa [Answer.Framed] using hyes

/-- The passphrase of the key is not checked. -/
theorem framed_keytocardScript {slot : CardSlot} {keyIndex : ℤ} {keyPassphrase adminPin : Bytes}
    {script : PromptScript} (h : keytocardScript slot keyIndex keyPassphrase adminPin = .ok script) :
    script.Framed ↔ Framed keyPassphrase := by
  obtain ⟨u1, hadmin, h⟩ := bind_eq_ok h
  obtain ⟨menu, hmenu, h⟩ := bind_eq_ok h
  obtain ⟨s1, h1, h⟩ := bind_eq_ok h
  obtain ⟨s2, h2, h⟩ := bind_eq_ok h
  have hm := framed_keyMenu hmenu
  have ha := framed_of_rejectControlCharacters hadmin
  have hslot : FramedText slot.value := framedText_of_all (by cases slot <;> decide)
  have hyes : FramedText yes := framedText_of_all (by decide)
  rw [framed_shareSecrets h, framed_add h2, framed_add h1]
  simp [Answer.Framed, hm, ha, hslot, hyes]

/-- Nor are the name, the email address and the expiry date, here. -/
theorem framed_generateOnCardScript {adminPin userPin : Bytes} {name email expiry : Str}
    {offCardBackup replaceExisting : Bool} {script : PromptScript}
    (h : generateOnCardScript adminPin userPin name email expiry offCardBackup replaceExisting = .ok script) :
    script.Framed ↔ FramedText name ∧ FramedText email ∧ FramedText expiry := by
  obtain ⟨u1, hadmin, h⟩ := bind_eq_ok h
  obtain ⟨u2, huser, h⟩ := bind_eq_ok h
  obtain ⟨s1, h1, h⟩ := bind_eq_ok h
  obtain ⟨s2, h2, h⟩ := bind_eq_ok h
  obtain ⟨s3, h3, h⟩ := bind_eq_ok h
  obtain ⟨s4, h4, h⟩ := bind_eq_ok h
  obtain ⟨s5, h5, h⟩ := bind_eq_ok h
  obtain ⟨s6, h6, h⟩ := bind_eq_ok h
  obtain ⟨s7, h7, h⟩ := bind_eq_ok h
  obtain ⟨s8, h8, h⟩ := bind_eq_ok h
  have ha := framed_of_rejectControlCharacters hadmin
  have hu := framed_of_rejectControlCharacters huser
  have hmenu : FramedText (lit "admin") ∧ FramedText (lit "generate") ∧ FramedText (lit "quit") :=
    ⟨framedText_of_all (by decide), framedText_of_all (by decide), framedText_of_all (by decide)⟩
  have hchoice (b : Bool) : FramedText (if b = true then yes else no) := framedText_of_all (by cases b <;> decide)
  have hlast : FramedText [] ∧ FramedText (lit "O") := ⟨framedText_of_all rfl, framedText_of_all (by decide)⟩
  rw [framed_shareSecrets h, framed_add h8, framed_add h7, framed_add h6, framed_add h5, framed_add h4, framed_add h3,
    framed_add h2, framed_add h1]
  simp only [Answer.Framed, List.forall_mem_cons, List.not_mem_nil, false_implies, implies_true, and_true, ha, hu, hmenu,
    hchoice, hlast, PromptScript.framed_empty, true_and]
  tauto

end CardScripts

/-! ### Sessions -/

namespace Call

/-- If it is an editor, it is given this script, and a prompt that is answered
is sent one of the answers for it and a line feed, or the beginning of that. -/
def Given (built : Except Exc PromptScript) : Call → Prop
  | editor _ script _ pipe => built = .ok script ∧ ∀ keyword octets, .write keyword octets ∈ pipe →
      ∃ answer ∈ script.answersOf keyword, octets <+: answer ++ [Gpg.lineFeedOctet]
  | _ => True

/-- If it is an editor, each prompt that is answered is sent one line, or the
beginning of one. -/
def SendsLines : Call → Prop
  | editor _ _ _ pipe => ∀ keyword octets, .write keyword octets ∈ pipe →
      ∃ line, Framed line ∧ octets <+: line ++ [Gpg.lineFeedOctet]
  | _ => True

theorem Given.sendsLines {built : Except Exc PromptScript} (h : ∀ script, built = .ok script → script.Framed) {call : Call}
    (hcall : call.Given built) : call.SendsLines := by
  cases call with
  | editor args script reads pipe =>
    intro keyword octets hm
    obtain ⟨answer, ha, hle⟩ := hcall.2 keyword octets hm
    obtain ⟨queue, hqueue, ha⟩ := PromptScript.mem_queues_of_mem_answersOf ha
    exact ⟨answer, h script hcall.1 queue hqueue answer ha, hle⟩
  | _ => trivial

end Call

/-! ### The operations -/

namespace Validation

theorem Plain.framed {s : Str} (h : Plain s) : FramedText s := by
  intro c hc
  have hcontrol := h c hc
  rw [isPlain, Bool.and_eq_true, Bool.and_eq_true, isControl] at hcontrol
  simp only [Bool.not_eq_true', Bool.or_eq_false_iff, decide_eq_false_iff_not] at hcontrol
  omega

theorem framed_of_validateUserName {s v : Str} (h : validateUserName s = .ok v) : FramedText v :=
  (plain_of_mem_userNamePattern (of_validateUserName_eq_ok h).1).framed

/-- An email address is one line if it does not end with a line feed. -/
theorem framed_of_validateEmail {repr : Str → Str} {s v : Str} (h : validateEmail repr s = .ok v) :
    FramedText v ↔ s.getLast? ≠ some lineFeed := by
  obtain ⟨hmatch, rfl⟩ := validateEmail_eq_ok.mp h
  constructor
  · intro hframed hlast
    exact absurd rfl (hframed lineFeed (List.mem_of_getLast? hlast)).2.1
  · intro hlast
    rcases hmatch with hmem | ⟨t, -, he⟩
    · exact (plain_of_mem_emailPattern hmem).framed
    · rw [he, List.getLast?_concat] at hlast
      exact absurd rfl hlast

end Validation

namespace SmartcardService

open CardScripts Program

variable {γ Time : Type}

/-- An operation on a card, with its arguments. -/
inductive CardOperation
  | changePin (pin : CardPin) (current new : Bytes)
  | unblockUserPin (adminPin newUserPin : Bytes)
  | moveKeyToCard (args : MoveArgs)
  | generateKeyOnCard (args : GenerateArgs)

namespace CardOperation

variable (env : Platform γ Time)

def run (audit : Bool) : CardOperation → Program (World γ Time) Exc Unit
  | .changePin pin current new => SmartcardService.changePin env audit pin current new
  | .unblockUserPin adminPin newUserPin => SmartcardService.unblockUserPin env audit adminPin newUserPin
  | .moveKeyToCard args => SmartcardService.moveKeyToCard env audit args
  | .generateKeyOnCard args => SmartcardService.generateKeyOnCard env audit args

/-- The script that is built, if the arguments are accepted. -/
def script : CardOperation → Except Exc PromptScript
  | .changePin pin current new => changePinScript pin current new
  | .unblockUserPin adminPin newUserPin => unblockPinScript adminPin newUserPin
  | .moveKeyToCard args => do
    let _ ← GPGService.validateFingerprint args.fingerprint
    if args.keyIndex < 0 then .error (cardError (lit "invalid subkey selection"))
    keytocardScript args.slot args.keyIndex args.keyPassphrase args.adminPin
  | .generateKeyOnCard args => do
    let cleanName ← Validation.validateUserName args.name
    let cleanEmail ← Validation.validateEmail env.repr args.email
    if args.expiry ≠ lit "0" then
      let _ ← Validation.validateExpiry env.isoDate env.repr args.expiry
    generateOnCardScript args.adminPin args.userPin cleanName cleanEmail args.expiry args.offCardBackup
      args.allowOverwrite

/-- The arguments that are not checked for the end of a line have none. -/
def OneLine : CardOperation → Prop
  | .changePin _ _ _ => True
  | .unblockUserPin _ _ => True
  | .moveKeyToCard args => Framed args.keyPassphrase
  | .generateKeyOnCard args => args.email.getLast? ≠ some lineFeed ∧ FramedText args.expiry

theorem framed_iff {op : CardOperation} {built : PromptScript} (h : op.script env = .ok built) :
    built.Framed ↔ op.OneLine := by
  cases op with
  | changePin pin current new => exact iff_of_true (framed_changePinScript h) trivial
  | unblockUserPin adminPin newUserPin => exact iff_of_true (framed_unblockPinScript h) trivial
  | moveKeyToCard args =>
    obtain ⟨fp, -, h⟩ := bind_eq_ok h
    split_ifs at h
    · cases h
    · exact framed_keytocardScript h
  | generateKeyOnCard args =>
    obtain ⟨cleanName, hname, h⟩ := bind_eq_ok h
    obtain ⟨cleanEmail, hemail, h⟩ := bind_eq_ok h
    have hbuilt : generateOnCardScript args.adminPin args.userPin cleanName cleanEmail args.expiry args.offCardBackup
        args.allowOverwrite = .ok built := by
      split_ifs at h
      · obtain ⟨u, -, h⟩ := bind_eq_ok h
        exact h
      · exact h
    rw [framed_generateOnCardScript hbuilt, Validation.framed_of_validateEmail hemail, OneLine]
    exact and_iff_right (Validation.framed_of_validateUserName hname)

end CardOperation

/-! ### The editors -/

theorem given_session (args : List Str) (script : PromptScript) (run : Gpg.EditorRun) :
    (session args script run).Given (.ok script) := by
  refine ⟨rfl, fun keyword octets hm => ?_⟩
  obtain ⟨answer, ha, hle⟩ := Gpg.exists_of_write_mem (Gpg.ended_respond run script) hm
  exact ⟨answer, Gpg.mem_answersOf_of_converse ha, hle⟩

/-- At most an editor and a record, the editor with this script. -/
abbrev Runs (built : Except Exc PromptScript) (n : ℕ) (x : Program (World γ Time) Exc Unit) : Prop :=
  Adds World.history (Call.Given built) n x

variable {α : Type}

theorem adds_recorded {p : Call → Prop} {x : Program (World γ Time) Exc α} (hx : Keeps World.history x)
    {call : Option Exc → Call} (hp : ∀ raised, p (call raised)) : Adds World.history p 1 (recorded call x) := by
  have hnote (w w' : World γ Time) (hw : w'.history = w.history) (raised : Option Exc) :
      ∃ new, (w'.note (call raised)).history = w.history ++ new ∧ new.length ≤ 1 ∧ ∀ c ∈ new, p c :=
    ⟨[call raised], congrArg (· ++ _) hw, le_rfl, List.forall_mem_singleton.mpr (hp raised)⟩
  intro w
  unfold after recorded
  cases hr : x.run w with
  | ok a w' =>
    simp only [EStateM.run] at hr ⊢
    rw [hr]
    exact hnote w w' (hx.of_run_eq_ok hr) none
  | error e w' =>
    simp only [EStateM.run] at hr ⊢
    rw [hr]
    exact hnote w w' (hx.of_run_eq_error hr) (some e)

variable (env : Platform γ Time)

theorem runs_emitBestEffort (built : Except Exc PromptScript) (audit : Bool) (event outcome : Str) (payload : Dict) :
    Runs built 1 (emitBestEffort env audit event outcome payload) := by
  unfold emitBestEffort
  split_ifs
  · have hkeeps := keeps_onPart World.audit (fun audit (w : World γ Time) => { w with audit := audit })
      (fun audit w => calm_history.audit w audit) (AuditSink.emit env.toEnv event outcome payload)
    exact (adds_recorded hkeeps fun _ => trivial).catching (n := 0) fun _ => .of_keeps (keeps_pure _)
  · exact (Adds.of_keeps (keeps_pure _)).mono (Nat.zero_le 1)

theorem adds_note {p : Call → Prop} {call : Call} (hp : p call) :
    Adds World.history p 1 (modify fun w => w.note call : Program (World γ Time) Exc Unit) := fun _ =>
  ⟨[call], rfl, le_rfl, List.forall_mem_singleton.mpr hp⟩

theorem adds_runPromptScript (args : List Str) (script : PromptScript) :
    Adds World.history (Call.Given (.ok script)) 1 (GPGService.runPromptScript env args script) := by
  have hsyscall : Adds World.history (Call.Given (.ok script)) 0 (syscall : Program (World γ Time) Exc Unit) :=
    .of_keeps calm_history.syscall
  have heditor : Adds World.history (Call.Given (.ok script)) 0
      (GPGService.onGnupg (env.gpg.editor args) : Program (World γ Time) Exc Gpg.EditorRun) :=
    .of_keeps (keeps_onGnupg (fun _ _ => rfl) _)
  unfold GPGService.runPromptScript
  refine (hsyscall.bind fun _ => hsyscall.bind fun _ => heditor.bind fun run =>
    (adds_note (given_session args script run)).bind (n := 0) fun _ => ?_).mono (by omega)
  apply Adds.of_keeps
  cases run.raised with
  | some e => exact keeps_raise _
  | none => exact keeps_pure _

variable {env}

theorem runs_finishScript (built : Except Exc PromptScript) (audit : Bool) (result : GPGService.PromptRun) (leftover : ℕ)
    (operation event : Str) (payload : Dict) :
    Runs built 1 (finishScript env audit result leftover operation event payload) := by
  unfold finishScript
  dsimp only
  split_ifs
  · exact (runs_emitBestEffort env built audit event _ _).bind (n := 0) fun _ => .of_keeps (keeps_raise _)
  · exact runs_emitBestEffort env built audit event _ _

theorem runs_runCardScript (audit : Bool) (args : List Str) (script : PromptScript) (operation event : Str)
    (payload : Dict) : Runs (.ok script) 2 (runCardScript env audit args script operation event payload) := by
  unfold runCardScript
  refine (adds_runPromptScript env args script).bind (n := 1) ?_
  rintro ⟨result, left⟩
  dsimp only
  cases result.unansweredPrompt with
  | some prompt => exact (runs_emitBestEffort env _ audit event _ _).bind (n := 0) fun _ => .of_keeps (keeps_raise _)
  | none => exact runs_finishScript _ audit result left.pending operation event payload

theorem Runs.ofExcept_bind {β : Type} {built : Except Exc PromptScript} {n : ℕ} {r : Except Exc β}
    {f : β → Program (World γ Time) Exc Unit} (hf : ∀ b, r = .ok b → Runs built n (f b)) :
    Runs built n (Program.ofExcept r >>= f) := by
  cases r with
  | ok b => exact hf b rfl
  | error e => exact (Adds.of_keeps (keeps_raise e)).mono (Nat.zero_le n)

theorem Runs.keeps_bind {β : Type} {built : Except Exc PromptScript} {n : ℕ} {x : Program (World γ Time) Exc β}
    (hx : Keeps World.history x) {f : β → Program (World γ Time) Exc Unit} (hf : ∀ b, Runs built n (f b)) :
    Runs built n (x >>= f) :=
  ((Adds.of_keeps hx).bind hf).mono (by omega)

theorem runs_changePin (audit : Bool) (pin : CardPin) (current new : Bytes) :
    Runs (changePinScript pin current new) 2 (changePin env audit pin current new) := by
  refine .ofExcept_bind fun script hscript => ?_
  rw [hscript]
  exact runs_runCardScript audit _ script _ _ _

theorem runs_unblockUserPin (audit : Bool) (adminPin newUserPin : Bytes) :
    Runs (unblockPinScript adminPin newUserPin) 2 (unblockUserPin env audit adminPin newUserPin) := by
  refine .ofExcept_bind fun script hscript => ?_
  rw [hscript]
  exact runs_runCardScript audit _ script _ _ _

theorem runs_moveKeyToCard (audit : Bool) (args : MoveArgs) :
    Runs (CardOperation.script env (.moveKeyToCard args)) 2 (moveKeyToCard env audit args) := by
  refine .ofExcept_bind fun fp hfp => ?_
  split_ifs with hindex
  · exact (Adds.of_keeps (keeps_raise _)).mono (Nat.zero_le 2)
  · refine .keeps_bind (keeps_requireFreeSlot env _ _) fun _ => .ofExcept_bind fun script hscript => ?_
    have hbuilt : CardOperation.script env (.moveKeyToCard args) = .ok script := by
      rw [CardOperation.script, hfp, ← hscript]
      show (if args.keyIndex < 0 then _ else _) = _
      rw [if_neg hindex]
    rw [hbuilt]
    exact runs_runCardScript audit _ script _ _ _

theorem runs_generateKeyOnCard (audit : Bool) (args : GenerateArgs) :
    Runs (CardOperation.script env (.generateKeyOnCard args)) 2 (generateKeyOnCard env audit args) := by
  refine .ofExcept_bind fun cleanName hname => .ofExcept_bind fun cleanEmail hemail => ?_
  have hlast (h : ∀ script, generateOnCardScript args.adminPin args.userPin cleanName cleanEmail args.expiry
      args.offCardBackup args.allowOverwrite = .ok script →
      CardOperation.script env (.generateKeyOnCard args) = .ok script) :
      Runs (CardOperation.script env (.generateKeyOnCard args)) 2 (do
        requireFreeCard env args.allowOverwrite
        let script ← Program.ofExcept
          (generateOnCardScript args.adminPin args.userPin cleanName cleanEmail args.expiry args.offCardBackup
            args.allowOverwrite)
        runCardScript env audit [lit "--card-edit"] script (lit "generating keys on the card")
          (lit "smartcard_key_generated") { items := [], unique := rfl }) := by
    refine .keeps_bind (keeps_requireFreeCard env _) fun _ => .ofExcept_bind fun script hscript => ?_
    rw [h script hscript]
    exact runs_runCardScript audit _ script _ _ _
  split_ifs with hexpiry
  · refine .ofExcept_bind fun u hu => hlast fun script hscript => ?_
    rw [CardOperation.script, hname]
    show (Validation.validateEmail env.repr args.email >>= fun cleanEmail => _) = _
    rw [hemail]
    show (if args.expiry ≠ lit "0" then _ else _) = _
    rw [if_pos hexpiry, hu]
    exact hscript
  · refine hlast fun script hscript => ?_
    rw [CardOperation.script, hname]
    show (Validation.validateEmail env.repr args.email >>= fun cleanEmail => _) = _
    rw [hemail]
    show (if args.expiry ≠ lit "0" then _ else _) = _
    rw [if_neg hexpiry]
    exact hscript

theorem runs_run (audit : Bool) : ∀ op : CardOperation, Runs (op.script env) 2 (op.run env audit)
  | .changePin pin current new => runs_changePin audit pin current new
  | .unblockUserPin adminPin newUserPin => runs_unblockUserPin audit adminPin newUserPin
  | .moveKeyToCard args => runs_moveKeyToCard audit args
  | .generateKeyOnCard args => runs_generateKeyOnCard audit args

variable (env)

/-- Every answer that the script has is one line, the editor is given this
script, and each prompt that is answered is sent one line. -/
structure SendsLines (op : CardOperation) : Prop where
  framed : ∀ built, op.script env = .ok built → built.Framed
  given : ∀ audit, Adds World.history (Call.Given (op.script env)) 2 (op.run env audit)
  sent : ∀ audit, Adds World.history Call.SendsLines 2 (op.run env audit)

/-- **An operation sends a line for each prompt** exactly when, where it builds
a script, the arguments that are not checked do not end a line: the passphrase
of the key that is moved, the end of an email address and the expiry date. -/
theorem sendsLines_iff (op : CardOperation) :
    SendsLines env op ↔ ∀ built, op.script env = .ok built → op.OneLine := by
  constructor
  · intro h built hbuilt
    exact (op.framed_iff env hbuilt).mp (h.framed built hbuilt)
  · intro h
    have hframed : ∀ built, op.script env = .ok built → built.Framed := fun built hbuilt =>
      (op.framed_iff env hbuilt).mpr (h built hbuilt)
    refine ⟨hframed, fun audit => runs_run audit op, fun audit w => ?_⟩
    obtain ⟨new, hnew, hlen, hgiven⟩ := runs_run audit op w
    exact ⟨new, hnew, hlen, fun call hcall => (hgiven call hcall).sendsLines hframed⟩

/-- A passphrase of two lines -/
def brokenMove : MoveArgs where
  fingerprint := List.replicate 40 0x41
  slot := .signature
  keyPassphrase := ascii "key\npass"
  adminPin := ascii "12345678"

/-- An email address with a line feed after it -/
def brokenGenerate : GenerateArgs where
  adminPin := ascii "12345678"
  userPin := ascii "123456"
  name := lit "Ann"
  email := lit "a@b.de\n"

theorem not_sendsLines :
    ¬ SendsLines (samplePlatform askingGnuPG) (.moveKeyToCard brokenMove) ∧
      ¬ SendsLines (samplePlatform askingGnuPG) (.generateKeyOnCard brokenGenerate) := by
  refine ⟨fun h => ?_, fun h => ?_⟩
  · obtain ⟨built, hbuilt⟩ : ∃ built, CardOperation.script (samplePlatform askingGnuPG) (.moveKeyToCard brokenMove) =
        .ok built := ⟨_, rfl⟩
    have hframed := (CardOperation.framed_iff _ hbuilt).mp (h.framed built hbuilt)
    exact hframed 0x0A (by decide) (by decide)
  · obtain ⟨built, hbuilt⟩ : ∃ built, CardOperation.script (samplePlatform askingGnuPG)
        (.generateKeyOnCard brokenGenerate) = .ok built := ⟨_, rfl⟩
    have hline := (CardOperation.framed_iff _ hbuilt).mp (h.framed built hbuilt)
    exact hline.1 (by decide)

end SmartcardService
end GpgMeister
