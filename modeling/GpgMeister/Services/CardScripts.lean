/-
# Scripts for the editors of GnuPG

`services/card_scripts.py`: the answers that are queued for `--card-edit` and
`--edit-key`, and what the status records say about a card operation.

* `answersOf_generateOnCardScript`, `answersOf_keytocardScript`: what is
  queued for the question whether existing keys are replaced.
-/
import GpgMeister.Lib.MapM
import GpgMeister.World

namespace GpgMeister

namespace PromptScript

/-! ### Lists of their own -/

/-- No two keywords share a list. -/
def Separate (s : PromptScript) : Prop :=
  ∀ k k' i, s.queueOf k = some i → s.queueOf k' = some i → k = k'

theorem separate_empty : Separate empty := fun k k' i h => by
  simp [queueOf, empty] at h

theorem queueOf_add (s : PromptScript) (keyword : Str) (answers : List Bytes) (k : Str) :
    (s.add keyword answers).queueOf k =
      (s.queueOf k).or (if k = keyword then some s.queues.length else none) := by
  unfold add
  split
  · next i hi =>
    change s.queueOf k = _
    by_cases hk : k = keyword
    · rw [hk, hi, Option.some_or]
    · rw [if_neg hk, Option.or_none]
  · change (s.bindings ++ [(keyword, s.queues.length)]).lookup k = _
    rw [List.lookup_append, Json.lookup_cons_eq]
    rfl

theorem Separate.add {s : PromptScript} (h : Separate s) (keyword : Str) (answers : List Bytes) :
    Separate (s.add keyword answers) := by
  intro k k' i hk hk'
  rw [queueOf_add] at hk hk'
  -- A new list is none that a keyword has.
  have hnew {j : Str} (hj : (s.queueOf j).or (if j = keyword then some s.queues.length else none) = some i) :
      s.queueOf j = some i ∨ j = keyword ∧ i = s.queues.length := by
    rcases Option.or_eq_some_iff.mp hj with hj | ⟨-, hj⟩
    · exact .inl hj
    · split_ifs at hj with he
      exact .inr ⟨he, (Option.some.inj hj).symm⟩
  rcases hnew hk with hold | ⟨he, hi⟩
  · rcases hnew hk' with hold' | ⟨-, hi'⟩
    · exact h k k' i hold hold'
    · exact absurd (queueOf_lt hold) (by omega)
  · rcases hnew hk' with hold' | ⟨he', -⟩
    · exact absurd (queueOf_lt hold') (by omega)
    · rw [he, he']

/-- Without aliases `add` queues the answers for the one keyword. -/
theorem answersOf_add_of_separate {s : PromptScript} (h : Separate s) (keyword : Str) (answers : List Bytes) (k : Str) :
    (s.add keyword answers).answersOf k = if k = keyword then s.answersOf k ++ answers else s.answersOf k := by
  rw [answersOf_add]
  have halias : s.Alias k keyword → k = keyword := by
    rintro ⟨hsome, he⟩
    obtain ⟨i, hi⟩ := Option.isSome_iff_exists.mp hsome
    exact h k keyword i hi (he ▸ hi)
  by_cases hk : k = keyword
  · rw [if_pos (.inl hk), if_pos hk]
  · rw [if_neg hk, if_neg]
    rintro (he | ha)
    · exact hk he
    · exact hk (halias ha)

end PromptScript

namespace CardScripts

/-! ### Prompts -/

def promptCardMenu : Str := lit "cardedit.prompt"
def promptKeyMenu : Str := lit "keyedit.prompt"
def promptPinMenu : Str := lit "cardedit.change_pin.menu"
def promptSlot : Str := lit "cardedit.genkeys.storekeytype"
def promptReplaceKeys : Str := lit "cardedit.genkeys.replace_keys"
def promptBackupEnc : Str := lit "cardedit.genkeys.backup_enc"
def promptExpiry : Str := lit "keygen.valid"
def promptName : Str := lit "keygen.name"
def promptEmail : Str := lit "keygen.email"
def promptComment : Str := lit "keygen.comment"
def promptUseridCmd : Str := lit "keygen.userid.cmd"
def promptSave : Str := lit "keyedit.save.okay"
def promptUsePrimary : Str := lit "keyedit.keytocard.use_primary"

/-- `SECRET_PROMPTS`: the first and the rest. -/
def secretPrompt : Str := lit "passphrase.enter"

def secretAliases : List Str :=
  [lit "passphrase.ask", lit "passphrase.pin.ask", lit "passphrase.adminpin.ask", lit "passphrase.resetcode.ask"]

def statusFailure : Str := lit "SC_OP_FAILURE"

def yes : Str := lit "y"
def no : Str := lit "n"

/-! ### Answers -/

/-- What is queued: a text, or the octets of a secret. -/
inductive Answer
  | text (s : Str)
  | secret (octets : Bytes)

/-- `_to_buffer` -/
def toBuffer : Answer → Except Exc Bytes
  | .text s => encodeUtf8 s
  | .secret octets => .ok octets

/-- `script.add(keyword, *answers)` -/
def add (script : PromptScript) (keyword : Str) (answers : List Answer) : Except Exc PromptScript :=
  (answers.mapM toBuffer).map (script.add keyword)

/-- `script.share(SECRET_PROMPTS, *answers)` -/
def shareSecrets (script : PromptScript) (answers : List Answer) : Except Exc PromptScript :=
  (answers.mapM toBuffer).map (script.share (secretPrompt :: secretAliases))

/-- `_reject_control_characters` -/
def rejectControlCharacters (value : Bytes) (what : Str) : Except Exc Unit :=
  if value.any (fun octet => octet = 0x00 ∨ octet = 0x0A ∨ octet = 0x0D) then
    .error { cls := .valueError, message := what ++ lit " must not contain NUL or newline characters" }
  else if value = [] then .error { cls := .valueError, message := what ++ lit " must not be empty" }
  else .ok ()

/-! ### Scripts -/

/-- `change_pin_script` -/
def changePinScript (pin : CardPin) (current new : Bytes) : Except Exc PromptScript := do
  rejectControlCharacters current (lit "the current PIN")
  rejectControlCharacters new (lit "the new PIN")
  let script ← add .empty promptCardMenu [.text (lit "admin"), .text (lit "passwd"), .text (lit "quit")]
  let script ← add script promptPinMenu [.text (if pin = .user then lit "1" else lit "3"), .text (lit "Q")]
  shareSecrets script [.secret current, .secret new, .secret new]

/-- `unblock_pin_script` -/
def unblockPinScript (adminPin newUserPin : Bytes) : Except Exc PromptScript := do
  rejectControlCharacters adminPin (lit "the admin PIN")
  rejectControlCharacters newUserPin (lit "the new PIN")
  let script ← add .empty promptCardMenu [.text (lit "admin"), .text (lit "passwd"), .text (lit "quit")]
  let script ← add script promptPinMenu [.text (lit "2"), .text (lit "Q")]
  shareSecrets script [.secret adminPin, .secret newUserPin, .secret newUserPin]

/-- The menu of `keytocard_script`: a subkey is selected first; for the primary
key there is a question of its own. -/
def keyMenu (keyIndex : ℤ) : Except Exc PromptScript :=
  if keyIndex > 0 then
    add .empty promptKeyMenu [.text (lit "key " ++ Json.intText keyIndex), .text (lit "keytocard"), .text (lit "save")]
  else do
    let script ← add .empty promptKeyMenu [.text (lit "keytocard"), .text (lit "save")]
    add script promptUsePrimary [.text yes]

/-- `keytocard_script` -/
def keytocardScript (slot : CardSlot) (keyIndex : ℤ) (keyPassphrase adminPin : Bytes) : Except Exc PromptScript := do
  rejectControlCharacters adminPin (lit "the admin PIN")
  let script ← keyMenu keyIndex
  let script ← add script promptSlot [.text slot.value]
  let script ← add script promptSave [.text yes]
  shareSecrets script [.secret keyPassphrase, .secret adminPin]

/-- `generate_on_card_script` -/
def generateOnCardScript (adminPin userPin : Bytes) (name email expiry : Str) (offCardBackup replaceExisting : Bool) :
    Except Exc PromptScript := do
  rejectControlCharacters adminPin (lit "the admin PIN")
  rejectControlCharacters userPin (lit "the PIN")
  let script ← add .empty promptCardMenu [.text (lit "admin"), .text (lit "generate"), .text (lit "quit")]
  let script ← add script promptReplaceKeys [.text (if replaceExisting then yes else no)]
  let script ← add script promptBackupEnc [.text (if offCardBackup then yes else no)]
  let script ← add script promptExpiry [.text expiry]
  let script ← add script promptName [.text name]
  let script ← add script promptEmail [.text email]
  let script ← add script promptComment [.text []]
  let script ← add script promptUseridCmd [.text (lit "O")]
  shareSecrets script [.secret adminPin, .secret userPin]

/-! ### What is queued -/

/-- `add` leaves the lists of other keywords alone. -/
theorem add_spec {script script' : PromptScript} {keyword : Str} {answers : List Answer}
    (h : add script keyword answers = .ok script') (hs : script.Separate) :
    script'.Separate ∧ (∀ k, k ≠ keyword → script'.answersOf k = script.answersOf k) ∧
      ∀ octets, answers.mapM toBuffer = .ok octets → script'.answersOf keyword = script.answersOf keyword ++ octets := by
  unfold add at h
  cases ha : answers.mapM toBuffer with
  | error e =>
    rw [ha] at h
    cases h
  | ok octets =>
    rw [ha] at h
    obtain rfl := Except.ok.inj h
    refine ⟨hs.add keyword octets, fun k hk => ?_, fun octets' ho => ?_⟩
    · rw [PromptScript.answersOf_add_of_separate hs, if_neg hk]
    · obtain rfl := Except.ok.inj ho
      rw [PromptScript.answersOf_add_of_separate hs, if_pos rfl]

/-- The secrets are only for their own prompts. -/
theorem shareSecrets_spec {script script' : PromptScript} {answers : List Answer}
    (h : shareSecrets script answers = .ok script') (hs : script.Separate) {k : Str}
    (hk : k ∉ secretPrompt :: secretAliases) : script'.answersOf k = script.answersOf k := by
  unfold shareSecrets at h
  cases ha : answers.mapM toBuffer with
  | error e =>
    rw [ha] at h
    cases h
  | ok octets =>
    rw [ha] at h
    obtain rfl := Except.ok.inj h
    rw [List.mem_cons, not_or] at hk
    rw [PromptScript.answersOf_share, if_neg hk.2, PromptScript.answersOf_add_of_separate hs, if_neg hk.1]

theorem answersOf_empty (k : Str) : PromptScript.empty.answersOf k = [] := rfl

theorem keyMenu_spec {keyIndex : ℤ} {script : PromptScript} (h : keyMenu keyIndex = .ok script) :
    script.Separate ∧ ∀ k, k ≠ promptKeyMenu → k ≠ promptUsePrimary → script.answersOf k = [] := by
  unfold keyMenu at h
  split_ifs at h
  · obtain ⟨hsep, hother, -⟩ := add_spec h PromptScript.separate_empty
    exact ⟨hsep, fun k hk _ => hother k hk⟩
  · obtain ⟨s1, h1, h⟩ := bind_eq_ok h
    obtain ⟨hsep1, hother1, -⟩ := add_spec h1 PromptScript.separate_empty
    obtain ⟨hsep, hother, -⟩ := add_spec h hsep1
    exact ⟨hsep, fun k hk hp => (hother k hp).trans (hother1 k hk)⟩

/-- The script for moving a key has no answer to the question whether existing
keys are replaced. -/
theorem answersOf_keytocardScript {slot : CardSlot} {keyIndex : ℤ} {keyPassphrase adminPin : Bytes}
    {script : PromptScript} (h : keytocardScript slot keyIndex keyPassphrase adminPin = .ok script) :
    script.answersOf promptReplaceKeys = [] := by
  obtain ⟨-, -, h⟩ := bind_eq_ok h
  obtain ⟨menu, hmenu, h⟩ := bind_eq_ok h
  obtain ⟨s1, h1, h⟩ := bind_eq_ok h
  obtain ⟨s2, h2, h⟩ := bind_eq_ok h
  obtain ⟨hsep, hnone⟩ := keyMenu_spec hmenu
  obtain ⟨hsep1, hother1, -⟩ := add_spec h1 hsep
  obtain ⟨hsep2, hother2, -⟩ := add_spec h2 hsep1
  rw [shareSecrets_spec h hsep2 (by decide), hother2 _ (by decide), hother1 _ (by decide)]
  exact hnone _ (by decide) (by decide)

/-- The script for generating keys has one answer to it. -/
theorem answersOf_generateOnCardScript {adminPin userPin : Bytes} {name email expiry : Str}
    {offCardBackup replaceExisting : Bool} {script : PromptScript}
    (h : generateOnCardScript adminPin userPin name email expiry offCardBackup replaceExisting = .ok script) :
    script.answersOf promptReplaceKeys = [if replaceExisting then ascii "y" else ascii "n"] := by
  obtain ⟨-, -, h⟩ := bind_eq_ok h
  obtain ⟨-, -, h⟩ := bind_eq_ok h
  obtain ⟨s1, h1, h⟩ := bind_eq_ok h
  obtain ⟨s2, h2, h⟩ := bind_eq_ok h
  obtain ⟨s3, h3, h⟩ := bind_eq_ok h
  obtain ⟨s4, h4, h⟩ := bind_eq_ok h
  obtain ⟨s5, h5, h⟩ := bind_eq_ok h
  obtain ⟨s6, h6, h⟩ := bind_eq_ok h
  obtain ⟨s7, h7, h⟩ := bind_eq_ok h
  obtain ⟨s8, h8, h⟩ := bind_eq_ok h
  obtain ⟨hsep1, hother1, -⟩ := add_spec h1 PromptScript.separate_empty
  obtain ⟨hsep2, -, hreplace⟩ := add_spec h2 hsep1
  obtain ⟨hsep3, hother3, -⟩ := add_spec h3 hsep2
  obtain ⟨hsep4, hother4, -⟩ := add_spec h4 hsep3
  obtain ⟨hsep5, hother5, -⟩ := add_spec h5 hsep4
  obtain ⟨hsep6, hother6, -⟩ := add_spec h6 hsep5
  obtain ⟨hsep7, hother7, -⟩ := add_spec h7 hsep6
  obtain ⟨hsep8, hother8, -⟩ := add_spec h8 hsep7
  have hoctets : [Answer.text (if replaceExisting then yes else no)].mapM toBuffer =
      .ok [if replaceExisting then ascii "y" else ascii "n"] := by
    cases replaceExisting <;> rfl
  -- Only the second step is about this prompt.
  calc script.answersOf promptReplaceKeys = s8.answersOf promptReplaceKeys := shareSecrets_spec h hsep8 (by decide)
    _ = s7.answersOf promptReplaceKeys := hother8 _ (by decide)
    _ = s6.answersOf promptReplaceKeys := hother7 _ (by decide)
    _ = s5.answersOf promptReplaceKeys := hother6 _ (by decide)
    _ = s4.answersOf promptReplaceKeys := hother5 _ (by decide)
    _ = s3.answersOf promptReplaceKeys := hother4 _ (by decide)
    _ = s2.answersOf promptReplaceKeys := hother3 _ (by decide)
    _ = s1.answersOf promptReplaceKeys ++ [_] := hreplace _ hoctets
    _ = [_] := by rw [hother1 _ (by decide), answersOf_empty, List.nil_append]

/-! ### Outcomes -/

/-- `card_operation_failed` -/
def cardOperationFailed : List Gpg.Record → Option Str
  | [] => none
  | (tag :: rest) :: records =>
    if tag = statusFailure then some (rest.headD (lit "unknown")) else cardOperationFailed records
  | [] :: records => cardOperationFailed records

end CardScripts
end GpgMeister
