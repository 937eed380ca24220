/-
# The smartcard service

`services/smartcard_service.py`: whether a card is there, and what can be done
to it: changing its PINs, moving a key onto it, generating keys on it. The last
two look at the slots first unless they may overwrite them.
-/
import GpgMeister.Services.CardScripts
import GpgMeister.Services.Validation

namespace GpgMeister
namespace SmartcardService

open CardScripts

variable {γ Time : Type} (env : Platform γ Time)

def cardError (message : Str) : Exc where
  cls := .gpgCardError
  message := message

/-! ### Presence -/

/-- `_UNAVAILABLE_REASONS` -/
def unavailableReasons : List (Str × Str) :=
  [(lit "no smartcard daemon",
      lit "GnuPG's smartcard daemon is missing. Install the 'scdaemon' package " ++
        lit "(on Debian/Ubuntu: sudo apt install scdaemon), then plug the token in again."),
    (lit "no card reader",
      lit "No smartcard reader was found. If the token is plugged in, its smartcard " ++
        lit "interface may be switched off — check with 'ykman info'."),
    (lit "no such device",
      lit "A reader is present but no card responded. If this is a YubiKey, its CCID " ++
        lit "(smartcard) interface may be disabled — check with 'ykman info'."),
    (lit "selecting card failed",
      lit "The card could not be selected. Another program may be holding it — close " ++
        lit "other GnuPG or smartcard applications and try again."),
    (lit "card error", lit "The reader reported a card error. Re-insert the token and try again.")]

/-- `_unavailable_reason` -/
def unavailableReason (diagnostics : Str) : Str :=
  ((unavailableReasons.find? fun r => contains (env.lower diagnostics) r.1).map Prod.snd).getD []

/-- `probe` -/
def probe : Program (World γ Time) Exc (Option CardInfo × Str) := do
  match ← attempt [.gpgServiceError] (GPGService.cardStatus env) with
  | .error e =>
    if e.isA [.gpgCardError] then return (none, unavailableReason env (orElse e.diagnostics e.message))
    else return (none, [])
  | .ok output =>
    match ← Program.ofExcept (parseCardStatus env.digits env.lower env.upper output.colons) with
    | none => return (none, unavailableReason env output.diagnostics)
    | some card => return (some card, [])

/-- `detect` -/
def detect : Program (World γ Time) Exc (Option CardInfo) := Prod.fst <$> probe env

/-! ### Scripts -/

/-- `emit_best_effort`; there may be no log. -/
def emitBestEffort (audit : Bool) (event outcome : Str) (payload : Dict) : Program (World γ Time) Exc Unit :=
  if audit then (emit env.toEnv event outcome payload).catching fun _ => pure () else pure ()

/-- `reason=…, **payload` -/
def reasonPayload (reason : Str) (payload : Dict) : Dict :=
  Dict.update { items := [(lit "reason", .str reason)], unique := rfl } payload

/-- `unused_answers=…, **payload` -/
def unusedPayload (n : ℕ) (payload : Dict) : Dict :=
  Dict.update { items := [(lit "unused_answers", .int n)], unique := rfl } payload

/-- What `_run_card_script` raises for an operation that has failed. -/
def failureExc (operation stderr : Str) (failure : Option Str) : Exc :=
  let lowered := env.lower stderr
  if contains lowered (lit "pin") = true ∧ (contains lowered (lit "bad") = true ∨
      contains lowered (lit "wrong") = true ∨ contains lowered (lit "block") = true) then
    { cls := .gpgCardPinError, message := operation ++ lit " failed: the card rejected the PIN" }
  else cardError (operation ++ lit " failed: " ++ orElse (stderr.take 200) (failure.getD (lit "None")))

/-- What `_run_card_script` makes of a run with no prompt unanswered. -/
def finishScript (audit : Bool) (result : GPGService.PromptRun) (leftover : ℕ) (operation event : Str) (payload : Dict) :
    Program (World γ Time) Exc Unit := do
  let failure := cardOperationFailed result.statusRecords
  if failure.isSome = true ∨ result.returncode ≠ 0 then do
    emitBestEffort env audit event (lit "failed") (reasonPayload (orElse (failure.getD []) (lit "process")) payload)
    Program.raise (failureExc env operation (Gpg.decodeOutput result.stderr) failure)
  else emitBestEffort env audit event (lit "ok") (unusedPayload leftover payload)

/-- `_run_card_script` -/
def runCardScript (audit : Bool) (args : List Str) (script : PromptScript) (operation event : Str) (payload : Dict) :
    Program (World γ Time) Exc Unit := do
  let (result, script) ← GPGService.runPromptScript env args script
  match result.unansweredPrompt with
  | some prompt => do
    emitBestEffort env audit event (lit "failed") (reasonPayload (lit "unexpected_prompt") payload)
    Program.raise (cardError
      (operation ++ lit " was stopped: this GnuPG version asked something unexpected (" ++ prompt ++
        lit "). Check the card status before retrying, and use `gpg --card-edit` in a terminal for this operation."))
  | none => finishScript env audit result script.pending operation event payload

/-! ### Administration -/

/-- `change_pin` -/
def changePin (audit : Bool) (pin : CardPin) (current new : Bytes) : Program (World γ Time) Exc Unit := do
  let script ← Program.ofExcept (changePinScript pin current new)
  runCardScript env audit [lit "--card-edit"] script (pin.value ++ lit " PIN change") (lit "smartcard_pin_changed")
    { items := [], unique := Dict.evaluated }

/-- `unblock_user_pin` -/
def unblockUserPin (audit : Bool) (adminPin newUserPin : Bytes) : Program (World γ Time) Exc Unit := do
  let script ← Program.ofExcept (unblockPinScript adminPin newUserPin)
  runCardScript env audit [lit "--card-edit"] script (lit "PIN unblock") (lit "smartcard_pin_changed")
    { items := [], unique := Dict.evaluated }

/-- `_require_free_slot` -/
def requireFreeSlot (slot : CardSlot) (allowOverwrite : Bool) : Program (World γ Time) Exc Unit :=
  if allowOverwrite then pure ()
  else do
    match ← detect env with
    | none => Program.raise (cardError (lit "no smartcard is available — insert your token and try again"))
    | some card =>
      if card.slotFingerprint slot ≠ [] then
        Program.raise (cardError
          (lit "the " ++ env.lower slot.slotName ++ lit " slot already holds a key; " ++
            lit "overwriting it would destroy that key"))
      else pure ()

/-- The arguments of `move_key_to_card`. -/
structure MoveArgs where
  fingerprint : Str
  slot : CardSlot
  keyPassphrase : Bytes
  adminPin : Bytes
  keyIndex : ℤ := 0
  allowOverwrite : Bool := false

/-- `move_key_to_card` -/
def moveKeyToCard (audit : Bool) (args : MoveArgs) : Program (World γ Time) Exc Unit := do
  let fp ← Program.ofExcept (GPGService.validateFingerprint args.fingerprint)
  if args.keyIndex < 0 then Program.raise (cardError (lit "invalid subkey selection"))
  else do
    requireFreeSlot env args.slot args.allowOverwrite
    let script ← Program.ofExcept (keytocardScript args.slot args.keyIndex args.keyPassphrase args.adminPin)
    runCardScript env audit [lit "--edit-key", fp] script (lit "moving the key onto the card")
      (lit "smartcard_key_moved")
      { items := [(lit "fingerprint", .str fp), (lit "slot", .str args.slot.value)], unique := rfl }

/-- The arguments of `generate_key_on_card`. -/
structure GenerateArgs where
  adminPin : Bytes
  userPin : Bytes
  name : Str
  email : Str
  expiry : Str := lit "0"
  offCardBackup : Bool := true
  allowOverwrite : Bool := false

/-- The check of `generate_key_on_card`; without a card there is nothing to
refuse. -/
def requireFreeCard (allowOverwrite : Bool) : Program (World γ Time) Exc Unit :=
  if allowOverwrite then pure ()
  else do
    match ← detect env with
    | none => pure ()
    | some card =>
      if card.occupiedSlots ≠ [] then
        Program.raise (cardError
          (lit "this card already holds keys — generating new ones would destroy them"))
      else pure ()

/-- `generate_key_on_card` -/
def generateKeyOnCard (audit : Bool) (args : GenerateArgs) : Program (World γ Time) Exc Unit := do
  let cleanName ← Program.ofExcept (Validation.validateUserName args.name)
  let cleanEmail ← Program.ofExcept (Validation.validateEmail env.repr args.email)
  if args.expiry ≠ lit "0" then
    let _ ← Program.ofExcept (Validation.validateExpiry env.isoDate env.repr args.expiry)
  requireFreeCard env args.allowOverwrite
  let script ← Program.ofExcept
    (generateOnCardScript args.adminPin args.userPin cleanName cleanEmail args.expiry args.offCardBackup
      args.allowOverwrite)
  runCardScript env audit [lit "--card-edit"] script (lit "generating keys on the card")
    (lit "smartcard_key_generated") { items := [], unique := Dict.evaluated }

end SmartcardService
end GpgMeister
