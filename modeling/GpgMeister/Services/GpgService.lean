/-
# GnuPG as a service

`services/gpg_service.py`, from the run of the executable (`runGpg`) up:
looking up, exporting, importing and deleting keys, encrypting and decrypting,
the card's status and the editors. The listing of the keyring is taken as it
comes.
-/
import GpgMeister.Security.Encryption

namespace GpgMeister
namespace GPGService

open Gpg

variable {γ Time α : Type} (env : Platform γ Time)

/-! ### Validation -/

def validationError (message : Str) : Exc where
  cls := .gpgValidationError
  message := message

/-- `validate_fingerprint` -/
def validateFingerprint (fingerprint : Str) : Except Exc Str :=
  match normaliseFingerprint fingerprint with
  | some fp => .ok fp
  | none => .error (validationError (lit "fingerprint must be 40 uppercase hex characters"))

/-- The octets that would end a line of the passphrase pipe early. -/
def framingBytes : List UInt8 := [0x00, 0x0A, 0x0D]

/-- `_validated_passphrase_bytes` -/
def validatedPassphraseBytes (passphrase : Option Bytes) : Except Exc Bytes :=
  if (passphrase.getD []).any (· ∈ framingBytes) = true then
    .error (validationError (lit "passphrase must not contain NUL or newline characters"))
  else .ok (passphrase.getD [])

/-- `item.encode("utf-8", errors="ignore")` -/
def encodeIgnore (item : Str) : Bytes := (item.filter (! Utf8.isSurrogate ·)).flatMap Utf8.encodeChar

/-- `reject_passphrase_in_argv` -/
def rejectPassphraseInArgv (argv : List Str) (passphrase : Bytes) : Except Exc Unit :=
  if passphrase ≠ [] ∧ ∃ item ∈ argv, passphrase <:+: encodeIgnore item then
    .error (validationError (lit "passphrase bytes appeared in subprocess argv — refusing to call GPG"))
  else .ok ()

/-! ### The run -/

/-- The command line of a run. -/
def commandLine (g : γ) (args : List Str) (withPassphrase statusFd : Bool) : List Str :=
  env.gpg.baseCmd ++ (if statusFd then [lit "--status-fd", (env.gpg.pipes g).1] else []) ++
    (if withPassphrase then [lit "--passphrase-fd", (env.gpg.pipes g).2] else []) ++ args

/-- What GnuPG does with its own state. -/
def onGnupg (f : γ → Except Exc α × γ) : Program (World γ Time) Exc α := fun w =>
  match f w.gnupg with
  | (.ok a, g) => .ok a { w with gnupg := g }
  | (.error e, g) => .error e { w with gnupg := g }

/-- `_run_gpg`: the executable is checked, then the passphrase, then the pipes
are made and the command line is checked for the passphrase. -/
def runGpg (args : List Str) (input passphrase : Option Bytes) (statusFd : Bool) :
    Program (World γ Time) Exc GPGRun := do
  syscall
  let passBytes ← Program.ofExcept (validatedPassphraseBytes passphrase)
  syscall
  Program.ofExcept (rejectPassphraseInArgv
    (commandLine env (← get).gnupg args passphrase.isSome statusFd) passBytes)
  let out ← onGnupg (env.gpg.popen args input passphrase)
  return statusRun out.returncode out.stdout out.stderr (if statusFd then out.reads else [])

/-- `_require_ok` -/
def requireOk (proc : GPGRun) (message : Str) (ok : List ℤ) : Except Exc Unit :=
  if proc.returncode ∉ ok then
    .error { cls := .gpgProcessError, message := message ++ lit ": " ++ (decodeOutput proc.stderr).take 200 }
  else .ok ()

/-! ### Keys -/

/-- `list_keys` -/
def listKeys (secret : Bool) : Program (World γ Time) Exc (List (KeyInfo Time)) := onGnupg (env.gpg.listKeys secret)

def keyNotFound (message : Str) : Exc where
  cls := .gpgKeyNotFoundError
  message := message

/-- `find_key` -/
def findKey (fingerprint : Str) : Program (World γ Time) Exc (KeyInfo Time) := do
  let fp ← Program.ofExcept (validateFingerprint fingerprint)
  let keys ← listKeys env false
  match keys.find? (·.fingerprint = fp) with
  | some key => return key
  | none => Program.raise (keyNotFound (lit "key " ++ fp ++ lit " not found in keyring"))

/-- What `export_public_key` makes of its run. -/
def publicArmor (fp : Str) (proc : GPGRun) : Except Exc Str :=
  if decodeOutput proc.stdout = [] then
    .error
      (keyNotFound
        (lit "no public key for " ++ fp ++
          if proc.stderr = [] then [] else lit ": " ++ (decodeOutput proc.stderr).take 200))
  else .ok (decodeOutput proc.stdout)

/-- `export_public_key` -/
def exportPublicKey (fingerprint : Str) : Program (World γ Time) Exc Str := do
  let fp ← Program.ofExcept (validateFingerprint fingerprint)
  let proc ← runGpg env [lit "--armor", lit "--export", fp] none none false
  Program.ofExcept (publicArmor fp proc)

/-- What `export_private_key` makes of its run. -/
def privateArmor (fp : Str) (proc : GPGRun) : Except Exc Str :=
  if decodeOutput proc.stdout = [] then
    let err := decodeOutput proc.stderr
    if contains (env.lower err) (lit "bad passphrase") || contains (env.lower err) (lit "bad_passphrase") then
      .error { cls := .gpgPassphraseError, message := lit "private key export failed: incorrect passphrase" }
    else
      .error
        { cls := .gpgPassphraseError
          message := lit "private key export failed for " ++ fp ++
            if err = [] then lit " — key missing or passphrase incorrect" else lit ": " ++ err.take 200 }
  else .ok (decodeOutput proc.stdout)

/-- `export_private_key` -/
def exportPrivateKey (fingerprint : Str) (passphrase : Bytes) : Program (World γ Time) Exc Str := do
  let fp ← Program.ofExcept (validateFingerprint fingerprint)
  let proc ← runGpg env [lit "--armor", lit "--export-secret-keys", fp] none (some passphrase) true
  Program.ofExcept (privateArmor env fp proc)

/-- The keys that a run has imported. -/
def importedOf (records : List Record) : List Str :=
  records.filterMap fun
    | tag :: _ :: fp :: _ => if tag = lit "IMPORT_OK" then some fp else none
    | _ => none

/-- `import_key`, of octets -/
def importKey (armored : Bytes) : Program (World γ Time) Exc (List Str) := do
  let proc ← runGpg env [lit "--import"] (some armored) none true
  let fingerprints := importedOf (parseStatus proc.status)
  if fingerprints = [] then
    Program.raise
      { cls := .gpgProcessError
        message := lit "key import returned no fingerprints: " ++ (decodeOutput proc.stderr).take 200 }
  else Program.ofExcept (fingerprints.mapM validateFingerprint)

def deleteArgs (fp : Str) (includingSecret : Bool) : List Str :=
  [lit "--yes", if includingSecret then lit "--delete-secret-and-public-key" else lit "--delete-key", fp]

/-- `delete_key`: the key has to be gone from the listing. -/
def deleteKey (fingerprint : Str) (includingSecret : Bool) (passphrase : Option Bytes) :
    Program (World γ Time) Exc Unit :=
  recorded (.deleteKey fingerprint) do
    let fp ← Program.ofExcept (validateFingerprint fingerprint)
    let proc ← runGpg env (deleteArgs fp includingSecret) none (if includingSecret then passphrase else none) false
    Program.ofExcept (requireOk proc
      ((if includingSecret then lit "failed to delete key " else lit "failed to delete public key ") ++ fp) [0, 2])
    let found ← Program.catching (do let _ ← findKey env fp; return true) fun e =>
      if e.isA [.gpgKeyNotFoundError] then return false else Program.raise e
    if found then
      Program.raise
        { cls := .gpgProcessError, message := lit "failed to delete key " ++ fp ++ lit ": key is still present" }

/-! ### Messages -/

/-- The arguments of `encrypt`. -/
def encryptArgs (recipients : List Str) (signer : Option Str) (alwaysTrust : Bool) : List Str :=
  [lit "--armor"] ++ (if alwaysTrust then [lit "--trust-model", lit "always"] else []) ++ [lit "--encrypt"] ++
    recipients.flatMap (fun recipient => [lit "--recipient", recipient]) ++
    match signer with
    | some signer => [lit "--sign", lit "--local-user", signer]
    | none => []

/-- `encrypt` -/
def encrypt (plaintext : Bytes) (recipientFingerprints : List Str) (signWith : Option Str)
    (passphrase : Option Bytes) (alwaysTrust : Bool) : Program (World γ Time) Exc Str := do
  let recipients ← Program.ofExcept (recipientFingerprints.mapM validateFingerprint)
  let signer ← Program.ofExcept ((signWith.filter (· ≠ [])).mapM validateFingerprint)
  if signer.isSome ∧ passphrase = none then
    Program.raise (validationError (lit "signing requires a passphrase"))
  else do
    let proc ← runGpg env (encryptArgs recipients signer alwaysTrust) (some plaintext)
      (if signer.isSome then passphrase else none) true
    Program.ofExcept (requireOk proc (lit "encryption failed") [0])
    return decodeOutput proc.stdout

/-- `decrypt` -/
def decrypt (ciphertext : Bytes) (passphrase : Option Bytes) : Program (World γ Time) Exc Decrypted :=
  recorded .decrypt do
    let proc ← runGpg env [lit "--decrypt"] (some ciphertext) passphrase true
    Program.ofExcept (Gpg.decrypt env.lower env.fromTimestamp proc)

/-! ### Cards -/

structure CardStatusOutput where
  colons : Str
  diagnostics : Str

/-- What `card_status` makes of its run. -/
def cardStatusOf (proc : GPGRun) : Except Exc CardStatusOutput :=
  let diagnostics := decodeOutput proc.stderr
  if proc.returncode ≠ 0 then do
    let combined := decodeOutput proc.status ++ [lineFeed] ++ diagnostics
    raiseForCardFailure env.lower (parseStatus proc.status) combined (lit "card status")
    .error
      { cls := .gpgCardError
        message := lit "could not read the smartcard: " ++ diagnostics.take 200
        diagnostics := combined }
  else .ok { colons := decodeOutput proc.stdout, diagnostics }

/-- `card_status` -/
def cardStatus : Program (World γ Time) Exc CardStatusOutput := do
  let proc ← runGpg env [lit "--card-status", lit "--with-colons"] none none true
  Program.ofExcept (cardStatusOf env proc)

structure PromptRun where
  returncode : ℤ
  stdout : Bytes
  stderr : Bytes
  status : Bytes
  unansweredPrompt : Option Str

/-- `status_records` -/
def PromptRun.statusRecords (run : PromptRun) : List Record := parseStatus run.status

/-- Where the thread that answers the prompts ends. -/
def respond (run : EditorRun) (script : PromptScript) : Responder :=
  (answerPrompts run.reads).after (.start script run.faults)

/-- What a run came to, with what its thread has kept. -/
def promptRun (run : EditorRun) (responder : Responder) : PromptRun where
  returncode := run.returncode
  stdout := run.stdout
  stderr := run.stderr
  status := responder.transcript
  unansweredPrompt := responder.unanswered

/-- `run_prompt_script`, with what is left of the script. The status stream
ends with GnuPG, and the thread with the stream. -/
def runPromptScript (args : List Str) (script : PromptScript) :
    Program (World γ Time) Exc (PromptRun × PromptScript) := do
  syscall
  syscall
  let run ← onGnupg (env.gpg.editor args)
  let responder := respond run script
  modify fun w => w.note (.editor args script run.reads responder.pipe)
  match run.raised with
  | some e => Program.raise e
  | none => return (promptRun run responder, responder.script)

end GPGService

/-! ### What a run leaves alone -/

section Frames

variable {γ Time α β : Type} (env : Platform γ Time) {f : World γ Time → β}

open Program

theorem keeps_onGnupg (hg : ∀ w g, f { w with gnupg := g } = f w) (run : γ → Except Exc α × γ) :
    Keeps f (GPGService.onGnupg run : Program (World γ Time) Exc α) := by
  intro w
  unfold after GPGService.onGnupg
  simp only [EStateM.run]
  rcases run w.gnupg with ⟨_ | _, g⟩
  · exact hg w g
  · exact hg w g

theorem keeps_runGpg (h : Calm f) (hg : ∀ w g, f { w with gnupg := g } = f w) (args : List Str)
    (input passphrase : Option Bytes) (statusFd : Bool) :
    Keeps f (GPGService.runGpg env args input passphrase statusFd) := by
  apply h.syscall.bind
  intro _
  apply (keeps_ofExcept _).bind
  intro passBytes
  apply h.syscall.bind
  intro _
  apply keeps_get.bind
  intro w
  apply (keeps_ofExcept _).bind
  intro _
  apply (keeps_onGnupg hg _).bind
  intro out
  exact keeps_pure _

theorem keeps_findKey (hg : ∀ w g, f { w with gnupg := g } = f w) (fingerprint : Str) :
    Keeps f (GPGService.findKey env fingerprint) := by
  apply (keeps_ofExcept _).bind
  intro fp
  apply (keeps_onGnupg hg _).bind
  intro keys
  cases keys.find? (·.fingerprint = fp) with
  | some key => exact keeps_pure key
  | none => exact keeps_raise _

end Frames

end GpgMeister
