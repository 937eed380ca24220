/-
# The import wizard

`ui/vault/vault_import_view.py`. The unlock page opens the vault to show what is
in it; the result page opens it once more, with what is typed on the unlock
page, and imports. After a mismatch of the checksum the unlock page offers to
open the vault anyway, and the result page does not know of the offer: what was
shown is imported exactly if the sidecar is missing or matches
(`opens_iff_sidecarMatches`).

The message of an error is that of `ui/errors/error_catalog.py`, for it decides
whether the offer is made.
-/
import GpgMeister.Security.PasswordPolicy
import GpgMeister.Services.VaultReopen

namespace GpgMeister
namespace VaultImportWizard

open VaultService Program PasswordPolicy

variable {γ Time α : Type}

/-! ### The messages of errors -/

/-- The message of the entry of the catalog for a class. -/
def catalogMessage : ErrorClass → Option Str
  | .decryptionError => some (lit "The vault could not be opened. The passphrase may be wrong, " ++
      lit "or the file may be damaged or tampered with.")
  | .vaultFormatError => some (lit "This file does not look like a GPG Meister vault. " ++
      lit "It may be corrupted or of a different format.")
  | .vaultChecksumMismatchError => some (lit "The vault's checksum does not match. " ++
      lit "The file may have been damaged during transfer.")
  | .gpgKeyNotFoundError => some (lit "The requested key could not be found in your keyring.")
  | .gpgCardError => some (lit "No smartcard could be reached. Plug in your YubiKey (or other OpenPGP token), " ++
      lit "wait until the computer recognises it, and try again.")
  | .gpgCardPinError => some (lit "The smartcard refused this PIN. Cards lock themselves after a few wrong " ++
      lit "attempts — check the remaining attempts in the smartcard panel on the Keys " ++
      lit "tab before trying again.")
  | .gpgProcessError | .gpgPassphraseError | .gpgValidationError =>
    some (lit "The GnuPG operation could not be completed. " ++
      lit "The passphrase may be wrong, or the key may be missing or unusable.")
  | _ => none

/-- `_VERBATIM_ERRORS` -/
def verbatimErrors : List ErrorClass :=
  [.fidoServiceError, .fidoUnavailableError, .fidoPinError, .fidoTouchError, .fidoCredentialError, .keyUnlockError,
    .noUnlockMethodError]

variable (env : Platform γ Time)

/-- `_as_sentence` -/
def asSentence (text : Str) : Str :=
  let text := strip text
  env.upper (text.take 1) ++ text.drop 1 ++
    (if text.getLast?.any (· ∈ lit ".!?") then [] else lit ".")

/-- `secrets.token_hex(n)` -/
def tokenHex (n : ℕ) : Program (World γ Time) Exc Str := do
  let octets ← tokenBytes n
  return octets.flatMap fun b => [Json.hexDigit (b.toNat / 16), Json.hexDigit (b.toNat % 16)]

/-- `message_for_exception` -/
def messageForException (e : Exc) : Program (World γ Time) Exc Str :=
  match catalogMessage e.cls with
  | some message => pure message
  | none =>
    if e.cls ∈ verbatimErrors ∧ strip e.message ≠ [] then pure (asSentence env e.message)
    else if e.isA [.valueError] then pure e.message
    else do
      let ref ← tokenHex 3
      return lit "The operation failed unexpectedly. The technical details were written " ++
        lit "to the diagnostic log under reference " ++ ref ++ lit "."

/-- `Worker.run`: the result, or the message of the error. -/
def worker (job : Program (World γ Time) Exc α) : Program (World γ Time) Exc (Except Str α) :=
  Program.catching (Except.ok <$> job) fun e => Except.error <$> messageForException env e

/-! ### The pages -/

structure VaultPreview (Time : Type) where
  path : Path
  createdAt : Time
  appVersion : Str
  description : Str
  keys : List (VaultKeyEntry Time)

/-- What `preview` shows of an opened vault. -/
def previewOf (sourcePath : Path) (opened : OpenedVault Time) : VaultPreview Time where
  path := env.resolve sourcePath
  createdAt := opened.manifest.createdAt
  appVersion := opened.manifest.appVersion
  description := opened.manifest.description
  keys := opened.manifest.keys

/-- `VaultService.preview` -/
def preview (sourcePath : Path) (credentials : Credentials) (skipChecksum : Bool) :
    Program (World γ Time) Exc (VaultPreview Time) := do
  let opened ← openVault env sourcePath credentials skipChecksum
  return previewOf env sourcePath opened

variable (unicode : Unicode)

/-- `_make_passphrase_pair`: the normal form, and what was typed if it differs -/
def makePassphrasePair (raw : Str) : Except Exc (Bytes × Option Bytes) := do
  let norm := unicode.nfkc raw
  let rawSecure ← if norm ≠ raw then some <$> encodeUtf8 raw else .ok none
  let normSecure ← encodeUtf8 norm
  return (normSecure, rawSecure)

/-- What both pages do with a pair: the other form is tried if the normal form
does not decrypt. -/
def tryPair (use : Bytes → Program (World γ Time) Exc α) (pair : Bytes × Option Bytes) :
    Program (World γ Time) Exc α :=
  Program.catching (use pair.1) fun e =>
    if e.isA [.decryptionError] then
      match pair.2 with
      | some raw => use raw
      | none => Program.raise e
    else Program.raise e

/-- What is on `_PassphrasePage`. -/
structure UnlockPage where
  vaultPath : Path
  ppField : Str
  usesSmartcard : Bool

/-- `_run_preview_skip_checksum` -/
def runPreviewSkipChecksum (page : UnlockPage) : Program (World γ Time) Exc (Except Str (VaultPreview Time)) := do
  let text := strip page.ppField
  if page.usesSmartcard then do
    let pin ← Program.ofExcept (encodeUtf8 text)
    worker env (preview env page.vaultPath { smartcardPin := some pin } true)
  else do
    let pair ← Program.ofExcept (makePassphrasePair unicode text)
    worker env (preview env page.vaultPath { masterPassphrase := some pair.1 } true)

/-- `_on_preview_result` and `_on_preview_error`; `openAnyway` is the answer to
the question whether to open the vault despite its checksum. -/
def onPreview (page : UnlockPage) (openAnyway : Bool) :
    Except Str (VaultPreview Time) → Program (World γ Time) Exc (Except Str (VaultPreview Time))
  | .ok result => pure (.ok result)
  | .error message =>
    if lit "checksum" <:+: env.lower message then
      if openAnyway then runPreviewSkipChecksum env unicode page else pure (.error (lit "Import cancelled."))
    else pure (.error message)

/-- `_PassphrasePage.validatePage`, with all that follows of it: a preview, or
the text of the status label. -/
def validatePage (page : UnlockPage) (openAnyway : Bool) :
    Program (World γ Time) Exc (Except Str (VaultPreview Time)) := do
  let text := strip page.ppField
  if text = [] then
    return .error (if page.usesSmartcard then lit "PIN is required." else lit "Passphrase is required.")
  else if page.usesSmartcard then do
    let pin ← Program.ofExcept (encodeUtf8 text)
    let result ← worker env (preview env page.vaultPath { smartcardPin := some pin } false)
    onPreview env unicode page openAnyway result
  else do
    let pair ← Program.ofExcept (makePassphrasePair unicode text)
    let result ← worker env (tryPair (fun pp => preview env page.vaultPath { masterPassphrase := some pp } false) pair)
    onPreview env unicode page openAnyway result

/-- `_ResultPage.initializePage`, with what is done to the vault left open. -/
def withCredentials (page : UnlockPage) (use : Credentials → Program (World γ Time) Exc α) :
    Program (World γ Time) Exc (Except Str α) := do
  let text := strip page.ppField
  let pair ← Program.ofExcept (makePassphrasePair unicode text)
  if page.usesSmartcard then do
    let pin ← Program.ofExcept (encodeUtf8 text)
    worker env (use { smartcardPin := some pin })
  else worker env (tryPair (fun pp => use { masterPassphrase := some pp }) pair)

/-- `_ResultPage.initializePage` -/
def initializePage (page : UnlockPage) (fingerprints : List Str) : Program (World γ Time) Exc (Except Str (List Str)) :=
  withCredentials env unicode page fun credentials =>
    importKeys env page.vaultPath credentials (some fingerprints) false

/-- The result page opens the vault from here. -/
def Opens (page : UnlockPage) (w : World γ Time) : Prop :=
  ∃ opened w', (withCredentials env unicode page fun credentials =>
    openVault env page.vaultPath credentials false).run w = .ok (.ok opened) w'

/-! ### Runs of the pages -/

variable {env unicode} {w w' : World γ Time}

theorem run_worker_eq_ok {job : Program (World γ Time) Exc α} {a : α} :
    (worker env job).run w = .ok (.ok a) w' ↔ job.run w = .ok a w' := by
  unfold worker
  rw [run_catching, run_map_eq]
  cases job.run w with
  | ok b w1 => simp
  | error e w1 =>
    dsimp only
    rw [run_map_eq]
    cases (messageForException env e).run w1 <;> simp

theorem run_worker_eq_error {job : Program (World γ Time) Exc α} {message : Str}
    (h : (worker env job).run w = .ok (.error message) w') :
    ∃ e w1, job.run w = .error e w1 ∧ (messageForException env e).run w1 = .ok message w' := by
  unfold worker at h
  rw [run_catching, run_map_eq] at h
  cases hjob : job.run w with
  | ok b w1 => simp [hjob] at h
  | error e w1 =>
    simp only [hjob] at h
    rw [run_map_eq] at h
    cases hmessage : (messageForException env e).run w1 with
    | ok m w2 =>
      simp only [hmessage, EStateM.Result.ok.injEq, Except.error.injEq] at h
      obtain ⟨rfl, rfl⟩ := h
      exact ⟨e, w1, rfl, hmessage⟩
    | error e' w2 => simp [hmessage] at h

theorem preview_eq (sourcePath : Path) (credentials : Credentials) (skipChecksum : Bool) :
    preview env sourcePath credentials skipChecksum =
      previewOf env sourcePath <$> openVault env sourcePath credentials skipChecksum := rfl

theorem tryPair_map {β : Type} (f : α → β) (use : Bytes → Program (World γ Time) Exc α) (pair : Bytes × Option Bytes) :
    tryPair (fun pp => f <$> use pp) pair = f <$> tryPair use pair := by
  funext w
  show (tryPair (fun pp => f <$> use pp) pair).run w = (f <$> tryPair use pair).run w
  unfold tryPair
  rw [run_catching, run_map_eq, run_map_eq, run_catching]
  cases (use pair.1).run w with
  | ok a w1 => rfl
  | error e w1 =>
    dsimp only
    by_cases he : e.isA [.decryptionError] = true
    · rw [if_pos he, if_pos he]
      cases pair.2 with
      | none => rfl
      | some raw => exact run_map_eq f
    · rw [if_neg he, if_neg he]
      rfl

theorem determined_tryPair {I : World γ Time → Prop} {use : Bytes → Program (World γ Time) Exc α}
    (h : ∀ pp, Determined I id (use pp)) (pair : Bytes × Option Bytes) : Determined I id (tryPair use pair) := by
  refine (h pair.1).catching fun e => ?_
  split
  · split
    · exact h _
    · exact .raise e
  · exact .raise e

/-- One of the two forms was used with success. -/
theorem tryPair_eq_ok {I : World γ Time → Prop} {use : Bytes → Program (World γ Time) Exc α}
    (h : ∀ pp, Determined I id (use pp)) {pair : Bytes × Option Bytes} (hw : I w) {a : α}
    (hrun : (tryPair use pair).run w = .ok a w') : ∃ pp w1, I w1 ∧ (use pp).run w1 = .ok a w' := by
  unfold tryPair at hrun
  rw [run_catching] at hrun
  cases hnorm : (use pair.1).run w with
  | ok b w1 =>
    rw [hnorm] at hrun
    exact ⟨pair.1, w, hw, hnorm.trans hrun⟩
  | error e w1 =>
    simp only [hnorm] at hrun
    split at hrun
    · cases hraw : pair.2 with
      | none =>
        rw [hraw] at hrun
        cases hrun
      | some raw =>
        rw [hraw] at hrun
        exact ⟨raw, w1, (h pair.1).inv_of_error hw hnorm, hrun⟩
    · cases hrun

/-- What the result page opens the vault with. -/
theorem opens_iff {page : UnlockPage} : Opens env unicode page w ↔
    ∃ pair, makePassphrasePair unicode (strip page.ppField) = .ok pair ∧
      if page.usesSmartcard then ∃ pin, encodeUtf8 (strip page.ppField) = .ok pin ∧
        ∃ opened w', (openVault env page.vaultPath { smartcardPin := some pin } false).run w = .ok opened w'
      else ∃ opened w', (tryPair (fun pp =>
        openVault env page.vaultPath { masterPassphrase := some pp } false) pair).run w = .ok opened w' := by
  unfold Opens withCredentials
  dsimp only
  constructor
  · intro h
    obtain ⟨opened, w', hrun⟩ := h
    obtain ⟨pair, w1, hmake, hrun⟩ := run_bind_eq_ok.mp hrun
    obtain ⟨hpair, rfl⟩ := run_ofExcept_eq_ok.mp hmake
    refine ⟨pair, hpair, ?_⟩
    split at hrun
    · rename_i hcard
      obtain ⟨pin, w2, hencode, hrun⟩ := run_bind_eq_ok.mp hrun
      obtain ⟨hpin, rfl⟩ := run_ofExcept_eq_ok.mp hencode
      rw [if_pos hcard]
      exact ⟨pin, hpin, opened, w', run_worker_eq_ok.mp hrun⟩
    · rename_i hcard
      rw [if_neg hcard]
      exact ⟨opened, w', run_worker_eq_ok.mp hrun⟩
  · intro h
    obtain ⟨pair, hpair, h⟩ := h
    by_cases hcard : page.usesSmartcard = true
    · rw [if_pos hcard] at h
      obtain ⟨pin, hpin, opened, w', hrun⟩ := h
      refine ⟨opened, w', run_bind_eq_ok.mpr ⟨pair, w, run_ofExcept_eq_ok.mpr ⟨hpair, rfl⟩, ?_⟩⟩
      rw [if_pos hcard]
      exact run_bind_eq_ok.mpr ⟨pin, w, run_ofExcept_eq_ok.mpr ⟨hpin, rfl⟩, run_worker_eq_ok.mpr hrun⟩
    · rw [if_neg hcard] at h
      obtain ⟨opened, w', hrun⟩ := h
      refine ⟨opened, w', run_bind_eq_ok.mpr ⟨pair, w, run_ofExcept_eq_ok.mpr ⟨hpair, rfl⟩, ?_⟩⟩
      rw [if_neg hcard]
      exact run_worker_eq_ok.mpr hrun

theorem run_worker_congr {job job' : Program (World γ Time) Exc α} {w0 : World γ Time}
    (h : job.run w = job'.run w0) : (worker env job).run w = (worker env job').run w0 := by
  unfold worker
  rw [run_catching, run_catching, run_map_eq, run_map_eq, h]

/-- The import of a pair goes on from the vault that its forms open, if it does
not itself fail to decrypt. -/
theorem run_tryPair_bind {β : Type} {use : Bytes → Program (World γ Time) Exc α} {pair : Bytes × Option Bytes} {a : α}
    (hrun : (tryPair use pair).run w = .ok a w') {f : α → Program (World γ Time) Exc β}
    (hf : ∀ e w1, (f a).run w' = .error e w1 → ¬ e.isA [.decryptionError] = true) :
    (tryPair (fun pp => use pp >>= f) pair).run w = (f a).run w' := by
  unfold tryPair at hrun ⊢
  rw [run_catching] at hrun
  rw [run_catching, EStateM.run_bind]
  cases hnorm : (use pair.1).run w with
  | ok b w1 =>
    rw [hnorm] at hrun
    obtain ⟨rfl, rfl⟩ : b = a ∧ w1 = w' := by simpa using hrun
    dsimp only
    cases hnext : (f b).run w1 with
    | ok c w2 => rfl
    | error e w2 =>
      dsimp only
      rw [if_neg (hf e w2 hnext)]
      rfl
  | error e w1 =>
    simp only [hnorm] at hrun
    dsimp only
    split at hrun
    · rename_i he
      rw [if_pos he]
      cases hraw : pair.2 with
      | none =>
        rw [hraw] at hrun
        cases hrun
      | some raw =>
        rw [hraw] at hrun
        dsimp only at hrun ⊢
        rw [EStateM.run_bind, hrun]
    · cases hrun

/-- Where the result page opens the vault, it imports what was opened. -/
theorem run_initializePage {page : UnlockPage} (h : Opens env unicode page w) (fingerprints : List Str) :
    ∃ opened w', (withCredentials env unicode page fun credentials =>
        openVault env page.vaultPath credentials false).run w = .ok (.ok opened) w' ∧
      ((∀ e w1, (importOpened env opened (some fingerprints)).run w' = .error e w1 →
          ¬ e.isA [.decryptionError] = true) →
        (initializePage env unicode page fingerprints).run w =
          (worker env (importOpened env opened (some fingerprints))).run w') := by
  obtain ⟨opened, w', hrun⟩ := h
  refine ⟨opened, w', hrun, fun hf => ?_⟩
  unfold initializePage
  unfold withCredentials at hrun ⊢
  dsimp only at hrun ⊢
  obtain ⟨pair, w1, hmake, hrun⟩ := run_bind_eq_ok.mp hrun
  rw [EStateM.run_bind, hmake]
  dsimp only
  split at hrun
  · rename_i hcard
    obtain ⟨pin, w2, hencode, hrun⟩ := run_bind_eq_ok.mp hrun
    rw [if_pos hcard, EStateM.run_bind, hencode]
    refine run_worker_congr ?_
    rw [importKeys, EStateM.run_bind, run_worker_eq_ok.mp hrun]
  · rename_i hcard
    rw [if_neg hcard]
    exact run_worker_congr (run_tryPair_bind (run_worker_eq_ok.mp hrun) hf)

/-- A text that can be a PIN can be a passphrase. -/
theorem makePassphrasePair_of_encode {raw : Str} {pin : Bytes} (h : encodeUtf8 raw = .ok pin) :
    ∃ pair, makePassphrasePair unicode raw = .ok pair := by
  have hraw := encodeUtf8_isOk.mp ⟨pin, h⟩
  obtain ⟨norm, hnorm⟩ := encodeUtf8_isOk.mpr (unicode.nfkc_noSurrogate raw hraw)
  unfold makePassphrasePair
  by_cases hne : unicode.nfkc raw ≠ raw
  · exact ⟨(norm, some pin), by simp [hne, h, hnorm, bind, Except.bind, Functor.map, Except.map, pure, Except.pure]⟩
  · exact ⟨(norm, none), by simp [hne, hnorm, bind, Except.bind, pure, Except.pure]⟩

section Steady

variable {S : Setting γ} (hS : S.Steady env)

omit hS in
theorem calm_messageForException (e : Exc) (hw : S.Calm w) {message : Str}
    (hrun : (messageForException env e).run w = .ok message w') : S.Calm w' := by
  unfold messageForException at hrun
  split at hrun
  · obtain ⟨-, rfl⟩ := run_pure_eq_ok.mp hrun
    exact hw
  · split at hrun
    · obtain ⟨-, rfl⟩ := run_pure_eq_ok.mp hrun
      exact hw
    · split at hrun
      · obtain ⟨-, rfl⟩ := run_pure_eq_ok.mp hrun
        exact hw
      · cases hrun
        exact ⟨hw.vault, hw.sidecar, hw.faults, hw.answers, hw.takes⟩

omit hS in
/-- A preview is of the first try, or of the vault that was opened anyway. -/
theorem onPreview_eq_ok {page : UnlockPage} {openAnyway : Bool} {job : Program (World γ Time) Exc (VaultPreview Time)}
    (hjob : Determined S.Calm id job) (hw : S.Calm w) {result : Except Str (VaultPreview Time)} {w1 : World γ Time}
    (hfirst : (worker env job).run w = .ok result w1) {p : VaultPreview Time}
    (hrun : (onPreview env unicode page openAnyway result).run w1 = .ok (.ok p) w') :
    job.run w = .ok p w' ∨
      S.Calm w1 ∧ (runPreviewSkipChecksum env unicode page).run w1 = .ok (.ok p) w' := by
  cases result with
  | ok q =>
    left
    cases hrun
    exact run_worker_eq_ok.mp hfirst
  | error message =>
    right
    obtain ⟨e, w2, hraised, hmessage⟩ := run_worker_eq_error hfirst
    have hw1 := calm_messageForException e (hjob.inv_of_error hw hraised) hmessage
    unfold onPreview at hrun
    dsimp only at hrun
    split at hrun
    · split at hrun
      · exact ⟨hw1, hrun⟩
      · cases hrun
    · cases hrun

include hS

variable {page : UnlockPage} (hsrc : env.resolve page.vaultPath = S.src)

include hsrc

/-- With a sidecar that matches, what was opened anyway opens with its checksum. -/
theorem openVault_of_worker (hmatches : S.SidecarMatches env) {credentials : Credentials}
    (hw : S.Calm w) {p : VaultPreview Time}
    (hrun : (worker env (preview env page.vaultPath credentials true)).run w = .ok (.ok p) w') :
    ∃ opened w'', (openVault env page.vaultPath credentials false).run w = .ok opened w'' := by
  rw [run_worker_eq_ok, preview_eq] at hrun
  obtain ⟨opened, hopen⟩ := run_map_eq_ok hrun
  exact openVault_of_skipChecksum hS hsrc hmatches hw hopen

theorem determined_preview (credentials : Credentials) :
    Determined S.Calm id (preview env page.vaultPath credentials false) :=
  (determined_openVault hS hsrc credentials false).map _

/-- A preview with the PIN, and a sidecar that matches: the result page opens the
vault. -/
theorem opens_of_card (hmatches : S.SidecarMatches env) (hw : S.Calm w) {w0 : World γ Time} (hw0 : S.Calm w0)
    {openAnyway : Bool} {p : VaultPreview Time} (hcard : page.usesSmartcard = true)
    (hrun : (do
      let pin ← Program.ofExcept (encodeUtf8 (strip page.ppField))
      let result ← worker env (preview env page.vaultPath { smartcardPin := some pin } false)
      onPreview env unicode page openAnyway result : Program (World γ Time) Exc _).run w = .ok (.ok p) w') :
    Opens env unicode page w0 := by
  obtain ⟨pin, w1, hencode, hrun⟩ := run_bind_eq_ok.mp hrun
  obtain ⟨hpin, rfl⟩ := run_ofExcept_eq_ok.mp hencode
  obtain ⟨result, w2, hfirst, hrun⟩ := run_bind_eq_ok.mp hrun
  have hopen : ∃ w3 opened w4, S.Calm w3 ∧
      (openVault env page.vaultPath { smartcardPin := some pin } false).run w3 = .ok opened w4 := by
    rcases onPreview_eq_ok (determined_preview hS hsrc _) hw hfirst hrun with hok | ⟨hw2, hskip⟩
    · rw [preview_eq] at hok
      obtain ⟨opened, hopen⟩ := run_map_eq_ok hok
      exact ⟨w, opened, w', hw, hopen⟩
    · unfold runPreviewSkipChecksum at hskip
      dsimp only at hskip
      rw [if_pos hcard] at hskip
      obtain ⟨pin', w3, hencode', hskip⟩ := run_bind_eq_ok.mp hskip
      obtain ⟨hpin', rfl⟩ := run_ofExcept_eq_ok.mp hencode'
      obtain rfl : pin = pin' := Except.ok.inj (hpin.symm.trans hpin')
      obtain ⟨opened, w4, hopen⟩ := openVault_of_worker hS hsrc hmatches hw2 hskip
      exact ⟨w2, opened, w4, hw2, hopen⟩
  obtain ⟨w3, opened, w4, hw3, hopen⟩ := hopen
  obtain ⟨pair, hpair⟩ : ∃ pair, makePassphrasePair unicode (strip page.ppField) = .ok pair :=
    makePassphrasePair_of_encode hpin
  obtain ⟨opened', w5, hopen', -⟩ := (determined_openVault hS hsrc _ false).ok hw3 hw0 hopen
  refine opens_iff.mpr ⟨pair, hpair, ?_⟩
  rw [if_pos hcard]
  exact ⟨pin, hpin, opened', w5, hopen'⟩

/-- A preview with the passphrase, and a sidecar that matches: the result page
opens the vault. -/
theorem opens_of_passphrase (hmatches : S.SidecarMatches env) (hw : S.Calm w) {w0 : World γ Time} (hw0 : S.Calm w0)
    {openAnyway : Bool} {p : VaultPreview Time} (hcard : ¬ page.usesSmartcard = true)
    (hrun : (do
      let pair ← Program.ofExcept (makePassphrasePair unicode (strip page.ppField))
      let result ← worker env (tryPair (fun pp =>
        preview env page.vaultPath { masterPassphrase := some pp } false) pair)
      onPreview env unicode page openAnyway result : Program (World γ Time) Exc _).run w = .ok (.ok p) w') :
    Opens env unicode page w0 := by
  obtain ⟨pair, w1, hmake, hrun⟩ := run_bind_eq_ok.mp hrun
  obtain ⟨hpair, rfl⟩ := run_ofExcept_eq_ok.mp hmake
  obtain ⟨result, w2, hfirst, hrun⟩ := run_bind_eq_ok.mp hrun
  have hdetermined : Determined S.Calm id (tryPair (fun pp =>
      openVault env page.vaultPath { masterPassphrase := some pp } false) pair) :=
    determined_tryPair (fun _ => determined_openVault hS hsrc _ false) pair
  have hopen : ∃ w3 opened w4, S.Calm w3 ∧ (tryPair (fun pp =>
      openVault env page.vaultPath { masterPassphrase := some pp } false) pair).run w3 = .ok opened w4 := by
    rcases onPreview_eq_ok (determined_tryPair (fun _ => determined_preview hS hsrc _) pair) hw hfirst hrun with
      hok | ⟨hw2, hskip⟩
    · simp only [preview_eq, tryPair_map] at hok
      obtain ⟨opened, hopen⟩ := run_map_eq_ok hok
      exact ⟨w, opened, w', hw, hopen⟩
    · -- the normal form alone was tried without the checksum
      unfold runPreviewSkipChecksum at hskip
      dsimp only at hskip
      rw [if_neg hcard] at hskip
      obtain ⟨pair', w3, hmake', hskip⟩ := run_bind_eq_ok.mp hskip
      obtain ⟨hpair', rfl⟩ := run_ofExcept_eq_ok.mp hmake'
      obtain rfl : pair = pair' := Except.ok.inj (hpair.symm.trans hpair')
      obtain ⟨opened, w4, hopen⟩ := openVault_of_worker hS hsrc hmatches hw2 hskip
      refine ⟨w2, opened, w4, hw2, ?_⟩
      unfold tryPair
      rw [run_catching, hopen]
  obtain ⟨w3, opened, w4, hw3, hopen⟩ := hopen
  obtain ⟨opened', w5, hopen', -⟩ := hdetermined.ok hw3 hw0 hopen
  refine opens_iff.mpr ⟨pair, hpair, ?_⟩
  rw [if_neg hcard]
  exact ⟨opened', w5, hopen'⟩

theorem sidecarMatches_of_opens (hw : S.Calm w) (h : Opens env unicode page w) : S.SidecarMatches env := by
  obtain ⟨pair, -, h⟩ := opens_iff.mp h
  split at h
  · obtain ⟨pin, -, opened, w', hrun⟩ := h
    exact sidecarMatches_of_openVault hS hsrc hw hrun
  · obtain ⟨opened, w', hrun⟩ := h
    obtain ⟨pp, w1, hw1, hrun⟩ := tryPair_eq_ok (fun _ => determined_openVault hS hsrc _ false) hw hrun
    exact sidecarMatches_of_openVault hS hsrc hw1 hrun

/-- **What the unlock page shows is imported exactly if the sidecar is missing
or matches.** -/
theorem opens_iff_sidecarMatches (hw : S.Calm w) {w0 : World γ Time} (hw0 : S.Calm w0) {openAnyway : Bool}
    {p : VaultPreview Time} (hpreview : (validatePage env unicode page openAnyway).run w = .ok (.ok p) w') :
    Opens env unicode page w0 ↔ S.SidecarMatches env := by
  refine ⟨sidecarMatches_of_opens hS hsrc hw0, fun hmatches => ?_⟩
  unfold validatePage at hpreview
  dsimp only at hpreview
  split at hpreview
  · cases hpreview
  · split at hpreview
    · rename_i hcard
      exact opens_of_card hS hsrc hmatches hw hw0 hcard hpreview
    · rename_i hcard
      exact opens_of_passphrase hS hsrc hmatches hw hw0 hcard hpreview

end Steady

/-! ### With a sidecar, and without -/

def cardPage : UnlockPage where
  vaultPath := cardPath
  ppField := lit "123456"
  usesSmartcard := true

/-- The page shows the vault. -/
def shows (result : Except Str (VaultPreview Unit)) : Bool :=
  match result with
  | .ok p => p.keys.map (·.fingerprint) = [lit "0123456789ABCDEF0123456789ABCDEF01234567"]
  | .error _ => false

/-- The sidecar of another file. -/
def otherSidecar : Bytes := List.replicate 64 0x61 ++ ascii "  keys.gpgm\n"

/-- The page shows the vault without a sidecar, and with that one if it is opened
anyway. -/
theorem shows_card :
    returns (fun result _ => shows result) (validatePage cardPlatform sampleUnicode cardPage false)
        (cardWorld none) = true ∧
      returns (fun result _ => shows result) (validatePage cardPlatform sampleUnicode cardPage true)
        (cardWorld (some otherSidecar)) = true := by
  decide +kernel

theorem run_validatePage_card {sidecar : Option Bytes} {openAnyway : Bool}
    (h : returns (fun result _ => shows result) (validatePage cardPlatform sampleUnicode cardPage openAnyway)
      (cardWorld sidecar) = true) : ∃ p w,
    (validatePage cardPlatform sampleUnicode cardPage openAnyway).run (cardWorld sidecar) = .ok (.ok p) w := by
  obtain ⟨result, w, hrun, hshows⟩ := returns_eq_true.mp h
  cases result with
  | ok p => exact ⟨p, w, hrun⟩
  | error message => cases hshows

/-- A vault without a sidecar. -/
theorem opens_without_sidecar : Opens cardPlatform sampleUnicode cardPage (cardWorld none) := by
  obtain ⟨p, w, hrun⟩ := run_validatePage_card shows_card.1
  have hcalm := calm_cardWorld none
  refine (opens_iff_sidecarMatches (steady_cardPlatform none) rfl hcalm hcalm hrun).mpr ?_
  intro raw data hsidecar
  cases hsidecar

/-- What was opened anyway is shown, and cannot be imported. -/
theorem not_opens : ¬ ∀ (γ Time : Type) (env : Platform γ Time) (unicode : Unicode) (S : Setting γ)
    (page : UnlockPage) (openAnyway : Bool) (w w' w0 : World γ Time) (p : VaultPreview Time), S.Steady env →
      env.resolve page.vaultPath = S.src → S.Calm w → S.Calm w0 →
      (validatePage env unicode page openAnyway).run w = .ok (.ok p) w' → Opens env unicode page w0 := by
  intro h
  obtain ⟨p, w, hrun⟩ := run_validatePage_card shows_card.2
  have hsteady := steady_cardPlatform (some otherSidecar)
  have hcalm := calm_cardWorld (some otherSidecar)
  have hmatches := sidecarMatches_of_opens hsteady rfl hcalm
    (h Unit Unit cardPlatform sampleUnicode _ cardPage true _ w _ p hsteady rfl hcalm hcalm hrun)
  have hother : (decodeAscii (otherSidecar.take 256)).bind (sidecarDigest cardPlatform) ≠
      .ok (cardPlatform.lower cardDigest) := by decide +kernel
  rw [← sha256_cardVault] at hother
  exact hother (hmatches otherSidecar cardVault rfl rfl)

end VaultImportWizard
end GpgMeister
