/-
# The key-creation form

`ui/keys/key_create_viewmodel.py`. The form asks the password policy about the
passphrase as it was typed, and `_secure_passphrase` strips it before it becomes
the passphrase of the key.

* `usesAccepted_iff`: the passphrase that is used is one that the policy accepts
  exactly if what was typed is strong without the white space at its ends.
* `run_armed`: in every run, a form without an emergency passphrase is in token
  mode.
-/
import GpgMeister.Security.PasswordPolicy

namespace GpgMeister
namespace KeyCreateForm

open PasswordPolicy

/-! ### The form -/

/-- What the form emits. -/
inductive FormSignal
  | passphraseStrength (strength : Option PasswordStrength)
  | formValidChanged (valid : Bool)
  | loadingChanged (loading : Bool)
  deriving DecidableEq

/-- `KeyCreateViewModel` -/
structure KeyCreateViewModel where
  name : Str := []
  email : Str := []
  label : Str := []
  platform : Str := []
  purpose : Str := []
  notes : Str := []
  algorithm : KeyAlgorithm := .eddsa
  length : ℤ := 255
  expiry : Str := lit "2y"
  passphrase : Str := []
  confirm : Str := []
  useToken : Bool := false
  tokenOnly : Bool := false
  pin : Str := []
  signals : List FormSignal := []
  deriving DecidableEq

abbrev Form := Program KeyCreateViewModel Exc

variable (unicode : Unicode)

def emitSignal (signal : FormSignal) : Form Unit := modify fun form => { form with signals := form.signals ++ [signal] }

/-- `_is_valid` -/
def isValid (form : KeyCreateViewModel) : Except Exc Bool :=
  if form.name = [] ∨ form.email = [] then
    .ok false
  else if form.useToken = true ∧ form.pin = [] then
    .ok false
  else if form.useToken = true ∧ form.tokenOnly = true then
    .ok true
  else if form.passphrase = [] ∨ form.passphrase ≠ form.confirm then
    .ok false
  else do
    let result ← assess unicode form.passphrase
    return result.accepted

/-- `_emit_validity` -/
def emitValidity : Form Unit := do
  let valid ← Program.ofExcept (isValid unicode (← get))
  emitSignal (.formValidChanged valid)

/-- The setters of the form. -/
inductive Change
  | setName (value : Str)
  | setEmail (value : Str)
  | setLabel (value : Str)
  | setPlatform (value : Str)
  | setPurpose (value : Str)
  | setNotes (value : Str)
  | setAlgorithm (algo : KeyAlgorithm) (length : ℤ)
  | setExpiry (value : Str)
  | setPassphrase (value : Str)
  | setConfirm (value : Str)
  | setUseToken (value : Bool)
  | setTokenOnly (value : Bool)
  | setPin (value : Str)

/-- What a setter changes. -/
def Change.edit (form : KeyCreateViewModel) : Change → KeyCreateViewModel
  | .setName value => { form with name := strip value }
  | .setEmail value => { form with email := strip value }
  | .setLabel value => { form with label := strip value }
  | .setPlatform value => { form with platform := strip value }
  | .setPurpose value => { form with purpose := strip value }
  | .setNotes value => { form with notes := strip value }
  | .setAlgorithm algorithm length => { form with algorithm, length }
  | .setExpiry value => { form with expiry := strip value }
  | .setPassphrase value => { form with passphrase := value }
  | .setConfirm value => { form with confirm := value }
  | .setUseToken true => { form with useToken := true }
  | .setUseToken false => { form with useToken := false, tokenOnly := false, pin := [] }
  | .setTokenOnly value => { form with tokenOnly := value && form.useToken }
  | .setPin value => { form with pin := value }

/-- `assess(value) if value else None` -/
def assessed (value : Str) : Form (Option PasswordAssessment) :=
  if value = [] then pure none else some <$> Program.ofExcept (assess unicode value)

/-- What a setter tells the view. -/
def Change.report : Change → Form Unit
  | .setLabel _ | .setPlatform _ | .setPurpose _ | .setNotes _ => return
  | .setPassphrase value => do
    let result ← assessed unicode value
    emitSignal (.passphraseStrength (result.map PasswordAssessment.strength))
    emitValidity unicode
  | _ => emitValidity unicode

/-- A setter. -/
def Change.apply (change : Change) : Form Unit := do
  modify fun form => change.edit form
  change.report unicode

/-! ### Submitting it -/

/-- What the service is told about the new key. -/
structure NewKey where
  name : Str
  email : Str
  algorithm : KeyAlgorithm
  length : ℤ
  expiry : Str
  label : Str
  platform : Str
  purpose : Str
  notes : Str

inductive ServiceCall
  | create (key : NewKey) (passphrase : Bytes)
  | createWithToken (key : NewKey) (pin : Bytes) (emergencyPassphrase : Option Bytes)

/-- The octets with which the new key can be opened without a token. -/
def ServiceCall.passphrase : ServiceCall → Option Bytes
  | .create _ passphrase => some passphrase
  | .createWithToken _ _ emergencyPassphrase => emergencyPassphrase

/-- The job of the worker: it holds the secrets. -/
inductive KeyJob
  | passphraseJob (passphrase : Bytes)
  | tokenJob (pin : Bytes) (fallback : Option Bytes)

def KeyCreateViewModel.newKey (form : KeyCreateViewModel) : NewKey where
  name := form.name
  email := form.email
  algorithm := form.algorithm
  length := form.length
  expiry := form.expiry
  label := form.label
  platform := form.platform
  purpose := form.purpose
  notes := form.notes

/-- `_do`: every other field is read when the worker runs it. -/
def KeyJob.call (later : KeyCreateViewModel) : KeyJob → ServiceCall
  | .passphraseJob passphrase => .create later.newKey passphrase
  | .tokenJob pin fallback => .createWithToken later.newKey pin fallback

def KeyJob.passphrase : KeyJob → Option Bytes
  | .passphraseJob passphrase => some passphrase
  | .tokenJob _ fallback => fallback

@[simp] theorem KeyJob.call_passphrase (later : KeyCreateViewModel) (job : KeyJob) :
    (job.call later).passphrase = job.passphrase := by
  cases job <;> rfl

/-- `_secure_passphrase` -/
def securePassphrase : Form Bytes := do
  let secure ← Program.ofExcept (encodeUtf8 (unicode.nfkc (strip (← get).passphrase)))
  modify fun form => { form with passphrase := [], confirm := [] }
  return secure

/-- `_passphrase_job` -/
def passphraseJob : Form KeyJob := do
  return .passphraseJob (← securePassphrase unicode)

/-- `None if self._token_only else self._secure_passphrase()` -/
def emergencyPassphrase (tokenOnly : Bool) : Form (Option Bytes) :=
  if tokenOnly then pure none else some <$> securePassphrase unicode

/-- `_token_job` -/
def tokenJob : Form KeyJob := do
  let pinSecure ← Program.ofExcept (encodeUtf8 (← get).pin)
  modify fun form => { form with pin := [] }
  let fallback ← emergencyPassphrase unicode (← get).tokenOnly
  return .tokenJob pinSecure fallback

/-- `submit`, with the job of the worker that it starts. -/
def submit : Form (Option KeyJob) := do
  if ← Program.ofExcept (isValid unicode (← get)) then
    emitSignal (.loadingChanged true)
    let job ← if (← get).useToken then tokenJob unicode else passphraseJob unicode
    return some job
  else
    return none

/-! ### What reaches a job -/

variable {unicode}

/-- The passphrase that a job of either kind holds. -/
theorem job_passphrase_iff (form : KeyCreateViewModel) (octets : Bytes) :
    (if form.useToken then tokenJob unicode else passphraseJob unicode).Meets form
        (fun job _ => job.passphrase = some octets) (fun _ _ => False) ↔
      (form.useToken = true → form.tokenOnly = false ∧ ∃ pin, Utf8.encode form.pin = some pin) ∧
        Utf8.encode (unicode.nfkc (strip form.passphrase)) = some octets := by
  cases htoken : form.useToken with
  | false =>
    cases hencode : Utf8.encode (unicode.nfkc (strip form.passphrase)) <;>
      simp [passphraseJob, securePassphrase, encodeUtf8, hencode, KeyJob.passphrase]
  | true =>
    cases hpin : Utf8.encode form.pin with
    | none => simp [tokenJob, encodeUtf8, hpin]
    | some pin =>
      cases honly : form.tokenOnly with
      | true => simp [tokenJob, emergencyPassphrase, encodeUtf8, hpin, honly, KeyJob.passphrase]
      | false =>
        cases hencode : Utf8.encode (unicode.nfkc (strip form.passphrase)) <;>
          simp [tokenJob, emergencyPassphrase, securePassphrase, encodeUtf8, hpin, honly, hencode, KeyJob.passphrase]

variable (unicode)

/-- What is typed as a passphrase goes into a job: the form is valid, it is not
a form for the token alone, and the PIN can be encoded. -/
def Submits (form : KeyCreateViewModel) : Prop :=
  isValid unicode form = .ok true ∧
    (form.useToken = true → form.tokenOnly = false ∧ ∃ pin, Utf8.encode form.pin = some pin)

/-- The passphrase of every job is one that the policy accepts. -/
def UsesAccepted (form : KeyCreateViewModel) : Prop :=
  ∀ job form' later octets, (submit unicode).run form = .ok (some job) form' →
    (job.call later).passphrase = some octets →
      ∃ text, Utf8.encode text = some octets ∧ Accepts unicode text

/-- Without the white space at its ends, what was typed is strong: no common
password, and either four words with white space among them or a long text of
several kinds of characters. -/
def StrongInside (form : KeyCreateViewModel) : Prop :=
  ∀ octets, Utf8.encode (unicode.nfkc (strip form.passphrase)) = some octets →
    IsStrong unicode (unicode.nfkc (strip form.passphrase)) octets.length

variable {unicode}

theorem submit_passphrase_iff (form : KeyCreateViewModel) (octets : Bytes) :
    (∃ job form', (submit unicode).run form = .ok (some job) form' ∧ job.passphrase = some octets) ↔
      Submits unicode form ∧ Utf8.encode (unicode.nfkc (strip form.passphrase)) = some octets := by
  have hmeets : (submit unicode).Meets form
      (fun job _ => ∃ j, job = some j ∧ j.passphrase = some octets) (fun _ _ => False) ↔
        Submits unicode form ∧ Utf8.encode (unicode.nfkc (strip form.passphrase)) = some octets := by
    -- the job is made after the form has said that it is busy
    have hjob := @job_passphrase_iff unicode { form with signals := form.signals ++ [.loadingChanged true] } octets
    rcases hvalid : isValid unicode form with e | _ | _
    · simp [submit, Submits, hvalid]
    · simp [submit, Submits, hvalid]
    · cases htoken : form.useToken <;> simpa [submit, Submits, hvalid, emitSignal, htoken] using hjob
  rw [← hmeets]
  constructor
  · intro h
    obtain ⟨job, form', hrun, hjob⟩ := h
    unfold Program.Meets
    rw [hrun]
    exact ⟨job, rfl, hjob⟩
  · intro h
    obtain ⟨_, form', hrun, job, rfl, hjob⟩ := h.exists_ok
    exact ⟨job, form', hrun, hjob⟩

/-- **The key gets a passphrase that the policy accepts** exactly if what was
typed is strong without the white space at its ends. -/
theorem usesAccepted_iff (form : KeyCreateViewModel) :
    UsesAccepted unicode form ↔ (Submits unicode form → StrongInside unicode form) := by
  have haccepts : ∀ octets, Utf8.encode (unicode.nfkc (strip form.passphrase)) = some octets →
      (Accepts unicode (unicode.nfkc (strip form.passphrase)) ↔
        IsStrong unicode (unicode.nfkc (strip form.passphrase)) octets.length) := by
    intro octets hencode
    simp [assess_accepts_iff, unicode.nfkc_nfkc, hencode]
  constructor
  · intro h hsubmits octets hencode
    obtain ⟨job, form', hrun, hjob⟩ := (submit_passphrase_iff form octets).mpr ⟨hsubmits, hencode⟩
    obtain ⟨text, htext, hacc⟩ := h job form' form octets hrun (by rw [KeyJob.call_passphrase, hjob])
    have hsame : text = unicode.nfkc (strip form.passphrase) := by
      rw [← Utf8.decodeReplace_encode htext, Utf8.decodeReplace_encode hencode]
    rw [hsame] at hacc
    exact (haccepts octets hencode).mp hacc
  · intro h job form' later octets hrun hjob
    rw [KeyJob.call_passphrase] at hjob
    obtain ⟨hsubmits, hencode⟩ := (submit_passphrase_iff form octets).mp ⟨job, form', hrun, hjob⟩
    exact ⟨_, hencode, (haccepts octets hencode).mpr (h hsubmits octets hencode)⟩

/-! ### Runs of the form -/

/-- What the user does. -/
inductive Step
  | edit (change : Change)
  | submit

/-- The form after it; what was changed before an exception stays changed. -/
def Step.next (unicode : Unicode) (form : KeyCreateViewModel) : Step → KeyCreateViewModel
  | .edit change => (change.apply unicode).after form
  | .submit => (KeyCreateForm.submit unicode).after form

/-- The form after a run. -/
def run (unicode : Unicode) (steps : List Step) (form : KeyCreateViewModel) : KeyCreateViewModel :=
  steps.foldl (Step.next unicode) form

/-- There is something that opens the key: a form without an emergency
passphrase is in token mode. -/
def Armed (form : KeyCreateViewModel) : Prop := form.tokenOnly = true → form.useToken = true

theorem Change.armed_edit {form : KeyCreateViewModel} (h : Armed form) : ∀ change : Change, Armed (change.edit form)
  | .setUseToken true => fun _ => rfl
  | .setUseToken false => nofun
  | .setTokenOnly value => fun honly => (Bool.and_eq_true_iff.mp honly).2
  | .setName _ | .setEmail _ | .setLabel _ | .setPlatform _ | .setPurpose _ | .setNotes _ | .setAlgorithm _ _
  | .setExpiry _ | .setPassphrase _ | .setConfirm _ | .setPin _ => h

/-- The mode of the form. -/
def mode (form : KeyCreateViewModel) : Bool × Bool := (form.useToken, form.tokenOnly)

section Mode

open Program

theorem keeps_mode_emitSignal (signal : FormSignal) : Keeps mode (emitSignal signal) := fun _ => rfl

theorem keeps_mode_emitValidity : Keeps mode (emitValidity unicode) :=
  keeps_get.bind fun _ => (keeps_ofExcept _).bind fun _ => keeps_mode_emitSignal _

/-- No report changes the mode. -/
theorem keeps_mode_report : ∀ change : Change, Keeps mode (change.report unicode)
  | .setLabel _ | .setPlatform _ | .setPurpose _ | .setNotes _ => keeps_pure ()
  | .setName _ | .setEmail _ | .setAlgorithm _ _ | .setExpiry _ | .setConfirm _ | .setUseToken _ | .setTokenOnly _
  | .setPin _ => keeps_mode_emitValidity
  | .setPassphrase value => by
    have hresult : Keeps mode (assessed unicode value) := by
      unfold assessed
      split
      · exact keeps_pure none
      · exact (keeps_ofExcept _).map some
    exact hresult.bind fun result => (keeps_mode_emitSignal _).bind fun _ => keeps_mode_emitValidity

theorem keeps_mode_securePassphrase : Keeps mode (securePassphrase unicode) :=
  keeps_get.bind fun _ => (keeps_ofExcept _).bind fun secure =>
    Keeps.bind (fun _ => rfl) fun _ => keeps_pure secure

theorem keeps_mode_tokenJob : Keeps mode (tokenJob unicode) := by
  have hfallback : ∀ only : Bool, Keeps mode (emergencyPassphrase unicode only) := by
    intro only
    cases only with
    | true => exact keeps_pure none
    | false => exact keeps_mode_securePassphrase.map some
  exact keeps_get.bind fun _ => (keeps_ofExcept _).bind fun pin => Keeps.bind (fun _ => rfl) fun _ =>
    keeps_get.bind fun form => (hfallback form.tokenOnly).bind fun _ => keeps_pure _

theorem keeps_mode_submit : Keeps mode (submit unicode) := by
  refine keeps_get.bind fun _ => (keeps_ofExcept _).bind fun valid => ?_
  cases valid with
  | false => exact keeps_pure none
  | true =>
    refine (keeps_mode_emitSignal _).bind fun _ => keeps_get.bind fun form => ?_
    cases form.useToken with
    | false => exact (keeps_mode_securePassphrase.map _).map some
    | true => exact keeps_mode_tokenJob.map some

end Mode

theorem armed_congr {form form' : KeyCreateViewModel} (h : mode form' = mode form) : Armed form' ↔ Armed form := by
  simp only [mode, Prod.mk.injEq] at h
  rw [Armed, Armed, h.1, h.2]

theorem Step.armed_next {form : KeyCreateViewModel} (h : Armed form) : ∀ step : Step, Armed (step.next unicode form)
  | .edit change => (armed_congr (keeps_mode_report change (change.edit form))).mpr (change.armed_edit h)
  | .submit => (armed_congr (keeps_mode_submit form)).mpr h

/-- In every run, there is something that opens the key. -/
theorem run_armed : ∀ (steps : List Step) {form : KeyCreateViewModel}, Armed form → Armed (run unicode steps form)
  | [], _, h => h
  | step :: steps, _, h => run_armed steps (step.armed_next h)

/-! ### A common password with blanks after it -/

def paddedPassword : Str := lit "Password        "

/-- What is typed. -/
def paddedSteps : List Step :=
  [.edit (.setName (lit "Ann")), .edit (.setEmail (lit "ann@example.org")), .edit (.setPassphrase paddedPassword),
    .edit (.setConfirm paddedPassword)]

/-- The form accepts a password of the list with eight blanks after it, and the
key gets the password of the list. -/
theorem not_usesAccepted : ¬ UsesAccepted sampleUnicode (run sampleUnicode paddedSteps {}) := by
  intro h
  have hsubmit : Program.returns (fun job _ => job.any fun job => job.passphrase == Utf8.encode (lit "Password"))
      (submit sampleUnicode) (run sampleUnicode paddedSteps {}) = true := by decide +kernel
  obtain ⟨job, form', hrun, hjob⟩ := Program.returns_eq_true.mp hsubmit
  obtain ⟨job, rfl, hpassphrase⟩ := (Option.any_eq_true _ _).mp hjob
  have hencode : Utf8.encode (lit "Password") = some _ := Utf8.encode_of_noSurrogate (by decide +kernel)
  rw [beq_iff_eq, hencode] at hpassphrase
  obtain ⟨text, htext, haccepts⟩ := h job form' {} _ hrun (by rw [KeyJob.call_passphrase, hpassphrase])
  have hsame : text = lit "Password" := by
    rw [← Utf8.decodeReplace_encode htext, Utf8.decodeReplace_encode hencode]
  obtain ⟨octets, -, hstrong⟩ := (assess_accepts_iff text).mp haccepts
  rw [hsame] at hstrong
  exact hstrong.2.1 (by decide +kernel)

end KeyCreateForm
end GpgMeister
