/-
# The vault-export form

`ui/vault/vault_export_viewmodel.py`: the keys that are selected for a vault,
the passphrases that were typed for them, those that a security key derived,
and what `submit` hands to the worker. The derived ones are `SecureBytes`, which
somebody must close.

* `safe_of_cautious`: in every run whose steps are `Cautious`, every call of
  `VaultService.create` gets a passphrase for every key that needs one and for
  the vault, and no `SecureBytes` is dropped open.
* `not_safe_blanks`: a passphrase of blanks unlocks a key, and the call gets an empty
  passphrase.
-/
import Mathlib.Data.List.AList
import GpgMeister.Lib.Ownership
import GpgMeister.Lib.System
import GpgMeister.Security.PasswordPolicy
import GpgMeister.Services.FidoService

namespace GpgMeister
namespace VaultExportForm

open PasswordPolicy

/-! ### The form -/

/-- What the form asks of a `KeyInfo`. -/
structure LoadedKey where
  fingerprint : Str
  isStub : Bool
  deriving DecidableEq

/-- `VaultExportViewModel` -/
structure VaultExportViewModel where
  selectedFps : List Str := []
  targetPath : Option Str := none
  masterPassphrase : Str := []
  confirmPassphrase : Str := []
  description : Str := []
  keyPassphrases : AList fun _ : Str => Str := ∅
  /-- The buffers of the passphrases that a security key derived. -/
  keySecrets : AList fun _ : Str => ℕ := ∅
  unlockedFps : Finset Str := ∅
  /-- `_key_map`, in which a later key replaces an earlier one -/
  keyMap : List LoadedKey := []
  unlockFps : List Str := []
  tokenOnlyFlag : Bool := false

/-- `key and key.is_stub` -/
def VaultExportViewModel.isStub (form : VaultExportViewModel) (fp : Str) : Bool :=
  (form.keyMap.reverse.find? (·.fingerprint == fp)).any (·.isStub)

/-- `token_only` -/
def VaultExportViewModel.tokenOnly (form : VaultExportViewModel) : Bool := form.tokenOnlyFlag && form.unlockFps ≠ []

/-- `is_key_unlocked` -/
def VaultExportViewModel.isKeyUnlocked (form : VaultExportViewModel) (fp : Str) : Bool :=
  form.isStub fp || fp ∈ form.unlockedFps

/-- `can_submit` -/
def VaultExportViewModel.canSubmit (form : VaultExportViewModel) : Bool :=
  if form.selectedFps = [] ∨ form.targetPath = none then
    false
  else if form.tokenOnly = false ∧ (form.masterPassphrase = [] ∨ form.masterPassphrase ≠ form.confirmPassphrase) then
    false
  else
    form.selectedFps.all form.isKeyUnlocked

/-! ### The worker -/

/-- What `VaultService.create` gets. -/
structure CreateCall where
  targetPath : Str
  masterPassphrase : Option Bytes
  gpgPassphrases : List (Str × Bytes)
  fingerprints : List Str
  description : Str
  unlockKeyFingerprints : List Str
  deriving DecidableEq

/-- `_do` of a `submit`, with the secrets that it owns. -/
structure Job where
  target : Str
  masterSecure : Option ℕ
  gpgSecure : AList fun _ : Str => ℕ
  fps : List Str
  description : Str
  unlockFps : List Str
  /-- The selected keys that are no stubs. -/
  needed : List Str
  /-- The vault is to have no passphrase. -/
  tokenOnly : Bool
  /-- Once it has run, the call that it made. -/
  outcome : Option (Option CreateCall) := none

/-- The form, every `SecureBytes` that it was given or has built, and the jobs
of its submits. -/
structure Session where
  form : VaultExportViewModel := {}
  buffers : List SecureBytes := []
  jobs : List Job := []

def octetsOf (buffers : List SecureBytes) (b : ℕ) : Bytes := (buffers[b]?.map SecureBytes.octets).getD []

def isOpen (buffers : List SecureBytes) (b : ℕ) : Bool := buffers[b]?.any fun secret => ! secret.isClosed

def closeBuffers (bs : List ℕ) (buffers : List SecureBytes) : List SecureBytes :=
  Ownership.closeAll SecureBytes.close bs buffers

/-- `master_secure if master_secure`: a `SecureBytes` of no octets is falsy. -/
def Job.master (job : Job) (buffers : List SecureBytes) : Option ℕ := job.masterSecure.filter (octetsOf buffers · ≠ [])

/-- What the job opens, in this order. -/
def Job.secrets (job : Job) (buffers : List SecureBytes) : List ℕ :=
  (job.master buffers).toList ++ (job.gpgSecure.entries.map (·.2)).reverse

def Job.call (job : Job) (buffers : List SecureBytes) : CreateCall where
  targetPath := job.target
  masterPassphrase := (job.master buffers).map (octetsOf buffers)
  gpgPassphrases := job.gpgSecure.entries.map fun entry => (entry.1, octetsOf buffers entry.2)
  fingerprints := job.fps
  description := job.description
  unlockKeyFingerprints := job.unlockFps

/-- What the job opens before a secret that is closed. -/
def Job.opened (job : Job) (buffers : List SecureBytes) : List ℕ := (job.secrets buffers).takeWhile (isOpen buffers)

/-- The job with how it ended: it makes its call if all its secrets are open. -/
def Job.ended (job : Job) (buffers : List SecureBytes) : Job :=
  { job with outcome := some (if (job.secrets buffers).all (isOpen buffers) then some (job.call buffers) else none) }

/-- The worker runs a job, and closes what it has opened. -/
def Session.work (s : Session) (i : ℕ) : Option Session :=
  match s.jobs[i]? with
  | some job =>
    if job.outcome = none then
      some { s with
        buffers := closeBuffers (job.opened s.buffers) s.buffers
        jobs := s.jobs.set i (job.ended s.buffers) }
    else none
  | none => none

/-! ### The operations -/

variable (unicode : Unicode)

/-- `_discard_secret` -/
def Session.discardSecret (s : Session) (fp : Str) : Session :=
  match s.form.keySecrets.lookup fp with
  | some b =>
    { s with
      form := { s.form with keySecrets := s.form.keySecrets.erase fp }
      buffers := closeBuffers [b] s.buffers }
  | none => s

/-- `lock_key`, which is also what happens to a key that is no longer selected -/
def Session.lockKey (s : Session) (fp : Str) : Session :=
  let s := { s with form := { s.form with keyPassphrases := s.form.keyPassphrases.erase fp } }.discardSecret fp
  { s with form := { s.form with unlockedFps := s.form.unlockedFps.erase fp } }

/-- `set_selected` -/
def Session.setSelected (s : Session) (fingerprints : List Str) : Session :=
  let removed := s.form.selectedFps.filter (· ∉ fingerprints)
  let s := removed.foldl Session.lockKey { s with form := { s.form with selectedFps := fingerprints } }
  { s with form := { s.form with
      unlockedFps := s.form.unlockedFps ∪ (fingerprints.filter fun fp => s.form.isStub fp).toFinset } }

/-- `set_key_passphrase` -/
def Session.setKeyPassphrase (s : Session) (fp passphrase : Str) : Session :=
  { s with form := { s.form with keyPassphrases := s.form.keyPassphrases.insert fp passphrase } }

/-- `unlock_key`: it says whether the passphrase is not empty. -/
def Session.unlockKey (s : Session) (fp : Str) : Bool × Session :=
  if (s.form.keyPassphrases.lookup fp).getD [] = [] then (false, s)
  else (true, { s with form := { s.form with unlockedFps := insert fp s.form.unlockedFps } })

/-- `set_key_secret`, with a `SecureBytes` of these octets -/
def Session.setKeySecret (s : Session) (fp : Str) (octets : Bytes) : Session :=
  let s := s.discardSecret fp
  { s with
    form := { s.form with
      keySecrets := s.form.keySecrets.insert fp s.buffers.length
      keyPassphrases := s.form.keyPassphrases.erase fp
      unlockedFps := insert fp s.form.unlockedFps }
    buffers := s.buffers ++ [{ octets }] }

/-- `reset_secrets` -/
def Session.resetSecrets (s : Session) : Session :=
  let s := s.form.keySecrets.keys.foldl Session.discardSecret
    { s with form := { s.form with masterPassphrase := [], confirmPassphrase := [], keyPassphrases := ∅ } }
  { s with form := { s.form with unlockedFps := ∅ } }

/-! ### Submitting it -/

/-- `SecureBytes.from_bytes` -/
def fromBytes (octets : Bytes) : Program Session Exc ℕ := fun s =>
  .ok s.buffers.length { s with buffers := s.buffers ++ [{ octets }] }

/-- `secure_from_text(normalise_passphrase(text.strip()))` -/
def secureFromText (text : Str) : Program Session Exc ℕ := do
  let octets ← Program.ofExcept (encodeUtf8 (unicode.nfkc (strip text)))
  fromBytes octets

/-- `None`, or the master passphrase in a buffer -/
def masterSecure (form : VaultExportViewModel) : Program Session Exc (Option ℕ) :=
  if form.tokenOnly then pure none else some <$> secureFromText unicode form.masterPassphrase

/-- The typed passphrases go into buffers. -/
def buildSecure (keyPassphrases : AList fun _ : Str => Str) :
    List Str → (AList fun _ : Str => ℕ) → Program Session Exc (AList fun _ : Str => ℕ)
  | [], gpgSecure => return gpgSecure
  | fp :: fps, gpgSecure =>
    match keyPassphrases.lookup fp with
    | some text => do
      let b ← secureFromText unicode text
      buildSecure keyPassphrases fps (gpgSecure.insert fp b)
    | none => buildSecure keyPassphrases fps gpgSecure

/-- The derived passphrases are moved: what is left of them, and what was built
with them. -/
def moveSecrets : List Str → (AList fun _ : Str => ℕ) → (AList fun _ : Str => ℕ) →
    (AList fun _ : Str => ℕ) × (AList fun _ : Str => ℕ)
  | [], keySecrets, gpgSecure => (keySecrets, gpgSecure)
  | fp :: fps, keySecrets, gpgSecure =>
    match keySecrets.lookup fp with
    | some b => moveSecrets fps (keySecrets.erase fp) (gpgSecure.insert fp b)
    | none => moveSecrets fps keySecrets gpgSecure

/-- The job of a form for this file, with these secrets. -/
def VaultExportViewModel.job (form : VaultExportViewModel) (target : Str) (masterSecure : Option ℕ)
    (gpgSecure : AList fun _ : Str => ℕ) : Job where
  target := target
  masterSecure := masterSecure
  gpgSecure := gpgSecure
  fps := form.selectedFps
  description := form.description
  unlockFps := form.unlockFps
  needed := form.selectedFps.filter fun fp => ! form.isStub fp
  tokenOnly := form.tokenOnly

/-- The typed passphrases are dropped, and the worker has the secrets. -/
def Session.handOver (s : Session) (form : VaultExportViewModel) (target : Str) (masterSecure : Option ℕ)
    (gpgSecure : AList fun _ : Str => ℕ) : Session :=
  let moved := moveSecrets form.selectedFps s.form.keySecrets gpgSecure
  { s with
    form := { s.form with
      keySecrets := moved.1
      keyPassphrases := form.selectedFps.foldl (fun passphrases fp => passphrases.erase fp) s.form.keyPassphrases
      unlockedFps := s.form.unlockedFps \ form.selectedFps.toFinset }
    jobs := s.jobs ++ [form.job target masterSecure moved.2] }

/-- A `submit` that goes ahead, for this file. -/
def submitTo (form : VaultExportViewModel) (target : Str) : Program Session Exc Unit := do
  let master ← masterSecure unicode form
  modify fun s => { s with form := { s.form with masterPassphrase := [], confirmPassphrase := [] } }
  let gpgSecure ← buildSecure unicode form.keyPassphrases form.selectedFps ∅
  modify fun s => s.handOver form target master gpgSecure

/-- `submit` -/
def submit : Program Session Exc Unit := do
  let form := (← get).form
  match form.canSubmit, form.targetPath with
  | true, some target => submitTo unicode form target
  | _, _ => return

/-! ### Runs -/

/-- What happens to the form. `resetSecrets` also comes after a successful
export. -/
inductive Op
  | keysLoaded (keys : List LoadedKey)
  | setSelected (fingerprints : List Str)
  | setUnlockKeys (fingerprints : List Str)
  | setTokenOnly (tokenOnly : Bool)
  | setTargetPath (path : Option Str)
  | setMasterPassphrase (value : Str)
  | setConfirmPassphrase (value : Str)
  | setDescription (value : Str)
  | setKeyPassphrase (fp passphrase : Str)
  | unlockKey (fp : Str)
  | setKeySecret (fp : Str) (secret : Bytes)
  | lockKey (fp : Str)
  | resetSecrets
  | submit
  | work (job : ℕ)

def Session.step (s : Session) : Op → Option Session
  | .keysLoaded keys => some { s with form := { s.form with keyMap := keys } }
  | .setSelected fingerprints => some (s.setSelected fingerprints)
  | .setUnlockKeys fingerprints => some { s with form := { s.form with unlockFps := fingerprints } }
  | .setTokenOnly tokenOnly => some { s with form := { s.form with tokenOnlyFlag := tokenOnly } }
  | .setTargetPath path => some { s with form := { s.form with targetPath := path } }
  | .setMasterPassphrase value => some { s with form := { s.form with masterPassphrase := value } }
  | .setConfirmPassphrase value => some { s with form := { s.form with confirmPassphrase := value } }
  | .setDescription value => some { s with form := { s.form with description := strip value } }
  | .setKeyPassphrase fp passphrase => some (s.setKeyPassphrase fp passphrase)
  | .unlockKey fp => some (s.unlockKey fp).2
  | .setKeySecret fp secret => some (s.setKeySecret fp secret)
  | .lockKey fp => some (s.lockKey fp)
  | .resetSecrets => some s.resetSecrets
  | .submit => some ((VaultExportForm.submit unicode).after s)
  | .work job => s.work job

def system : System Session Op := .ofStep (· = {}) (Session.step unicode)

/-! ### Safety -/

/-- Who owns a `SecureBytes`. -/
inductive Slot
  /-- the form, for a key -/
  | secret (fp : Str)
  /-- a job that has not run, as the master passphrase -/
  | master (job : ℕ)
  /-- a job that has not run, for a key -/
  | gpg (job : ℕ) (fp : Str)

def Owns (keySecrets : AList fun _ : Str => ℕ) (jobs : List Job) : Slot → ℕ → Prop
  | .secret fp, b => keySecrets.lookup fp = some b
  | .master i, b => ∃ job, jobs[i]? = some job ∧ job.outcome = none ∧ job.masterSecure = some b
  | .gpg i fp, b => ∃ job, jobs[i]? = some job ∧ job.outcome = none ∧ job.gpgSecure.lookup fp = some b

def Session.Owns (s : Session) : Slot → ℕ → Prop := VaultExportForm.Owns s.form.keySecrets s.jobs

/-- A passphrase for every key that needs one, and one for the vault unless it is
to be opened with tokens alone. -/
def CreateCall.Complete (call : CreateCall) (job : Job) : Prop :=
  (∀ fp ∈ job.needed, ∃ octets, (fp, octets) ∈ call.gpgPassphrases ∧ octets ≠ []) ∧
    ((∃ octets, call.masterPassphrase = some octets ∧ octets ≠ []) ∨ job.tokenOnly = true ∧ job.unlockFps ≠ [])

structure Safe (s : Session) : Prop where
  calls : ∀ job ∈ s.jobs, ∀ outcome, job.outcome = some outcome → ∃ call, outcome = some call ∧ call.Complete job
  dropped : ∀ b secret, s.buffers[b]? = some secret → secret.isClosed = false → ∃ slot, s.Owns slot b

/-- Nothing is left of the text. -/
def Blank (text : Str) : Prop := unicode.nfkc (strip text) = []

instance (text : Str) : Decidable (Blank unicode text) := inferInstanceAs (Decidable (_ = _))

/-- The text can be put into a buffer. -/
def Encodable (text : Str) : Prop := (Utf8.encode (unicode.nfkc (strip text))).isSome = true

instance (text : Str) : Decidable (Encodable unicode text) := inferInstanceAs (Decidable (_ = _))

/-- What `submit` puts into buffers, in this order. -/
def VaultExportViewModel.texts (form : VaultExportViewModel) : List Str :=
  (if form.tokenOnly then [] else [form.masterPassphrase]) ++
    form.selectedFps.filterMap fun fp => form.keyPassphrases.lookup fp

/-- Unless the first text already cannot be put into a buffer, all can, the
master passphrase does not become empty, and no key with a typed passphrase is
selected twice. -/
def CautiousSubmit (form : VaultExportViewModel) : Prop :=
  (∀ text ∈ form.texts.head?, Encodable unicode text) →
    (∀ text ∈ form.texts, Encodable unicode text) ∧
      (form.tokenOnly = false → ¬ Blank unicode form.masterPassphrase) ∧
        (form.selectedFps.filter fun fp => (form.keyPassphrases.lookup fp).isSome).Nodup

/-- Once a key is unlocked, its passphrase becomes no blank one; a key is not
unlocked with blanks, nor with an empty secret; none is typed where a secret is
held; and no unlocked stub turns out to be none. -/
def Cautious (s : Session) : Op → Prop
  | .keysLoaded keys => ∀ fp ∈ s.form.unlockedFps, s.form.isStub fp = true →
      { s.form with keyMap := keys }.isStub fp = true
  | .setKeyPassphrase fp passphrase => s.form.keySecrets.lookup fp = none ∧
      (fp ∈ s.form.unlockedFps → s.form.isStub fp = true ∨ ¬ Blank unicode passphrase)
  | .unlockKey fp => ∀ text ∈ s.form.keyPassphrases.lookup fp,
      text ≠ [] → s.form.isStub fp = true ∨ ¬ Blank unicode text
  | .setKeySecret fp secret => s.form.isStub fp = true ∨ secret ≠ []
  | .submit => s.form.canSubmit = true → CautiousSubmit unicode s.form
  | _ => True

instance (form : VaultExportViewModel) : Decidable (CautiousSubmit unicode form) :=
  inferInstanceAs (Decidable (_ → _))

instance : ∀ (s : Session) (op : Op), Decidable (Cautious unicode s op)
  | s, .keysLoaded _ => inferInstanceAs (Decidable (∀ fp ∈ s.form.unlockedFps, _))
  | _, .setKeyPassphrase _ _ => inferInstanceAs (Decidable (_ ∧ _))
  | s, .unlockKey fp => inferInstanceAs (Decidable (∀ text ∈ s.form.keyPassphrases.lookup fp, _))
  | _, .setKeySecret _ _ => inferInstanceAs (Decidable (_ ∨ _))
  | _, .submit => inferInstanceAs (Decidable (_ → _))
  | _, .setSelected _ | _, .setUnlockKeys _ | _, .setTokenOnly _ | _, .setTargetPath _ | _, .setMasterPassphrase _
  | _, .setConfirmPassphrase _ | _, .setDescription _ | _, .lockKey _ | _, .resetSecrets | _, .work _ =>
    inferInstanceAs (Decidable True)

/-! ### What is on the heap -/

theorem octetsOf_ne_nil {buffers : List SecureBytes} {b : ℕ} :
    octetsOf buffers b ≠ [] ↔ ∃ secret, buffers[b]? = some secret ∧ secret.octets ≠ [] := by
  unfold octetsOf
  cases buffers[b]? <;> simp

/-- What is not empty stays so. -/
def Retains (buffers buffers' : List SecureBytes) : Prop := ∀ b, octetsOf buffers b ≠ [] → octetsOf buffers' b ≠ []

theorem Retains.trans {b1 b2 b3 : List SecureBytes} (h : Retains b1 b2) (h' : Retains b2 b3) : Retains b1 b3 :=
  fun b hb => h' b (h b hb)

theorem retains_append (buffers more : List SecureBytes) : Retains buffers (buffers ++ more) := by
  intro b hb
  obtain ⟨secret, hsecret, hne⟩ := octetsOf_ne_nil.mp hb
  have hlt := (List.getElem?_eq_some_iff.mp hsecret).1
  exact octetsOf_ne_nil.mpr ⟨secret, by rw [List.getElem?_append_left hlt, hsecret], hne⟩

/-- Closing zeroes the octets, and leaves their number. -/
theorem retains_closeBuffers (bs : List ℕ) (buffers : List SecureBytes) :
    Retains buffers (closeBuffers bs buffers) := by
  intro b hb
  obtain ⟨secret, hsecret, hne⟩ := octetsOf_ne_nil.mp hb
  have hclose : ∀ secret : SecureBytes, secret.octets ≠ [] → secret.close.octets ≠ [] := by
    intro secret h
    simpa [SecureBytes.close, zeros] using h
  obtain ⟨secret', hsecret', hne'⟩ := Ownership.getElem?_closeAll SecureBytes.close hclose bs hsecret hne
  exact octetsOf_ne_nil.mpr ⟨secret', hsecret', hne'⟩

/-! ### The invariant -/

/-- Before its run, a job has what its call needs. -/
def Job.Provided (job : Job) (buffers : List SecureBytes) : Prop :=
  (∀ fp ∈ job.needed, ∃ b, job.gpgSecure.lookup fp = some b ∧ octetsOf buffers b ≠ []) ∧
    ((∃ b, job.masterSecure = some b ∧ octetsOf buffers b ≠ []) ∨
      job.masterSecure = none ∧ job.tokenOnly = true ∧ job.unlockFps ≠ [])

def Job.Sound (job : Job) (buffers : List SecureBytes) : Prop :=
  match job.outcome with
  | none => job.Provided buffers
  | some outcome => ∃ call, outcome = some call ∧ call.Complete job

theorem Job.Sound.mono {job : Job} {buffers buffers' : List SecureBytes} (h : job.Sound buffers)
    (hr : Retains buffers buffers') : job.Sound buffers' := by
  unfold Job.Sound at h ⊢
  cases ho : job.outcome with
  | some outcome =>
    rw [ho] at h
    exact h
  | none =>
    rw [ho] at h
    obtain ⟨hneeded, hmaster⟩ := h
    refine ⟨?_, ?_⟩
    · intro fp hfp
      obtain ⟨b, hb, hne⟩ := hneeded fp hfp
      exact ⟨b, hb, hr b hne⟩
    · rcases hmaster with ⟨b, hb, hne⟩ | hnone
      · exact .inl ⟨b, hb, hr b hne⟩
      · exact .inr hnone

/-- The form holds a passphrase for the key. -/
def Session.Supplied (s : Session) (fp : Str) : Prop :=
  (∃ b, s.form.keySecrets.lookup fp = some b ∧ octetsOf s.buffers b ≠ []) ∨
    ∃ text, s.form.keyPassphrases.lookup fp = some text ∧ ¬ Blank unicode text

/-- Nothing was dropped open. -/
def Kept (keySecrets : AList fun _ : Str => ℕ) (jobs : List Job) (buffers : List SecureBytes) : Prop :=
  Ownership.Kept (fun secret : SecureBytes => secret.isClosed = true) (Owns keySecrets jobs) buffers

/-- What also holds while an operation is under way. -/
structure Base (s : Session) : Prop where
  kept : Kept s.form.keySecrets s.jobs s.buffers
  apart : ∀ fp b, s.form.keySecrets.lookup fp = some b → s.form.keyPassphrases.lookup fp = none
  jobs : ∀ job ∈ s.jobs, job.Sound s.buffers

structure Inv (s : Session) : Prop extends Base s where
  supplied : ∀ fp ∈ s.form.unlockedFps, s.form.isStub fp = true ∨ s.Supplied unicode fp

theorem Base.safe {s : Session} (h : Base s) : Safe s where
  calls job hjob outcome ho := by
    have hsound := h.jobs job hjob
    rw [Job.Sound, ho] at hsound
    exact hsound
  dropped b secret hsecret hopen := h.kept.dropped b secret hsecret (by simp [hopen])

variable {unicode}

/-! ### Locking and dropping -/

theorem discardSecret_eq (s : Session) (fp : Str) : s.discardSecret fp =
    { s with
      form := { s.form with keySecrets := s.form.keySecrets.erase fp }
      buffers := closeBuffers (s.form.keySecrets.lookup fp).toList s.buffers } := by
  unfold Session.discardSecret
  cases h : s.form.keySecrets.lookup fp with
  | some b => rfl
  | none =>
    have herase : s.form.keySecrets.erase fp = s.form.keySecrets :=
      AList.ext (List.kerase_of_notMem_keys (AList.lookup_eq_none.mp h))
    rw [herase]
    rfl

theorem Base.discardSecret {s : Session} (h : Base s) (fp : Str) : Base (s.discardSecret fp) := by
  rw [discardSecret_eq]
  refine ⟨?_, ?_, ?_⟩
  · refine h.kept.release (fun _ => rfl) (g := (· = .secret fp)) ?_ ?_
    · intro b
      simp [Owns]
    · intro slot b
      cases slot with
      | secret fp' =>
        by_cases hfp : fp' = fp
        · subst hfp
          simp [Owns]
        · simp [Owns, hfp]
      | master i => simp [Owns]
      | gpg i fp' => simp [Owns]
  · intro fp' b hb
    by_cases hfp : fp' = fp
    · subst hfp
      simp at hb
    · exact h.apart fp' b (by rwa [AList.lookup_erase_ne hfp] at hb)
  · intro job hjob
    exact (h.jobs job hjob).mono (retains_closeBuffers _ _)


/-- `lock_key` in one step. -/
theorem lockKey_eq (s : Session) (fp : Str) : s.lockKey fp =
    { s with
      form := { s.form with
        keyPassphrases := s.form.keyPassphrases.erase fp
        keySecrets := s.form.keySecrets.erase fp
        unlockedFps := s.form.unlockedFps.erase fp }
      buffers := closeBuffers (s.form.keySecrets.lookup fp).toList s.buffers } := by
  rw [Session.lockKey, discardSecret_eq]

theorem Inv.lockKey {s : Session} (h : Inv unicode s) (fp : Str) : Inv unicode (s.lockKey fp) := by
  have hbase := h.toBase.discardSecret fp
  rw [discardSecret_eq] at hbase
  rw [lockKey_eq]
  refine ⟨⟨hbase.kept, ?_, hbase.jobs⟩, ?_⟩
  · intro fp' b hb
    have hapart : s.form.keyPassphrases.lookup fp' = none := hbase.apart fp' b hb
    exact AList.lookup_eq_none.mpr fun hmem => AList.lookup_eq_none.mp hapart (AList.mem_erase.mp hmem).2
  · intro fp' hfp'
    obtain ⟨hne, hmem⟩ := Finset.mem_erase.mp hfp'
    rcases h.supplied fp' hmem with hstub | ⟨b, hb, hoctets⟩ | ⟨text, htext, hblank⟩
    · exact .inl hstub
    · refine .inr (.inl ⟨b, ?_, retains_closeBuffers _ _ b hoctets⟩)
      exact (AList.lookup_erase_ne hne).trans hb
    · refine .inr (.inr ⟨text, ?_, hblank⟩)
      exact (AList.lookup_erase_ne hne).trans htext

theorem Inv.setSelected {s : Session} (h : Inv unicode s) (fingerprints : List Str) :
    Inv unicode (s.setSelected fingerprints) := by
  have hfold : ∀ (fps : List Str) {s : Session}, Inv unicode s → Inv unicode (fps.foldl Session.lockKey s) := by
    intro fps
    induction fps with
    | nil => exact fun h => h
    | cons fp fps ih => exact fun h => ih (h.lockKey fp)
  have hselected : Inv unicode { s with form := { s.form with selectedFps := fingerprints } } :=
    ⟨⟨h.kept, h.apart, h.jobs⟩, h.supplied⟩
  have hremoved := hfold (s.form.selectedFps.filter (· ∉ fingerprints)) hselected
  refine ⟨⟨hremoved.kept, hremoved.apart, hremoved.jobs⟩, ?_⟩
  intro fp hfp
  rcases Finset.mem_union.mp hfp with hfp | hfp
  · exact hremoved.supplied fp hfp
  · exact .inl (List.mem_filter.mp (List.mem_toFinset.mp hfp)).2

theorem Inv.resetSecrets {s : Session} (h : Inv unicode s) : Inv unicode s.resetSecrets := by
  have hfold : ∀ (fps : List Str) {s : Session}, Base s → Base (fps.foldl Session.discardSecret s) := by
    intro fps
    induction fps with
    | nil => exact fun h => h
    | cons fp fps ih => exact fun h => ih (h.discardSecret fp)
  have hempty : Base { s with form := { s.form with
      masterPassphrase := [], confirmPassphrase := [], keyPassphrases := ∅ } } :=
    ⟨h.kept, fun _ _ _ => AList.lookup_empty _, h.jobs⟩
  have hdropped := hfold s.form.keySecrets.keys hempty
  refine ⟨⟨hdropped.kept, hdropped.apart, hdropped.jobs⟩, ?_⟩
  intro fp hfp
  exact absurd hfp (Finset.notMem_empty fp)

/-! ### Passphrases and secrets of a key -/

theorem Inv.setKeyPassphrase {s : Session} (h : Inv unicode s) {fp passphrase : Str}
    (hnone : s.form.keySecrets.lookup fp = none)
    (hblank : fp ∈ s.form.unlockedFps → s.form.isStub fp = true ∨ ¬ Blank unicode passphrase) :
    Inv unicode (s.setKeyPassphrase fp passphrase) := by
  refine ⟨⟨h.kept, ?_, h.jobs⟩, ?_⟩
  · intro fp' b hb
    have hne : fp' ≠ fp := by
      rintro rfl
      cases hnone.symm.trans hb
    exact (AList.lookup_insert_ne hne).trans (h.apart fp' b hb)
  · intro fp' hfp'
    by_cases hne : fp' = fp
    · subst hne
      rcases hblank hfp' with hstub | hblank
      · exact .inl hstub
      · exact .inr (.inr ⟨passphrase, AList.lookup_insert _, hblank⟩)
    · rcases h.supplied fp' hfp' with hstub | hsecret | ⟨text, htext, hblank⟩
      · exact .inl hstub
      · exact .inr (.inl hsecret)
      · exact .inr (.inr ⟨text, (AList.lookup_insert_ne hne).trans htext, hblank⟩)

theorem Inv.unlockKey {s : Session} (h : Inv unicode s) {fp : Str}
    (hblank : ∀ text ∈ s.form.keyPassphrases.lookup fp, text ≠ [] → s.form.isStub fp = true ∨ ¬ Blank unicode text) :
    Inv unicode (s.unlockKey fp).2 := by
  unfold Session.unlockKey
  split
  · exact h
  · rename_i hne
    refine ⟨⟨h.kept, h.apart, h.jobs⟩, ?_⟩
    intro fp' hfp'
    rcases Finset.mem_insert.mp hfp' with rfl | hfp'
    · obtain ⟨text, htext, hne⟩ : ∃ text, s.form.keyPassphrases.lookup fp' = some text ∧ text ≠ [] := by
        cases htext : s.form.keyPassphrases.lookup fp' with
        | none => simp [htext] at hne
        | some text => exact ⟨text, rfl, by simpa [htext] using hne⟩
      exact (hblank text htext hne).imp id fun hblank => .inr ⟨text, htext, hblank⟩
    · exact h.supplied fp' hfp'

/-- `set_key_secret` in one step. -/
theorem setKeySecret_eq (s : Session) (fp : Str) (octets : Bytes) : s.setKeySecret fp octets =
    { s with
      form := { s.form with
        keySecrets := (s.form.keySecrets.erase fp).insert fp
          (closeBuffers (s.form.keySecrets.lookup fp).toList s.buffers).length
        keyPassphrases := s.form.keyPassphrases.erase fp
        unlockedFps := insert fp s.form.unlockedFps }
      buffers := closeBuffers (s.form.keySecrets.lookup fp).toList s.buffers ++ [{ octets := octets }] } := by
  rw [Session.setKeySecret, discardSecret_eq]

theorem Inv.setKeySecret {s : Session} (h : Inv unicode s) {fp : Str} {octets : Bytes}
    (hempty : s.form.isStub fp = true ∨ octets ≠ []) : Inv unicode (s.setKeySecret fp octets) := by
  have hbase := h.toBase.discardSecret fp
  rw [discardSecret_eq] at hbase
  rw [setKeySecret_eq]
  refine ⟨⟨?_, ?_, ?_⟩, ?_⟩
  · refine hbase.kept.alloc (i := .secret fp) (r := { octets := octets }) (by simp) ?_
    intro slot b
    cases slot with
    | secret fp' =>
      by_cases hfp : fp' = fp
      · subst hfp
        simp [Owns, eq_comm]
      · simp [Owns, hfp]
    | master i => simp [Owns]
    | gpg i fp' => simp [Owns]
  · intro fp' b hb
    by_cases hfp : fp' = fp
    · subst hfp
      exact AList.lookup_erase _ _
    · rw [AList.lookup_insert_ne hfp] at hb
      exact (AList.lookup_erase_ne hfp).trans (hbase.apart fp' b hb)
  · intro job hjob
    exact (hbase.jobs job hjob).mono (retains_append _ _)
  · intro fp' hfp'
    by_cases hfp : fp' = fp
    · subst hfp
      rcases hempty with hstub | hne
      · exact .inl hstub
      · exact .inr (.inl ⟨_, AList.lookup_insert _, by simpa [octetsOf] using hne⟩)
    · have hunlocked : fp' ∈ s.form.unlockedFps := (Finset.mem_insert.mp hfp').resolve_left hfp
      rcases h.supplied fp' hunlocked with hstub | ⟨b, hb, hoctets⟩ | ⟨text, htext, hblank⟩
      · exact .inl hstub
      · have hretains := (retains_closeBuffers (s.form.keySecrets.lookup fp).toList s.buffers).trans
          (retains_append _ [{ octets := octets }])
        refine .inr (.inl ⟨b, ?_, hretains b hoctets⟩)
        exact (AList.lookup_insert_ne hfp).trans ((AList.lookup_erase_ne hfp).trans hb)
      · exact .inr (.inr ⟨text, (AList.lookup_erase_ne hfp).trans htext, hblank⟩)

/-! ### A job runs -/

theorem mem_secrets {job : Job} {buffers : List SecureBytes} (h : job.Provided buffers) (b : ℕ) :
    b ∈ job.secrets buffers ↔ job.masterSecure = some b ∨ ∃ fp, job.gpgSecure.lookup fp = some b := by
  have hmaster : job.master buffers = job.masterSecure := by
    rcases h.2 with ⟨b, hb, hne⟩ | ⟨hnone, -⟩
    · simp [Job.master, hb, hne]
    · simp [Job.master, hnone]
  have hgpg : b ∈ job.gpgSecure.entries.map (·.2) ↔ ∃ fp, job.gpgSecure.lookup fp = some b := by
    rw [List.mem_map]
    constructor
    · intro hb
      obtain ⟨⟨fp, b'⟩, hentry, rfl⟩ := hb
      exact ⟨fp, AList.mem_lookup_iff.mpr hentry⟩
    · intro hb
      obtain ⟨fp, hfp⟩ := hb
      exact ⟨⟨fp, b⟩, AList.mem_lookup_iff.mp hfp, rfl⟩
  rw [Job.secrets, List.mem_append, List.mem_reverse, hgpg, hmaster, Option.mem_toList]

/-- A job that has what it needs makes a complete call. -/
theorem Job.Provided.complete {job : Job} {buffers : List SecureBytes} (h : job.Provided buffers) :
    (job.call buffers).Complete job := by
  obtain ⟨hneeded, hmaster⟩ := h
  refine ⟨?_, ?_⟩
  · intro fp hfp
    obtain ⟨b, hb, hne⟩ := hneeded fp hfp
    exact ⟨octetsOf buffers b, List.mem_map.mpr ⟨⟨fp, b⟩, AList.mem_lookup_iff.mp hb, rfl⟩, hne⟩
  · rcases hmaster with ⟨b, hb, hne⟩ | ⟨-, htoken⟩
    · exact .inl ⟨octetsOf buffers b, by simp [Job.call, Job.master, hb, hne], hne⟩
    · exact .inr htoken

theorem Inv.work {s s' : Session} (h : Inv unicode s) {i : ℕ} (hstep : s.work i = some s') : Inv unicode s' := by
  unfold Session.work at hstep
  cases hjob : s.jobs[i]? with
  | none => simp [hjob] at hstep
  | some job =>
    by_cases hwaiting : job.outcome = none
    · simp only [hjob, hwaiting, if_true, Option.some.injEq] at hstep
      have hprovided : job.Provided s.buffers := by
        have hsound := h.jobs job (List.mem_of_getElem? hjob)
        rwa [Job.Sound, hwaiting] at hsound
      have howns : ∀ b, b ∈ job.secrets s.buffers ↔
          ∃ slot, (slot = .master i ∨ ∃ fp, slot = .gpg i fp) ∧ s.Owns slot b := by
        intro b
        rw [mem_secrets hprovided]
        constructor
        · rintro (hb | ⟨fp, hb⟩)
          · exact ⟨.master i, .inl rfl, job, hjob, hwaiting, hb⟩
          · exact ⟨.gpg i fp, .inr ⟨fp, rfl⟩, job, hjob, hwaiting, hb⟩
        · rintro ⟨slot, rfl | ⟨fp, rfl⟩, job', hjob', -, hb⟩ <;> obtain rfl := Option.some.inj (hjob.symm.trans hjob')
          · exact .inl hb
          · exact .inr ⟨fp, hb⟩
      have hopen : ∀ b ∈ job.secrets s.buffers, isOpen s.buffers b = true := by
        intro b hb
        obtain ⟨slot, -, hslot⟩ := (howns b).mp hb
        obtain ⟨secret, hsecret, hopen⟩ := h.kept.isOpen slot b hslot
        simp [isOpen, hsecret, hopen]
      have hopened : job.opened s.buffers = job.secrets s.buffers := List.takeWhile_eq_self_iff.mpr hopen
      have hended : job.ended s.buffers = { job with outcome := some (some (job.call s.buffers)) } := by
        rw [Job.ended, if_pos (List.all_eq_true.mpr hopen)]
      have hset : ∀ (j : ℕ) (P : Job → Prop), (∃ job', (s.jobs.set i (job.ended s.buffers))[j]? = some job' ∧
          job'.outcome = none ∧ P job') ↔ (∃ job', s.jobs[j]? = some job' ∧ job'.outcome = none ∧ P job') ∧ j ≠ i := by
        intro j P
        by_cases hj : j = i
        · subst hj
          have hlt := (List.getElem?_eq_some_iff.mp hjob).1
          simp [hlt, Job.ended]
        · simp [hj, List.getElem?_set_ne (Ne.symm hj)]
      subst hstep
      rw [hopened]
      refine ⟨⟨?_, h.apart, ?_⟩, ?_⟩
      · refine h.kept.release (fun _ => rfl) howns ?_
        intro slot b
        cases slot with
        | secret fp => simp [Owns]
        | master j => simpa [Owns] using hset j fun job' => job'.masterSecure = some b
        | gpg j fp => simpa [Owns] using hset j fun job' => job'.gpgSecure.lookup fp = some b
      · intro job' hjob'
        rcases List.mem_or_eq_of_mem_set hjob' with hjob' | rfl
        · exact (h.jobs job' hjob').mono (retains_closeBuffers _ _)
        · rw [hended]
          exact ⟨job.call s.buffers, rfl, hprovided.complete⟩
      · intro fp hfp
        rcases h.supplied fp hfp with hstub | ⟨b, hb, hoctets⟩ | htext
        · exact .inl hstub
        · exact .inr (.inl ⟨b, hb, retains_closeBuffers _ _ b hoctets⟩)
        · exact .inr (.inr htext)
    · simp [hjob, hwaiting] at hstep

/-! ### Submitting -/

theorem owns_concat (keySecrets : AList fun _ : Str => ℕ) (jobs : List Job) (job : Job) (slot : Slot) (b : ℕ) :
    Owns keySecrets (jobs ++ [job]) slot b ↔ Owns keySecrets jobs slot b ∨ job.outcome = none ∧
      (slot = .master jobs.length ∧ job.masterSecure = some b ∨
        ∃ fp, slot = .gpg jobs.length fp ∧ job.gpgSecure.lookup fp = some b) := by
  have hconcat : ∀ (i : ℕ) (P : Job → Prop), (∃ job', (jobs ++ [job])[i]? = some job' ∧ job'.outcome = none ∧ P job') ↔
      (∃ job', jobs[i]? = some job' ∧ job'.outcome = none ∧ P job') ∨ job.outcome = none ∧ i = jobs.length ∧ P job := by
    intro i P
    rcases lt_trichotomy i jobs.length with hlt | rfl | hgt
    · simp [List.getElem?_append_left hlt, hlt.ne]
    · simp
    · simp [List.getElem?_append_right hgt.le, List.getElem?_eq_none hgt.le, hgt.ne', Nat.sub_ne_zero_of_lt hgt]
  cases slot with
  | secret fp => simp [Owns]
  | master i => simpa [Owns] using hconcat i fun job' => job'.masterSecure = some b
  | gpg i fp => simpa [Owns] using hconcat i fun job' => job'.gpgSecure.lookup fp = some b

theorem lookup_insert_eq_some {m : AList fun _ : Str => ℕ} {fp : Str} (hnone : m.lookup fp = none) (c : ℕ) (fp' : Str)
    (b : ℕ) : (m.insert fp c).lookup fp' = some b ↔ m.lookup fp' = some b ∨ fp' = fp ∧ b = c := by
  by_cases hne : fp' = fp
  · subst hne
    simp [hnone, eq_comm]
  · simp [AList.lookup_insert_ne hne, hne]

/-- A job that is about to be handed over gets one more secret. -/
theorem owns_concat_insert (form : VaultExportViewModel) (target : Str) (master : Option ℕ)
    (keySecrets : AList fun _ : Str => ℕ) (jobs : List Job) {gpgSecure : AList fun _ : Str => ℕ} {fp : Str}
    (hnone : gpgSecure.lookup fp = none) (c : ℕ) (slot : Slot) (b : ℕ) :
    Owns keySecrets (jobs ++ [form.job target master (gpgSecure.insert fp c)]) slot b ↔
      Owns keySecrets (jobs ++ [form.job target master gpgSecure]) slot b ∨ slot = .gpg jobs.length fp ∧ b = c := by
  have hgpg : (∃ fp', slot = .gpg jobs.length fp' ∧ (gpgSecure.insert fp c).lookup fp' = some b) ↔
      (∃ fp', slot = .gpg jobs.length fp' ∧ gpgSecure.lookup fp' = some b) ∨ slot = .gpg jobs.length fp ∧ b = c := by
    constructor
    · rintro ⟨fp', hslot, hb⟩
      rcases (lookup_insert_eq_some hnone c fp' b).mp hb with hb | ⟨rfl, rfl⟩
      · exact .inl ⟨fp', hslot, hb⟩
      · exact .inr ⟨hslot, rfl⟩
    · rintro (⟨fp', hslot, hb⟩ | ⟨hslot, rfl⟩)
      · exact ⟨fp', hslot, (lookup_insert_eq_some hnone c fp' b).mpr (.inl hb)⟩
      · exact ⟨fp, hslot, AList.lookup_insert _⟩
  rw [owns_concat, owns_concat]
  simp only [VaultExportViewModel.job, hgpg, true_and, or_assoc]

/-- A typed text goes into a new buffer, which is not empty unless the text is blank. -/
theorem meets_secureFromText {text : Str} (h : Encodable unicode text) (s : Session) :
    (secureFromText unicode text).Meets s (fun b s' => ∃ octets, b = s.buffers.length ∧
      s' = { s with buffers := s.buffers ++ [{ octets := octets }] } ∧ (¬ Blank unicode text → octets ≠ []))
      (fun _ _ => False) := by
  obtain ⟨octets, hencode⟩ := Option.isSome_iff_exists.mp h
  rw [secureFromText, Program.meets_bind, encodeUtf8, hencode]
  refine ⟨octets, rfl, rfl, ?_⟩
  rintro hblank rfl
  have hdecode := Utf8.decodeReplace_encode hencode
  rw [Utf8.decodeReplace_eq_nil.mpr rfl] at hdecode
  exact hblank hdecode.symm

theorem meets_secureFromText_error {text : Str} (h : ¬ Encodable unicode text) (s : Session) :
    (secureFromText unicode text).Meets s (fun _ _ => False) fun _ s' => s' = s := by
  have hencode : Utf8.encode (unicode.nfkc (strip text)) = none := by
    simpa [Encodable] using h
  rw [secureFromText, Program.meets_bind, encodeUtf8, hencode]
  exact rfl

section Build

variable {form : VaultExportViewModel} {target : Str} {master : Option ℕ}

variable (unicode) in
/-- What the loop over the typed passphrases has done. -/
structure Built (form : VaultExportViewModel) (target : Str) (master : Option ℕ) (fps : List Str)
    (gpgSecure : AList fun _ : Str => ℕ) (s : Session) (gpgSecure' : AList fun _ : Str => ℕ) (s' : Session) : Prop where
  form_eq : s'.form = s.form
  jobs_eq : s'.jobs = s.jobs
  retains : Retains s.buffers s'.buffers
  kept : Kept s.form.keySecrets (s.jobs ++ [form.job target master gpgSecure']) s'.buffers
  old : ∀ fp b, gpgSecure.lookup fp = some b → gpgSecure'.lookup fp = some b
  other : ∀ fp, form.keyPassphrases.lookup fp = none → gpgSecure'.lookup fp = gpgSecure.lookup fp
  new : ∀ fp ∈ fps, ∀ text, form.keyPassphrases.lookup fp = some text → ¬ Blank unicode text →
    ∃ b, gpgSecure'.lookup fp = some b ∧ octetsOf s'.buffers b ≠ []

theorem meets_buildSecure : ∀ (fps : List Str) (gpgSecure : AList fun _ : Str => ℕ) (s : Session),
    (∀ fp ∈ fps, ∀ text, form.keyPassphrases.lookup fp = some text → Encodable unicode text) →
    (fps.filter fun fp => (form.keyPassphrases.lookup fp).isSome).Nodup →
    (∀ fp ∈ fps, ∀ text, form.keyPassphrases.lookup fp = some text → gpgSecure.lookup fp = none) →
    Kept s.form.keySecrets (s.jobs ++ [form.job target master gpgSecure]) s.buffers →
    (buildSecure unicode form.keyPassphrases fps gpgSecure).Meets s
      (Built unicode form target master fps gpgSecure s) (fun _ _ => False)
  | [], gpgSecure, s, _, _, _, hkept =>
    ⟨rfl, rfl, fun _ h => h, hkept, fun _ _ h => h, fun _ _ => rfl, by simp⟩
  | fp :: fps, gpgSecure, s, hencode, hnodup, hfree, hkept => by
    obtain ⟨hencodeFp, hencode⟩ := List.forall_mem_cons.mp hencode
    obtain ⟨hfreeFp, hfree⟩ := List.forall_mem_cons.mp hfree
    cases htext : form.keyPassphrases.lookup fp with
    | none =>
      rw [List.filter_cons_of_neg (by simp [htext])] at hnodup
      simp only [buildSecure, htext]
      refine (meets_buildSecure fps gpgSecure s hencode hnodup hfree hkept).mono ?_ fun _ _ h => h
      intro gpgSecure' s' hbuilt
      refine { hbuilt with new := ?_ }
      intro fp' hfp' text htext' hblank
      refine hbuilt.new fp' ((List.mem_cons.mp hfp').resolve_left ?_) text htext' hblank
      rintro rfl
      cases htext.symm.trans htext'
    | some text =>
      rw [List.filter_cons_of_pos (by simp [htext]), List.nodup_cons] at hnodup
      obtain ⟨hnew, hnodup⟩ := hnodup
      have hnone := hfreeFp text htext
      simp only [buildSecure, htext]
      rw [Program.meets_bind]
      refine (meets_secureFromText (hencodeFp text htext) s).mono ?_ fun _ _ h => h
      rintro _ _ ⟨octets, rfl, rfl, hoctets⟩
      have hfree' : ∀ fp' ∈ fps, ∀ text', form.keyPassphrases.lookup fp' = some text' →
          (gpgSecure.insert fp s.buffers.length).lookup fp' = none := by
        intro fp' hfp' text' htext'
        have hne : fp' ≠ fp := by
          rintro rfl
          exact hnew (List.mem_filter.mpr ⟨hfp', by simp [htext]⟩)
        exact (AList.lookup_insert_ne hne).trans (hfree fp' hfp' text' htext')
      have hkept' : Kept s.form.keySecrets
          (s.jobs ++ [form.job target master (gpgSecure.insert fp s.buffers.length)])
          (s.buffers ++ [{ octets := octets }]) := by
        exact hkept.alloc (i := .gpg s.jobs.length fp) (r := { octets := octets }) (by simp)
          (owns_concat_insert form target master s.form.keySecrets s.jobs hnone s.buffers.length)
      refine (meets_buildSecure fps _ _ hencode hnodup hfree' hkept').mono ?_ fun _ _ h => h
      intro gpgSecure' s' hbuilt
      refine ⟨hbuilt.form_eq, hbuilt.jobs_eq, (retains_append _ _).trans hbuilt.retains, hbuilt.kept, ?_, ?_, ?_⟩
      · intro fp' b hb
        have hne : fp' ≠ fp := by
          rintro rfl
          cases hnone.symm.trans hb
        exact hbuilt.old fp' b ((AList.lookup_insert_ne hne).trans hb)
      · intro fp' hfp'
        have hne : fp' ≠ fp := by
          rintro rfl
          cases htext.symm.trans hfp'
        exact (hbuilt.other fp' hfp').trans (AList.lookup_insert_ne hne)
      · intro fp' hfp' text' htext' hblank
        by_cases hne : fp' = fp
        · subst hne
          obtain rfl := Option.some.inj (htext.symm.trans htext')
          refine ⟨_, hbuilt.old _ _ (AList.lookup_insert _), hbuilt.retains _ ?_⟩
          simpa [octetsOf] using hoctets hblank
        · exact hbuilt.new fp' ((List.mem_cons.mp hfp').resolve_left hne) text' htext' hblank

end Build

/-- What is left of the derived passphrases, and who has them. -/
theorem moveSecrets_spec {form : VaultExportViewModel} {target : Str} {master : Option ℕ} {jobs : List Job}
    {buffers : List SecureBytes} : ∀ (fps : List Str) (keySecrets gpgSecure : AList fun _ : Str => ℕ),
    (∀ fp b, keySecrets.lookup fp = some b → gpgSecure.lookup fp = none) →
    Kept keySecrets (jobs ++ [form.job target master gpgSecure]) buffers →
      Kept (moveSecrets fps keySecrets gpgSecure).1
        (jobs ++ [form.job target master (moveSecrets fps keySecrets gpgSecure).2]) buffers ∧
      (∀ fp, (moveSecrets fps keySecrets gpgSecure).1.lookup fp = if fp ∈ fps then none else keySecrets.lookup fp) ∧
      (∀ fp, (moveSecrets fps keySecrets gpgSecure).2.lookup fp =
        if fp ∈ fps then (keySecrets.lookup fp).or (gpgSecure.lookup fp) else gpgSecure.lookup fp)
  | [], keySecrets, gpgSecure, _, hkept => ⟨hkept, by simp [moveSecrets], by simp [moveSecrets]⟩
  | fp :: fps, keySecrets, gpgSecure, hapart, hkept => by
    cases hsecret : keySecrets.lookup fp with
    | none =>
      obtain ⟨hkept', hleft, hmoved⟩ := moveSecrets_spec fps keySecrets gpgSecure hapart hkept
      simp only [moveSecrets, hsecret]
      refine ⟨hkept', ?_, ?_⟩
      · intro fp'
        by_cases hne : fp' = fp
        · subst hne
          simp [hleft, hsecret]
        · simp [hleft, hne]
      · intro fp'
        by_cases hne : fp' = fp
        · subst hne
          simp [hmoved, hsecret]
        · simp [hmoved, hne]
    | some b0 =>
      have hnone := hapart fp b0 hsecret
      have hapart' : ∀ fp' b, (keySecrets.erase fp).lookup fp' = some b →
          (gpgSecure.insert fp b0).lookup fp' = none := by
        intro fp' b hb
        have hne : fp' ≠ fp := by
          rintro rfl
          simp at hb
        rw [AList.lookup_erase_ne hne] at hb
        exact (AList.lookup_insert_ne hne).trans (hapart fp' b hb)
      have hkept' : Kept (keySecrets.erase fp) (jobs ++ [form.job target master (gpgSecure.insert fp b0)]) buffers := by
        refine hkept.move (i := .secret fp) (j := .gpg jobs.length fp) ?_
        intro slot b
        rw [owns_concat_insert form target master _ jobs hnone]
        have herase : Owns (keySecrets.erase fp) (jobs ++ [form.job target master gpgSecure]) slot b ↔
            Owns keySecrets (jobs ++ [form.job target master gpgSecure]) slot b ∧ slot ≠ .secret fp := by
          cases slot with
          | secret fp' =>
            by_cases hne : fp' = fp
            · subst hne
              simp [Owns]
            · simp [Owns, hne]
          | master i => simp [Owns]
          | gpg i fp' => simp [Owns]
        have hb0 : Owns keySecrets (jobs ++ [form.job target master gpgSecure]) (.secret fp) b ↔ b = b0 := by
          simp [Owns, hsecret, eq_comm]
        rw [herase, hb0]
      obtain ⟨hkept'', hleft, hmoved⟩ := moveSecrets_spec fps _ _ hapart' hkept'
      simp only [moveSecrets, hsecret]
      refine ⟨hkept'', ?_, ?_⟩
      · intro fp'
        by_cases hne : fp' = fp
        · subst hne
          simp [hleft]
        · simp [hleft, hne]
      · intro fp'
        by_cases hne : fp' = fp
        · subst hne
          simp [hmoved, hsecret]
        · simp [hmoved, hne, AList.lookup_insert_ne hne]

theorem lookup_foldl_erase : ∀ (fps : List Str) (m : AList fun _ : Str => Str) (fp : Str),
    (fps.foldl (fun m fp => m.erase fp) m).lookup fp = if fp ∈ fps then none else m.lookup fp
  | [], m, fp => by simp
  | fp' :: fps, m, fp => by
    rw [List.foldl_cons, lookup_foldl_erase fps]
    by_cases hne : fp = fp'
    · subst hne
      simp
    · simp [hne, AList.lookup_erase_ne hne]

/-- Handing over keeps the invariant, if the job gets what it needs. -/
theorem Inv.handOver {s s' : Session} (h : Inv unicode s) {target : Str} {master : Option ℕ}
    {gpgSecure : AList fun _ : Str => ℕ}
    (hform : s'.form = { s.form with masterPassphrase := [], confirmPassphrase := [] }) (hjobs : s'.jobs = s.jobs)
    (hretains : Retains s.buffers s'.buffers)
    (hkept : Kept s.form.keySecrets (s.jobs ++ [s.form.job target master gpgSecure]) s'.buffers)
    (hapart : ∀ fp b, s.form.keySecrets.lookup fp = some b → gpgSecure.lookup fp = none)
    (hprovided : (s.form.job target master (moveSecrets s.form.selectedFps s.form.keySecrets gpgSecure).2).Provided
      s'.buffers) : Inv unicode (s'.handOver s.form target master gpgSecure) := by
  obtain ⟨hkept', hleft, -⟩ := moveSecrets_spec s.form.selectedFps s.form.keySecrets gpgSecure hapart hkept
  unfold Session.handOver
  rw [hform, hjobs]
  refine ⟨⟨hkept', ?_, ?_⟩, ?_⟩
  · intro fp b hb
    rw [hleft] at hb
    rw [lookup_foldl_erase]
    split at hb
    · cases hb
    · rename_i hfp
      rw [if_neg hfp]
      exact h.apart fp b hb
  · intro job hjob
    rcases List.mem_append.mp hjob with hjob | hjob
    · exact (h.jobs job hjob).mono hretains
    · obtain rfl := List.mem_singleton.mp hjob
      exact hprovided
  · intro fp hfp
    obtain ⟨hunlocked, hselected⟩ := Finset.mem_sdiff.mp hfp
    have hfp' : fp ∉ s.form.selectedFps := fun hmem => hselected (List.mem_toFinset.mpr hmem)
    rcases h.supplied fp hunlocked with hstub | ⟨b, hb, hoctets⟩ | ⟨text, htext, hblank⟩
    · exact .inl hstub
    · refine .inr (.inl ⟨b, ?_, hretains b hoctets⟩)
      exact (hleft fp).trans ((if_neg hfp').trans hb)
    · refine .inr (.inr ⟨text, ?_, hblank⟩)
      exact (lookup_foldl_erase _ _ fp).trans ((if_neg hfp').trans htext)

theorem meets_masterSecure {form : VaultExportViewModel} {s : Session} (hkept : Kept s.form.keySecrets s.jobs s.buffers)
    (target : Str) (hencode : form.tokenOnly = false → Encodable unicode form.masterPassphrase)
    (hblank : form.tokenOnly = false → ¬ Blank unicode form.masterPassphrase) :
    (masterSecure unicode form).Meets s (fun master s' => s'.form = s.form ∧ s'.jobs = s.jobs ∧
      Retains s.buffers s'.buffers ∧ Kept s.form.keySecrets (s.jobs ++ [form.job target master ∅]) s'.buffers ∧
      ((∃ b, master = some b ∧ octetsOf s'.buffers b ≠ []) ∨ master = none ∧ form.tokenOnly = true))
      (fun _ _ => False) := by
  unfold masterSecure
  cases htoken : form.tokenOnly with
  | true =>
    refine ⟨rfl, rfl, fun _ h => h, ?_, .inr ⟨rfl, rfl⟩⟩
    refine hkept.congr fun slot b => ?_
    simp [owns_concat, VaultExportViewModel.job]
  | false =>
    rw [map_eq_pure_bind]
    simp only [Bool.false_eq_true, if_false, Program.meets_bind]
    refine (meets_secureFromText (hencode htoken) s).mono ?_ fun _ _ h => h
    rintro _ _ ⟨octets, rfl, rfl, hoctets⟩
    refine ⟨rfl, rfl, retains_append _ _, ?_, .inl ⟨_, rfl, by simpa [octetsOf] using hoctets (hblank htoken)⟩⟩
    refine hkept.alloc (i := .master s.jobs.length) (r := { octets := octets }) (by simp) fun slot b => ?_
    simp [owns_concat, VaultExportViewModel.job, eq_comm]

/-- What the job needs is there, if everything selected was unlocked. -/
theorem Inv.provided {s : Session} (h : Inv unicode s) (hsubmit : s.form.canSubmit = true) {target : Str}
    {master : Option ℕ} {gpgSecure : AList fun _ : Str => ℕ} {buffers : List SecureBytes}
    (hretains : Retains s.buffers buffers)
    (hmaster : (∃ b, master = some b ∧ octetsOf buffers b ≠ []) ∨ master = none ∧ s.form.tokenOnly = true)
    (hbuilt : ∀ fp ∈ s.form.selectedFps, ∀ text, s.form.keyPassphrases.lookup fp = some text → ¬ Blank unicode text →
      ∃ b, gpgSecure.lookup fp = some b ∧ octetsOf buffers b ≠ [])
    {moved : AList fun _ : Str => ℕ} (hmoved : ∀ fp, moved.lookup fp =
      if fp ∈ s.form.selectedFps then (s.form.keySecrets.lookup fp).or (gpgSecure.lookup fp) else gpgSecure.lookup fp) :
    (s.form.job target master moved).Provided buffers := by
  refine ⟨?_, ?_⟩
  · intro fp hfp
    obtain ⟨hselected, hneeded⟩ := List.mem_filter.mp hfp
    have hstub : s.form.isStub fp = false := by simpa using hneeded
    have hunlocked : fp ∈ s.form.unlockedFps := by
      have hall : s.form.selectedFps.all s.form.isKeyUnlocked = true := by
        unfold VaultExportViewModel.canSubmit at hsubmit
        split_ifs at hsubmit
        exact hsubmit
      have hfp := List.all_eq_true.mp hall fp hselected
      simpa [VaultExportViewModel.isKeyUnlocked, hstub] using hfp
    have hlookup : moved.lookup fp = (s.form.keySecrets.lookup fp).or (gpgSecure.lookup fp) := by
      rw [hmoved, if_pos hselected]
    rcases h.supplied fp hunlocked with hstub' | ⟨b, hb, hoctets⟩ | ⟨text, htext, hblank⟩
    · cases hstub.symm.trans hstub'
    · exact ⟨b, by rw [VaultExportViewModel.job, hlookup, hb, Option.some_or], hretains b hoctets⟩
    · obtain ⟨b, hb, hoctets⟩ := hbuilt fp hselected text htext hblank
      have hnone : s.form.keySecrets.lookup fp = none := by
        cases hsecret : s.form.keySecrets.lookup fp with
        | none => rfl
        | some b' => cases (h.apart fp b' hsecret).symm.trans htext
      exact ⟨b, by rw [VaultExportViewModel.job, hlookup, hnone, Option.none_or, hb], hoctets⟩
  · refine hmaster.imp id ?_
    rintro ⟨rfl, htoken⟩
    have hkeys : s.form.unlockFps ≠ [] := by
      simp only [VaultExportViewModel.tokenOnly, Bool.and_eq_true, decide_eq_true_eq] at htoken
      exact htoken.2
    exact ⟨rfl, htoken, hkeys⟩

theorem meets_buildSecure_error (keyPassphrases : AList fun _ : Str => Str) {text : Str}
    (hencode : ¬ Encodable unicode text) : ∀ (fps : List Str) (gpgSecure : AList fun _ : Str => ℕ) (s : Session),
    (fps.filterMap fun fp => keyPassphrases.lookup fp).head? = some text →
      (buildSecure unicode keyPassphrases fps gpgSecure).Meets s (fun _ _ => False) fun _ s' => s' = s
  | [], _, _, h => by simp at h
  | fp :: fps, gpgSecure, s, h => by
    cases htext : keyPassphrases.lookup fp with
    | none =>
      rw [List.filterMap_cons, htext] at h
      simp only [buildSecure, htext]
      exact meets_buildSecure_error keyPassphrases hencode fps gpgSecure s h
    | some text' =>
      rw [List.filterMap_cons, htext] at h
      obtain rfl := Option.some.inj h
      simp only [buildSecure, htext]
      rw [Program.meets_bind]
      exact (meets_secureFromText_error hencode s).mono (fun _ _ h => h.elim) fun _ _ h => h

/-- Either nothing is put into a buffer, or everything is and the job has it. -/
theorem Inv.meets_submitTo {s : Session} (h : Inv unicode s) (hcan : s.form.canSubmit = true)
    (hcautious : CautiousSubmit unicode s.form) (target : Str) :
    (submitTo unicode s.form target).Meets s (fun _ s' => Inv unicode s') fun _ s' => Inv unicode s' := by
  rw [submitTo, Program.meets_bind]
  by_cases hfirst : ∀ text ∈ s.form.texts.head?, Encodable unicode text
  · obtain ⟨hencode, hblank, hnodup⟩ := hcautious hfirst
    have hmasterEncode : s.form.tokenOnly = false → Encodable unicode s.form.masterPassphrase := fun htoken =>
      hencode _ (by simp [VaultExportViewModel.texts, htoken])
    have hkeysEncode : ∀ fp ∈ s.form.selectedFps, ∀ text, s.form.keyPassphrases.lookup fp = some text →
        Encodable unicode text := fun fp hfp text htext =>
      hencode text (List.mem_append_right _ (List.mem_filterMap.mpr ⟨fp, hfp, htext⟩))
    refine (meets_masterSecure h.kept target hmasterEncode hblank).mono ?_ fun _ _ h => h.elim
    rintro master s1 ⟨hform1, hjobs1, hretains1, hkept1, hmaster⟩
    rw [Program.meets_bind, Program.meets_modify, Program.meets_bind]
    have hbuild := meets_buildSecure s.form.selectedFps ∅
      { s1 with form := { s1.form with masterPassphrase := [], confirmPassphrase := [] } }
      hkeysEncode hnodup (fun _ _ _ _ => AList.lookup_empty _) (by rw [hjobs1, hform1]; exact hkept1)
    refine hbuild.mono ?_ fun _ _ h => h.elim
    intro gpgSecure s2 hbuilt
    rw [Program.meets_modify]
    have hretains : Retains s.buffers s2.buffers := hretains1.trans hbuilt.retains
    have hkept := hbuilt.kept
    rw [hjobs1, hform1] at hkept
    have hapart : ∀ fp b, s.form.keySecrets.lookup fp = some b → gpgSecure.lookup fp = none := fun fp b hb =>
      (hbuilt.other fp (h.apart fp b hb)).trans (AList.lookup_empty _)
    refine h.handOver (hbuilt.form_eq.trans (by rw [hform1])) (hbuilt.jobs_eq.trans hjobs1) hretains hkept hapart ?_
    refine h.provided hcan hretains ?_ hbuilt.new (moveSecrets_spec _ _ _ hapart hkept).2.2
    exact hmaster.imp (fun ⟨b, hb, hne⟩ => ⟨b, hb, hbuilt.retains b hne⟩) id
  · obtain ⟨text, hhead, hencode⟩ : ∃ text ∈ s.form.texts.head?, ¬ Encodable unicode text := by
      simpa using hfirst
    unfold masterSecure
    cases htoken : s.form.tokenOnly with
    | true =>
      simp only [if_true, Program.meets_pure]
      rw [Program.meets_bind, Program.meets_modify, Program.meets_bind]
      have hhead' : (s.form.selectedFps.filterMap fun fp => s.form.keyPassphrases.lookup fp).head? = some text := by
        simpa [VaultExportViewModel.texts, htoken] using hhead
      refine (meets_buildSecure_error _ hencode _ _ _ hhead').mono (fun _ _ h => h.elim) ?_
      rintro _ _ rfl
      exact ⟨⟨h.kept, h.apart, h.jobs⟩, h.supplied⟩
    | false =>
      obtain rfl : s.form.masterPassphrase = text := by
        simpa [VaultExportViewModel.texts, htoken] using hhead
      rw [if_neg Bool.false_ne_true, map_eq_pure_bind, Program.meets_bind]
      refine (meets_secureFromText_error hencode s).mono (fun _ _ h => h.elim) ?_
      rintro _ _ rfl
      exact h

theorem Inv.submit {s : Session} (h : Inv unicode s)
    (hcautious : s.form.canSubmit = true → CautiousSubmit unicode s.form) :
    Inv unicode ((VaultExportForm.submit unicode).after s) := by
  have hmeets : (VaultExportForm.submit unicode).Meets s (fun _ s' => Inv unicode s') fun _ s' => Inv unicode s' := by
    rw [VaultExportForm.submit, Program.meets_bind, Program.meets_get]
    cases hcan : s.form.canSubmit with
    | false =>
      simp only [hcan]
      exact h
    | true =>
      cases htarget : s.form.targetPath with
      | none =>
        simp only [hcan, htarget]
        exact h
      | some target =>
        simp only [hcan, htarget]
        exact h.meets_submitTo hcan (hcautious hcan) target
  unfold Program.Meets at hmeets
  unfold Program.after
  cases hrun : (VaultExportForm.submit unicode).run s with
  | ok a s' =>
    rw [hrun] at hmeets
    exact hmeets
  | error e s' =>
    rw [hrun] at hmeets
    exact hmeets

/-! ### Runs keep it -/

theorem Inv.step {s s' : Session} (h : Inv unicode s) : ∀ {op : Op}, Cautious unicode s op →
    s.step unicode op = some s' → Inv unicode s' := by
  intro op hcautious hstep
  cases op with
  | work i => exact h.work hstep
  | keysLoaded keys =>
    obtain rfl := Option.some.inj hstep
    refine ⟨⟨h.kept, h.apart, h.jobs⟩, ?_⟩
    intro fp hfp
    exact (h.supplied fp hfp).imp (hcautious fp hfp) id
  | setSelected fingerprints =>
    obtain rfl := Option.some.inj hstep
    exact h.setSelected fingerprints
  | setKeyPassphrase fp passphrase =>
    obtain rfl := Option.some.inj hstep
    exact h.setKeyPassphrase hcautious.1 hcautious.2
  | unlockKey fp =>
    obtain rfl := Option.some.inj hstep
    exact h.unlockKey hcautious
  | setKeySecret fp secret =>
    obtain rfl := Option.some.inj hstep
    exact h.setKeySecret hcautious
  | lockKey fp =>
    obtain rfl := Option.some.inj hstep
    exact h.lockKey fp
  | resetSecrets =>
    obtain rfl := Option.some.inj hstep
    exact h.resetSecrets
  | submit =>
    obtain rfl := Option.some.inj hstep
    exact h.submit hcautious
  | setUnlockKeys _ | setTokenOnly _ | setTargetPath _ | setMasterPassphrase _ | setConfirmPassphrase _
  | setDescription _ =>
    -- nothing that the invariant is about
    obtain rfl := Option.some.inj hstep
    exact ⟨⟨h.kept, h.apart, h.jobs⟩, h.supplied⟩

theorem inv_init : Inv unicode {} where
  kept := ⟨fun i j b hi => by cases i <;> simp [Owns] at hi, fun i b hi => by cases i <;> simp [Owns] at hi, by simp⟩
  apart := by simp
  jobs := by simp
  supplied := by simp

/-- **In every cautious run**, every call of the worker gets the passphrases that
it needs, and no secret is dropped open. -/
theorem safe_of_cautious {s : Session} (h : ((system unicode).restrict (Cautious unicode)).Reachable s) : Safe s := by
  have hinv : Inv unicode s := by
    refine h.inv ?_ ?_
    · rintro _ rfl
      exact inv_init
    · intro s op s' hs hstep
      exact hs.step hstep.1 hstep.2
  exact hinv.toBase.safe

def firstKey : Str := lit "0123456789ABCDEF0123456789ABCDEF01234567"
def secondKey : Str := lit "89ABCDEF0123456789ABCDEF0123456789ABCDEF"

/-- One key is unlocked with a passphrase, the other by a security key. -/
def exportOps : List Op :=
  [.keysLoaded [⟨firstKey, false⟩, ⟨secondKey, false⟩], .setSelected [firstKey, secondKey],
    .setTargetPath (some (lit "/backup/keys.vault")), .setKeyPassphrase firstKey (lit "correct horse"),
    .unlockKey firstKey, .setKeySecret secondKey [1, 2, 3], .setMasterPassphrase (lit "battery staple"),
    .setConfirmPassphrase (lit "battery staple"), .submit, .work 0, .resetSecrets]

theorem safe_exportOps : ∃ s, System.runLabels (System.guarded (Cautious sampleUnicode) (Session.step sampleUnicode))
    {} exportOps = some s ∧ Safe s := by
  have hrun : (System.runLabels (System.guarded (Cautious sampleUnicode) (Session.step sampleUnicode))
      {} exportOps).isSome = true := by decide +kernel
  obtain ⟨s, hs⟩ := Option.isSome_iff_exists.mp hrun
  exact ⟨s, hs, safe_of_cautious (System.reachable_restrict_of_runLabels exportOps (.init rfl) hs)⟩

/-- The key is unlocked with blanks. -/
def blankOps : List Op :=
  [.keysLoaded [⟨firstKey, false⟩], .setSelected [firstKey], .setTargetPath (some (lit "/backup/keys.vault")),
    .setKeyPassphrase firstKey (lit "   "), .unlockKey firstKey, .setMasterPassphrase (lit "battery staple"),
    .setConfirmPassphrase (lit "battery staple"), .submit, .work 0]

/-- The call gets an empty passphrase for the key. -/
theorem not_safe_blanks : ∃ s, (system sampleUnicode).Reachable s ∧ ¬ Safe s := by
  have hrun : (System.runLabels (Session.step sampleUnicode) {} blankOps).any (fun s => s.jobs.any fun job =>
      firstKey ∈ job.needed ∧ job.outcome.any fun outcome => outcome.any fun call =>
        call.gpgPassphrases = [(firstKey, [])]) = true := by decide +kernel
  obtain ⟨s, hs, hjobs⟩ := (Option.any_eq_true _ _).mp hrun
  refine ⟨s, System.reachable_of_runLabels blankOps (.init rfl) hs, ?_⟩
  intro hsafe
  obtain ⟨job, hjob, hneeded⟩ := List.any_eq_true.mp hjobs
  obtain ⟨hneeded, houtcome⟩ := of_decide_eq_true hneeded
  obtain ⟨outcome, ho, hcall⟩ := (Option.any_eq_true _ _).mp houtcome
  obtain ⟨call, rfl, hempty⟩ := (Option.any_eq_true _ _).mp hcall
  obtain ⟨call', hcall', hcomplete, -⟩ := hsafe.calls job hjob _ ho
  obtain rfl := Option.some.inj hcall'
  obtain ⟨octets, hmem, hne⟩ := hcomplete firstKey hneeded
  rw [of_decide_eq_true hempty] at hmem
  exact hne (Prod.mk.inj (List.mem_singleton.mp hmem)).2

end VaultExportForm
end GpgMeister
