/-
# A session and its settings

From the start-up configuration to the saves of the settings tab: `_resolve_gpg`
of `app.py` with its trust dialog, and `SettingsViewModel`. Each of them has a
copy of the configuration, and both write the file.

* `kept_of_samePin`: in every run in which the settings are saved only if
  nothing was accepted, or what was accepted is what the start-up
  configuration had, every file that is written carries the accepted pin.
* `kept_iff_samePin`: every other save writes an older pin.
-/
import GpgMeister.Lib.System
import GpgMeister.Services.ConfigService

namespace GpgMeister
namespace SettingsSession

/-! ### The settings tab -/

/-- `SettingsViewModel` -/
structure SettingsViewModel where
  saved : AppConfig
  pending : AppConfig

/-- `SettingsViewModel(config, paths)` -/
def SettingsViewModel.make (config : AppConfig) : SettingsViewModel := { saved := config, pending := config }

/-- The setters of `SettingsViewModel`. -/
inductive Change
  | setLocale (locale : Str)
  | setAppearance (appearance : AppearanceMode)
  | setCipher (cipher : CipherAlgorithm)
  | setKdfProfile (profile : KDFProfile)
  | setClipboardClearSeconds (secs : ℤ)
  | setBackupReminderDays (days : ℤ)
  | setHighContrast (on : Bool)
  | setReduceMotion (on : Bool)
  | setRequireDeleteTextConfirmation (on : Bool)
  | setAuditHashChain (on : Bool)

/-- What a setter makes of the pending settings. -/
def Change.apply (pending : AppConfig) : Change → AppConfig
  | .setLocale locale => { pending with locale }
  | .setAppearance appearance => { pending with appearance }
  | .setCipher cipher => { pending with cipher }
  | .setKdfProfile profile => { pending with kdfProfile := profile }
  | .setClipboardClearSeconds secs => { pending with clipboardClearSeconds := max 0 (min 3600 secs) }
  | .setBackupReminderDays days => { pending with backupReminderDays := max 1 (min 365 days) }
  | .setHighContrast on => { pending with highContrast := on }
  | .setReduceMotion on => { pending with reduceMotion := on }
  | .setRequireDeleteTextConfirmation on => { pending with requireDeleteTextConfirmation := on }
  | .setAuditHashChain on => { pending with audit := { pending.audit with hashChain := on } }

/-- No setter touches the trust pin. -/
@[simp] theorem Change.apply_trust (pending : AppConfig) (c : Change) :
    (c.apply pending).gpgBinaryTrustedHash = pending.gpgBinaryTrustedHash := by
  cases c <;> rfl

/-! ### A session -/

/-- Where the application is. -/
inductive Phase
  /-- In `_resolve_gpg`, with its own configuration. -/
  | resolving (config : AppConfig)
  /-- In the main window. -/
  | running (settings : SettingsViewModel)
  | exited

/-- A configuration that was written, and the pin that was the last accepted one. -/
structure Written where
  config : AppConfig
  accepted : Option GPGBinaryTrust
  deriving DecidableEq

structure Session where
  /-- `config` of `main` -/
  startup : AppConfig
  phase : Phase
  accepted : Option GPGBinaryTrust := none
  file : Option ConfigService.Entry
  written : List Written := []

/-- How a save ends: a call of the operating system fails before the file is
replaced, or after. -/
inductive Fault
  | none
  | before
  | after
  deriving DecidableEq

/-- What happens next. -/
inductive Label
  /-- `detect` finds a binary that is trusted. -/
  | detected
  /-- Nothing is found, the user declines, or `detect` rejects the accepted binary. -/
  | declined
  /-- The user accepts a binary in the trust dialog. -/
  | accepted (newGpg : GPGBinaryTrust) (fault : Fault)
  | change (c : Change)
  | persistLastOpenPage (page : AppPage) (fault : Fault)
  | save (fault : Fault)

/-- `config_service.save(config, path)`, and whether it returns -/
def writeConfig (s : Session) (config : AppConfig) (fault : Fault) : Session × Bool :=
  if fault = .before then (s, false)
  else
    match (ConfigService.save config).run s.file with
    | .ok () file => ({ s with file, written := ⟨config, s.accepted⟩ :: s.written }, fault = .none)
    | .error _ _ => (s, false)

def step (s : Session) (l : Label) : Option Session :=
  match s.phase, l with
  | .resolving _, .detected =>
    -- `main` goes on with its own `config`, not with the one in `_resolve_gpg`
    some { s with phase := .running (.make s.startup) }
  | .resolving _, .declined => some { s with phase := .exited }
  | .resolving config, .accepted newGpg fault =>
    let config := { config with gpgBinaryTrustedHash := some newGpg }
    let (s, ok) := writeConfig { s with accepted := some newGpg } config fault
    some { s with phase := if ok then .resolving config else .exited }
  | .running settings, .change c =>
    some { s with phase := .running { settings with pending := c.apply settings.pending } }
  | .running settings, .persistLastOpenPage page fault =>
    let saved := { settings.saved with lastOpenPage := page }
    let (s, ok) := writeConfig s saved fault
    some
      { s with
        phase := .running (if ok then ⟨saved, { settings.pending with lastOpenPage := page }⟩ else settings) }
  | .running settings, .save fault =>
    let (s, ok) := writeConfig s settings.pending fault
    some { s with phase := .running (if ok then ⟨settings.pending, settings.pending⟩ else settings) }
  | _, _ => none

/-- Sessions with any configuration and any file. -/
def sessions : System Session Label :=
  .ofStep (fun s => s.phase = .resolving s.startup ∧ s.accepted = none ∧ s.written = []) step

/-- Every file that was written after the user had accepted a binary carries the
last accepted pin. -/
def Kept (s : Session) : Prop :=
  ∀ w ∈ s.written, ∀ pin ∈ w.accepted, w.config.gpgBinaryTrustedHash = some pin

/-- The settings are saved only if nothing was accepted, or what was accepted is
what the start-up configuration had. -/
def SamePin (s : Session) : Label → Prop
  | .persistLastOpenPage _ _ | .save _ => ∀ pin ∈ s.accepted, s.startup.gpgBinaryTrustedHash = some pin
  | _ => True

instance (s : Session) (l : Label) : Decidable (SamePin s l) :=
  match l with
  | .persistLastOpenPage _ _ | .save _ =>
    inferInstanceAs (Decidable (∀ pin ∈ s.accepted, s.startup.gpgBinaryTrustedHash = some pin))
  | .detected | .declined | .accepted _ _ | .change _ => inferInstanceAs (Decidable True)

/-! ### The pin -/

/-- The copies of the settings tab have the pin of the start-up configuration. -/
def Stale (s : Session) : Prop :=
  match s.phase with
  | .running settings =>
    settings.saved.gpgBinaryTrustedHash = s.startup.gpgBinaryTrustedHash ∧
      settings.pending.gpgBinaryTrustedHash = s.startup.gpgBinaryTrustedHash
  | _ => True

/-- A save changes the file and writes that down, or changes nothing. -/
theorem writeConfig_cases (s : Session) (config : AppConfig) (fault : Fault) :
    (∃ file ok, writeConfig s config fault = ({ s with file, written := ⟨config, s.accepted⟩ :: s.written }, ok)) ∨
      writeConfig s config fault = (s, false) := by
  unfold writeConfig
  split_ifs
  · exact .inr rfl
  · split
    · exact .inl ⟨_, _, rfl⟩
    · exact .inr rfl

/-- What a step of the settings tab writes, if it writes. -/
def toWrite (settings : SettingsViewModel) : Label → Option AppConfig
  | .persistLastOpenPage page _ => some { settings.saved with lastOpenPage := page }
  | .save _ => some settings.pending
  | _ => none

theorem stale_running {s s' : Session} {settings settings' : SettingsViewModel} (hs : s.phase = .running settings)
    (hs' : s'.phase = .running settings') (hstart : s'.startup = s.startup)
    (hsaved : settings'.saved.gpgBinaryTrustedHash = settings.saved.gpgBinaryTrustedHash ∨
      settings'.saved.gpgBinaryTrustedHash = settings.pending.gpgBinaryTrustedHash)
    (hpending : settings'.pending.gpgBinaryTrustedHash = settings.pending.gpgBinaryTrustedHash) (h : Stale s) :
    Stale s' := by
  unfold Stale at h ⊢
  rw [hs] at h
  rw [hs']
  dsimp only at h ⊢
  rw [hstart, hpending]
  exact ⟨hsaved.elim (fun he => he.trans h.1) fun he => he.trans h.2, h.2⟩

/-- What a step does: in `_resolve_gpg` it may write the pin that was accepted,
and in the main window a copy of the settings. -/
theorem step_cases {s s' : Session} {l : Label} (h : step s l = some s') :
    s'.startup = s.startup ∧ (Stale s → Stale s') ∧
      (s'.written = s.written ∨
        (∃ config pin, (∃ fault, l = .accepted pin fault) ∧ config.gpgBinaryTrustedHash = some pin ∧
          s'.written = ⟨config, some pin⟩ :: s.written) ∨
        ∃ settings config, s.phase = .running settings ∧ toWrite settings l = some config ∧
          s'.written = ⟨config, s.accepted⟩ :: s.written) := by
  obtain ⟨startup, phase, accepted, file, written⟩ := s
  unfold step at h
  dsimp only at h
  split at h
  · -- the main window opens
    obtain rfl := Option.some.inj h
    exact ⟨rfl, fun _ => ⟨rfl, rfl⟩, .inl rfl⟩
  · obtain rfl := Option.some.inj h
    exact ⟨rfl, fun _ => trivial, .inl rfl⟩
  · -- a pin is accepted
    next config newGpg fault =>
    rcases writeConfig_cases { startup, phase := .resolving config, accepted := some newGpg, file, written }
        { config with gpgBinaryTrustedHash := some newGpg } fault with ⟨file', ok, hw⟩ | hw
    · rw [hw] at h
      obtain rfl := Option.some.inj h
      refine ⟨rfl, fun _ => ?_, .inr (.inl ⟨_, newGpg, ⟨fault, rfl⟩, rfl, rfl⟩)⟩
      cases ok <;> exact trivial
    · rw [hw] at h
      obtain rfl := Option.some.inj h
      exact ⟨rfl, fun _ => trivial, .inl rfl⟩
  · -- a setter
    next settings c =>
    obtain rfl := Option.some.inj h
    exact ⟨rfl, stale_running rfl rfl rfl (.inl rfl) (Change.apply_trust _ c), .inl rfl⟩
  · -- the page
    next settings page fault =>
    rcases writeConfig_cases { startup, phase := .running settings, accepted, file, written }
        { settings.saved with lastOpenPage := page } fault with ⟨file', ok, hw⟩ | hw
    · rw [hw] at h
      obtain rfl := Option.some.inj h
      refine ⟨rfl, ?_, .inr (.inr ⟨settings, _, rfl, rfl, rfl⟩)⟩
      cases ok <;> exact stale_running rfl rfl rfl (.inl rfl) rfl
    · rw [hw] at h
      obtain rfl := Option.some.inj h
      exact ⟨rfl, stale_running rfl rfl rfl (.inl rfl) rfl, .inl rfl⟩
  · -- the settings
    next settings fault =>
    rcases writeConfig_cases { startup, phase := .running settings, accepted, file, written }
        settings.pending fault with ⟨file', ok, hw⟩ | hw
    · rw [hw] at h
      obtain rfl := Option.some.inj h
      refine ⟨rfl, ?_, .inr (.inr ⟨settings, _, rfl, rfl, rfl⟩)⟩
      cases ok
      · exact stale_running rfl rfl rfl (.inl rfl) rfl
      · exact stale_running rfl rfl rfl (.inr rfl) rfl
    · rw [hw] at h
      obtain rfl := Option.some.inj h
      exact ⟨rfl, stale_running rfl rfl rfl (.inl rfl) rfl, .inl rfl⟩
  · cases h

/-- The settings tab writes the pin of the start-up configuration. -/
theorem toWrite_trust {s : Session} {settings : SettingsViewModel} {l : Label} {config : AppConfig}
    (hs : s.phase = .running settings) (h : Stale s) (hw : toWrite settings l = some config) :
    config.gpgBinaryTrustedHash = s.startup.gpgBinaryTrustedHash := by
  unfold Stale at h
  rw [hs] at h
  cases l with
  | persistLastOpenPage page fault =>
    obtain rfl := Option.some.inj hw
    exact h.1
  | save fault =>
    obtain rfl := Option.some.inj hw
    exact h.2
  | detected => cases hw
  | declined => cases hw
  | accepted newGpg fault => cases hw
  | change c => cases hw

/-- A step of the settings tab that writes is one that `SamePin` is about. -/
theorem samePin_iff_of_toWrite {s : Session} {settings : SettingsViewModel} {l : Label} {config : AppConfig}
    (h : toWrite settings l = some config) :
    SamePin s l ↔ ∀ pin ∈ s.accepted, s.startup.gpgBinaryTrustedHash = some pin := by
  cases l with
  | persistLastOpenPage page fault => exact Iff.rfl
  | save fault => exact Iff.rfl
  | detected => cases h
  | declined => cases h
  | accepted newGpg fault => cases h
  | change c => cases h

/-- One more written file. -/
theorem kept_cons {s s' : Session} {w : Written} (hk : Kept s) (hw : s'.written = w :: s.written) :
    Kept s' ↔ ∀ pin ∈ w.accepted, w.config.gpgBinaryTrustedHash = some pin := by
  unfold Kept at hk ⊢
  rw [hw]
  constructor
  · intro h
    exact h w (by simp)
  · intro h w' hw'
    rcases List.mem_cons.1 hw' with rfl | hw'
    · exact h
    · exact hk w' hw'

/-- A step that writes nothing, or the accepted pin, keeps the property; one of
the settings tab keeps it exactly when the pins agree. -/
theorem kept_iff_samePin {s s' : Session} {l : Label} (hst : Stale s) (hk : Kept s) (h : step s l = some s')
    (hw : s'.written ≠ s.written) : Kept s' ↔ SamePin s l := by
  obtain ⟨_, _, hcases⟩ := step_cases h
  rcases hcases with hsame | ⟨config, pin, ⟨fault, rfl⟩, hpin, hw'⟩ | ⟨settings, config, hs, htw, hw'⟩
  · exact absurd hsame hw
  · rw [kept_cons hk hw']
    have hall : ∀ pin' ∈ some pin, config.gpgBinaryTrustedHash = some pin' := by
      intro pin' hp
      rw [hpin]
      exact hp
    exact ⟨fun _ => trivial, fun _ => hall⟩
  · rw [kept_cons hk hw', samePin_iff_of_toWrite htw]
    show (∀ pin ∈ s.accepted, config.gpgBinaryTrustedHash = some pin) ↔ _
    rw [toWrite_trust hs hst htw]

/-- The step lemma. -/
theorem step_inv {s s' : Session} {l : Label} (h : step s l = some s') (hgood : SamePin s l)
    (hinv : Stale s ∧ Kept s) : Stale s' ∧ Kept s' := by
  obtain ⟨hst, hk⟩ := hinv
  obtain ⟨_, hst', _⟩ := step_cases h
  refine ⟨hst' hst, ?_⟩
  by_cases hw : s'.written = s.written
  · unfold Kept
    rw [hw]
    exact hk
  · exact (kept_iff_samePin hst hk h hw).2 hgood

/-- **In every session whose settings are saved only while the accepted pin is
the one of the start-up configuration, every file that is written after the user
had accepted a binary carries the last accepted pin.** -/
theorem kept_of_samePin {s : Session} (h : (sessions.restrict SamePin).Reachable s) : Kept s := by
  have hinv : Stale s ∧ Kept s := by
    refine System.Reachable.inv (P := fun s => Stale s ∧ Kept s) ?_ ?_ h
    · intro s₀ hinit
      obtain ⟨hphase, _, hwritten⟩ := hinit
      constructor
      · unfold Stale
        rw [hphase]
        trivial
      · unfold Kept
        rw [hwritten]
        intro w hmem
        cases hmem
    · intro s₀ l s₁ hP hstep
      exact step_inv hstep.2 hstep.1 hP
  exact hinv.2

/-! ### Two sessions -/

def samplePin : GPGBinaryTrust where
  path := lit "/opt/gnupg/bin/gpg"
  sha256 := lit "9f86d081"
  device := some 2049
  inode := some 1311

/-- The application starts, with no file. -/
def starting (config : AppConfig) : Session := { startup := config, phase := .resolving config, file := none }

theorem sessions_init (config : AppConfig) : sessions.init (starting config) := ⟨rfl, rfl, rfl⟩

/-- The binary had the pin already, and the user accepts it again. -/
def pinnedRun : List Label :=
  [.accepted samplePin .none, .detected, .change (.setLocale (lit "de")), .save .none,
    .persistLastOpenPage .vault .none]

theorem kept_pinnedRun : ∃ s,
    System.runLabels (System.guarded SamePin step) (starting { gpgBinaryTrustedHash := samplePin }) pinnedRun =
      some s ∧ s.written.length = 3 ∧ Kept s := by
  have hrun : ((System.runLabels (System.guarded SamePin step) (starting { gpgBinaryTrustedHash := samplePin })
      pinnedRun).any fun s => s.written.length = 3) = true := by
    decide +kernel
  obtain ⟨s, hs, hlength⟩ := (Option.any_eq_true _ _).mp hrun
  exact ⟨s, hs, of_decide_eq_true hlength, kept_of_samePin
    (System.reachable_restrict_of_runLabels _ (.init (sessions_init _)) hs)⟩

/-- The user accepts a binary, and opens another page. -/
def acceptedRun : List Label := [.accepted samplePin .none, .detected, .persistLastOpenPage .vault .none]

/-- The file then has no pin at all. -/
theorem not_kept_acceptedRun : ∃ s, sessions.Reachable s ∧ s.accepted = some samplePin ∧
    (∃ w ∈ s.written, w.accepted = some samplePin ∧ w.config.gpgBinaryTrustedHash = none) ∧ ¬ Kept s := by
  have hrun : ((System.runLabels step (starting {}) acceptedRun).any fun s =>
      s.accepted = some samplePin ∧
        ∃ w ∈ s.written, w.accepted = some samplePin ∧ w.config.gpgBinaryTrustedHash = none) = true := by
    decide +kernel
  obtain ⟨s, hs, hlast⟩ := (Option.any_eq_true _ _).mp hrun
  obtain ⟨haccepted, w, hw, hwa, hnone⟩ := of_decide_eq_true hlast
  refine ⟨s, System.reachable_of_runLabels _ (.init (sessions_init _)) hs, haccepted, ⟨w, hw, hwa, hnone⟩, ?_⟩
  intro hk
  have hpin := hk w hw samplePin hwa
  rw [hnone] at hpin
  cases hpin

end SettingsSession
end GpgMeister
