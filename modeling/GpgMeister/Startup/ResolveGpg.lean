/-
# The trust dialog at startup

`_resolve_gpg` and `_trust_and_pin_gpg` of `app.py`: where the detection fails
for a reason that the user may overrule, a dialog asks, and the binary is
pinned if the user accepts. The pin is read only for a binary outside of the
whitelist, so that accepting a whitelisted binary that is not root's ends in
the same error, which nothing catches (`resolvedOnce_iff`).
-/
import GpgMeister.Services.ConfigService
import GpgMeister.Startup.GpgDetector

namespace GpgMeister
namespace ResolveGpg

open GpgDetector
open FolderService (slash nameOf)

/-- What the dialog shows. -/
structure Prompt where
  path : PosixPath
  newSha : Str
  mismatch : Bool
  oldSha : Option Str
  deriving DecidableEq

/-- Why the application does not start. -/
inductive Stop
  /-- `_fail_startup` -/
  | failStartup (title message : Str)
  | declined
  | raised (f : Failure)
  | save (e : ConfigService.Error)
  /-- The loop goes on. -/
  | running
  deriving DecidableEq

/-- The dialogs so far, and how those to come are answered; the configuration
file, and which of the calls to come fail with which exception when it is
saved. -/
structure Startup where
  prompts : List Prompt := []
  answers : ℕ → Bool
  configFile : Option ConfigService.Entry := none
  saveFaults : ℕ → Option Exc := fun _ => none

/-- `dlg.exec()` -/
def askUser (prompt : Prompt) : Program Startup Stop Bool := fun s =>
  .ok (s.answers 0) { s with prompts := s.prompts ++ [prompt], answers := fun n => s.answers (n + 1) }

/-- `config_service.save` -/
def saveConfig (config : AppConfig) : Program Startup Stop Unit := fun s =>
  let s' := { s with saveFaults := fun n => s.saveFaults (n + 1) }
  match s.saveFaults 0 with
  | some e => .error (.raised (.exc e)) s'
  | none =>
    match (ConfigService.save config).run s.configFile with
    | .ok () file => .ok () { s' with configFile := file }
    | .error e file => .error (.save e) { s' with configFile := file }

/-- The pin in the configuration. -/
def pinOf (trust : Option GPGBinaryTrust) : TrustPin where
  hash := trust.map (·.sha256)
  path := trust.map (·.path)
  device := trust.bind (·.device)
  inode := trust.bind (·.inode)

def interactiveReasons : List DetectionReason :=
  [.userOverrideUntrusted, .hashMismatch, .identityMismatch, .notRootOwned]

/-- `GPGBinaryTrust(…)` of a binary that was detected -/
def trustOf (gpg : DetectedGPG) : GPGBinaryTrust where
  path := gpg.path.text
  sha256 := gpg.sha256
  device := gpg.device
  inode := gpg.inode

variable (host : Host)

/-- `_trust_and_pin_gpg`, for an exception with this path and this hash -/
def trustAndPinGpg (exc : GPGDetectionError) (path : PosixPath) (newSha : Str) (config : AppConfig) :
    Program Startup Stop AppConfig := do
  let accepted ← askUser
    { path, newSha
      mismatch := exc.reason ∈ [DetectionReason.hashMismatch, .identityMismatch]
      oldSha := config.gpgBinaryTrustedHash.map (·.sha256) }
  if accepted then
    let newGpg ← Program.ofExcept
      ((detect host (some path.text) { hash := some newSha, path := some path.text }).mapError .raised)
    saveConfig { config with gpgBinaryTrustedHash := some (trustOf newGpg) }
    return { config with gpgBinaryTrustedHash := some (trustOf newGpg) }
  else
    Program.raise .declined

/-- `_resolve_gpg`, with so many rounds of its loop. -/
def resolveGpg : ℕ → AppConfig → Program Startup Stop DetectedGPG
  | 0, _ => Program.raise .running
  | rounds + 1, config =>
    match detect host config.gpgBinaryPath (pinOf config.gpgBinaryTrustedHash) with
    | .ok gpg => pure gpg
    | .error (.exc e) => Program.raise (.raised (.exc e))
    | .error (.detection exc) =>
      if exc.reason ∈ interactiveReasons then
        match exc.path, exc.newSha with
        | some path, some newSha => do
          let config ← trustAndPinGpg host exc path newSha config
          resolveGpg rounds config
        | _, _ => Program.raise (.failStartup (lit "GnuPG trust failed") exc.message)
      else
        Program.raise (.failStartup (lit "GnuPG not found")
          (lit "GPG Meister needs GnuPG installed on this computer, but none was found.\n\n" ++
            lit "Detail: " ++ exc.message))

/-! ### Paths -/

section Paths

variable {path : PosixPath}

theorem text_of_canonical (h : path.Canonical) : path.text = slash :: nameOf path.tail := by
  unfold PosixPath.text
  rw [h.root, if_neg (by simp)]
  rfl

/-- A canonical path is read back from its text. -/
theorem ofText_text (h : path.Canonical) : PosixPath.ofText path.text = path := by
  rw [text_of_canonical h]
  have hroot : ¬ [slash, slash].isPrefixOf (slash :: nameOf path.tail) = true := by
    have hrel : FolderService.isAbsolute (nameOf path.tail) = false := FolderService.isAbsolute_nameOf h.names
    unfold FolderService.isAbsolute at hrel
    cases hname : nameOf path.tail with
    | nil => decide
    | cons c rest =>
      rw [hname] at hrel
      have hc : c ≠ slash := by simpa using hrel
      simp [hc.symm]
  have htail : FolderService.relativeParts (slash :: nameOf path.tail) = path.tail := by
    have hcons : FolderService.relativeParts (slash :: nameOf path.tail) =
        FolderService.relativeParts (nameOf path.tail) := by
      unfold FolderService.relativeParts List.splitOn
      rw [List.splitOnP_cons_eq_if_modifyHead, if_pos (by simp)]
      simp
    rw [hcons]
    by_cases hnil : path.tail = []
    · rw [hnil]
      decide
    · exact FolderService.relativeParts_nameOf hnil h.names
  have habsolute : FolderService.isAbsolute (slash :: nameOf path.tail) = true := by simp [FolderService.isAbsolute]
  unfold PosixPath.ofText
  rw [if_pos habsolute, if_neg fun h => hroot h.1, htail, ← h.root]

end Paths

/-! ### The steps of a round -/

section Rounds

variable {host} {config config' : AppConfig} {exc : GPGDetectionError} {path : PosixPath} {sha : Str} {s s' : Startup}

/-- The settings can be saved. -/
def CanSave (config : AppConfig) (s : Startup) : Prop :=
  s.saveFaults 0 = none ∧ ∃ file, (ConfigService.save config).run s.configFile = .ok () file

theorem canSave_of_run (h : (saveConfig config).run s = .ok () s') : CanSave config s ∧ s'.prompts = s.prompts := by
  simp only [EStateM.run, saveConfig] at h
  cases hfault : s.saveFaults 0 with
  | some e => simp [hfault] at h
  | none =>
    cases hsave : ConfigService.save config s.configFile with
    | error e file => simp [hfault, hsave] at h
    | ok u file =>
      simp only [hfault, hsave, EStateM.Result.ok.injEq, true_and] at h
      exact ⟨⟨hfault, file, hsave⟩, by rw [← h]⟩

theorem CanSave.run (h : CanSave config s) : ∃ s', (saveConfig config).run s = .ok () s' ∧ s'.prompts = s.prompts := by
  obtain ⟨hfault, file, hsave⟩ := h
  simp only [EStateM.run] at hsave
  refine ⟨{ s with saveFaults := fun n => s.saveFaults (n + 1), configFile := file }, ?_, rfl⟩
  simp only [EStateM.run, saveConfig, hfault, hsave]

/-- The dialog of a round. -/
def promptOf (exc : GPGDetectionError) (path : PosixPath) (newSha : Str) (config : AppConfig) : Prompt where
  path := path
  newSha := newSha
  mismatch := exc.reason ∈ [DetectionReason.hashMismatch, .identityMismatch]
  oldSha := config.gpgBinaryTrustedHash.map (·.sha256)

/-- The state after the dialog. -/
def Startup.asked (s : Startup) (prompt : Prompt) : Startup :=
  { s with prompts := s.prompts ++ [prompt], answers := fun n => s.answers (n + 1) }

/-- The detection with the new pin. -/
def redetect (host : Host) (path : PosixPath) (sha : Str) : Except Failure DetectedGPG :=
  detect host (some path.text) { hash := some sha, path := some path.text }

theorem run_trustAndPinGpg_of_error {f : Failure} (haccept : s.answers 0 = true)
    (h : redetect host path sha = .error f) :
    (trustAndPinGpg host exc path sha config).run s = .error (.raised f) (s.asked (promptOf exc path sha config)) := by
  unfold redetect at h
  rw [trustAndPinGpg, EStateM.run_bind]
  simp only [EStateM.run, askUser, haccept, if_true, h]
  rfl

theorem run_trustAndPinGpg_eq_ok {gpg : DetectedGPG} (haccept : s.answers 0 = true)
    (h : redetect host path sha = .ok gpg) :
    (trustAndPinGpg host exc path sha config).run s = .ok config' s' ↔
      config' = { config with gpgBinaryTrustedHash := some (trustOf gpg) } ∧
        (saveConfig { config with gpgBinaryTrustedHash := some (trustOf gpg) }).run
          (s.asked (promptOf exc path sha config)) = .ok () s' := by
  have hrun : (trustAndPinGpg host exc path sha config).run s =
      (saveConfig { config with gpgBinaryTrustedHash := some (trustOf gpg) } >>= fun _ =>
        pure { config with gpgBinaryTrustedHash := some (trustOf gpg) }).run
          (s.asked (promptOf exc path sha config)) := by
    unfold redetect at h
    rw [trustAndPinGpg, EStateM.run_bind]
    simp only [EStateM.run, askUser, haccept, if_true, h]
    rfl
  rw [hrun, Program.run_bind_eq_ok]
  constructor
  · rintro ⟨u, s1, hsave, hpure⟩
    obtain ⟨rfl, rfl⟩ := Program.run_pure_eq_ok.mp hpure
    exact ⟨rfl, hsave⟩
  · rintro ⟨rfl, hsave⟩
    exact ⟨(), s', hsave, Program.run_pure_eq_ok.mpr ⟨rfl, rfl⟩⟩

/-- A round in which the dialog is shown. -/
theorem run_resolveGpg_of_refused {pinned : TrustPin} (hpinned : pinned = pinOf config.gpgBinaryTrustedHash)
    (hdetect : detect host config.gpgBinaryPath pinned = .error (.detection exc))
    (hreason : exc.reason ∈ interactiveReasons) (hrefused : Refused host exc path sha) (rounds : ℕ) :
    (resolveGpg host (rounds + 1) config).run s =
      (trustAndPinGpg host exc path sha config >>= resolveGpg host rounds).run s := by
  subst hpinned
  rw [resolveGpg, hdetect]
  simp only [if_pos hreason, hrefused.place, hrefused.newSha]

theorem not_early (h : exc.reason ∈ interactiveReasons) : exc.reason ∉ earlyReasons := by
  unfold interactiveReasons at h
  unfold earlyReasons
  cases hr : exc.reason <;> rw [hr] at h <;> first | decide | exact absurd h (by decide)

/-- A checked file is looked up under the text of its path. -/
theorem redetect_eq {p : PosixPath} (h : Checked host p path sha) :
    redetect host path sha = detectUserOverride host path { hash := some sha, path := some path.text } := by
  have hcanonical := host.resolve_canonical (canonicalise_eq_ok h.resolved)
  have htext := ofText_text hcanonical
  rw [text_of_canonical hcanonical] at htext
  unfold redetect
  rw [text_of_canonical hcanonical]
  show detectUserOverride host (.ofText (slash :: nameOf path.tail)) _ = _
  rw [htext]

/-- The settings with a pin of the file. -/
def pinnedConfig (host : Host) (path : PosixPath) (sha : Str) (config : AppConfig) : AppConfig :=
  { config with
    gpgBinaryTrustedHash := some
      { path := path.text
        sha256 := sha
        device := (host.stat path).toOption.map (·.dev)
        inode := (host.stat path).toOption.map (·.ino) } }

/-- The loop returns a binary after one dialog. -/
def ResolvedOnce (host : Host) (config : AppConfig) (s : Startup) : Prop :=
  ∃ rounds gpg s' prompt, (resolveGpg host rounds config).run s = .ok gpg s' ∧ s'.prompts = s.prompts ++ [prompt]

/-- A file outside of the whitelist is detected once its pin is saved. -/
theorem resolvedOnce_of_canSave {p : PosixPath} (hchecked : Checked host p path sha)
    (hrefused : Refused host exc path sha) (hlisted : path ∉ platformWhitelist host)
    (hdetect : detect host config.gpgBinaryPath (pinOf config.gpgBinaryTrustedHash) = .error (.detection exc))
    (hreason : exc.reason ∈ interactiveReasons) (haccept : s.answers 0 = true)
    (hchosen : ∃ c text, config.gpgBinaryPath = some (c :: text) ∧ p = .ofText (c :: text)) :
    ResolvedOnce host config s ↔ CanSave (pinnedConfig host path sha config) s := by
  obtain ⟨st, hst⟩ := hchecked.stat
  have hcanonical := host.resolve_canonical (canonicalise_eq_ok hchecked.resolved)
  have hresolve : host.resolve (.ofText path.text) = .ok path := by
    rw [ofText_text hcanonical, host.resolve_resolve (canonicalise_eq_ok hchecked.resolved)]
  have hdiffer (a : ℤ) : differ (some a) (some a) = false := by simp [differ]
  have hredetect : ∃ gpg, redetect host path sha = .ok gpg ∧
      { config with gpgBinaryTrustedHash := some (trustOf gpg) } = pinnedConfig host path sha config := by
    rw [redetect_eq hchecked, accepted_of_checked hchecked.again hlisted hst rfl rfl hresolve rfl rfl]
    exact ⟨_, rfl, by simp [pinnedConfig, trustOf, hst, Except.toOption]⟩
  obtain ⟨gpg, hredetect, hpinned⟩ := hredetect
  have htrust {config' : AppConfig} {s' : Startup} :
      (trustAndPinGpg host exc path sha config).run s = .ok config' s' ↔
        config' = pinnedConfig host path sha config ∧
          (saveConfig (pinnedConfig host path sha config)).run (s.asked (promptOf exc path sha config)) =
            .ok () s' := by
    rw [run_trustAndPinGpg_eq_ok haccept hredetect, hpinned]
  constructor
  · rintro ⟨_ | rounds, gpg', s', prompt, hrun, -⟩
    · cases hrun
    · rw [run_resolveGpg_of_refused rfl hdetect hreason hrefused, Program.run_bind_eq_ok] at hrun
      obtain ⟨config', s1, hrun1, -⟩ := hrun
      exact (canSave_of_run (htrust.mp hrun1).2).1
  · intro hsave
    have hsave' : CanSave (pinnedConfig host path sha config) (s.asked (promptOf exc path sha config)) := hsave
    obtain ⟨s', hrun, hprompts⟩ := hsave'.run
    have hfound : ∃ gpg', detect host (pinnedConfig host path sha config).gpgBinaryPath
        (pinOf (pinnedConfig host path sha config).gpgBinaryTrustedHash) = .ok gpg' := by
      obtain ⟨c, text, htext, rfl⟩ := hchosen
      have hpath : (pinnedConfig host path sha config).gpgBinaryPath = some (c :: text) := htext
      rw [hpath]
      refine ⟨_, accepted_of_checked hchecked hlisted hst rfl rfl hresolve ?_ ?_⟩
      · simpa [pinOf, pinnedConfig, hst, Except.toOption] using hdiffer st.dev
      · simpa [pinOf, pinnedConfig, hst, Except.toOption] using hdiffer st.ino
    obtain ⟨gpg', hfound⟩ := hfound
    refine ⟨2, gpg', s', _, ?_, hprompts⟩
    rw [run_resolveGpg_of_refused rfl hdetect hreason hrefused, Program.run_bind_eq_ok]
    refine ⟨_, s', htrust.mpr ⟨rfl, hrun⟩, ?_⟩
    rw [resolveGpg, hfound]
    rfl

/-- A whitelisted file that is not root's is refused again. -/
theorem not_resolvedOnce {p : PosixPath} (hchecked : Checked host p path sha) (hrefused : Refused host exc path sha)
    (hlisted : path ∈ platformWhitelist host)
    (hdetect : detect host config.gpgBinaryPath (pinOf config.gpgBinaryTrustedHash) = .error (.detection exc))
    (hreason : exc.reason ∈ interactiveReasons) (haccept : s.answers 0 = true) : ¬ ResolvedOnce host config s := by
  obtain ⟨exc', hagain⟩ := not_accepted_of_checked hchecked.again hlisted (hrefused.owner hlisted)
  have herror : (trustAndPinGpg host exc path sha config).run s = _ :=
    run_trustAndPinGpg_of_error haccept ((redetect_eq hchecked).trans hagain)
  rintro ⟨_ | rounds, gpg, s', prompt, hrun, -⟩
  · cases hrun
  · rw [run_resolveGpg_of_refused rfl hdetect hreason hrefused, Program.run_bind_eq_ok] at hrun
    obtain ⟨config', s1, hrun1, -⟩ := hrun
    rw [herror] at hrun1
    cases hrun1

/-- **After one accepted dialog the binary is returned** exactly if it is not
the owner that is wrong, and the pin can be saved. -/
theorem resolvedOnce_iff
    (hdetect : detect host config.gpgBinaryPath (pinOf config.gpgBinaryTrustedHash) = .error (.detection exc))
    (hreason : exc.reason ∈ interactiveReasons) (haccept : s.answers 0 = true) :
    ResolvedOnce host config s ↔ exc.reason ≠ .notRootOwned ∧
      ∃ path sha, exc.path = some path ∧ exc.newSha = some sha ∧ CanSave (pinnedConfig host path sha config) s := by
  obtain ⟨p, path, sha, hchecked, hrefused, hchosen⟩ := refused_of_detect (not_early hreason) hdetect
  by_cases hlisted : path ∈ platformWhitelist host
  · exact iff_of_false (not_resolvedOnce hchecked hrefused hlisted hdetect hreason haccept)
      fun h => h.1 (hrefused.reason.mpr hlisted)
  · rw [resolvedOnce_of_canSave hchecked hrefused hlisted hdetect hreason haccept (hchosen hlisted)]
    constructor
    · intro hsave
      exact ⟨fun h => hlisted (hrefused.reason.mp h), path, sha, hrefused.place, hrefused.newSha, hsave⟩
    · rintro ⟨-, path', sha', hplace, hsha, hsave⟩
      obtain rfl := Option.some.inj (hrefused.place.symm.trans hplace)
      obtain rfl := Option.some.inj (hrefused.newSha.symm.trans hsha)
      exact hsave

end Rounds

/-! ### Two hosts -/

/-- How a detection ended that refused a file. -/
def refusal : Except Failure DetectedGPG → Option (DetectionReason × Option PosixPath × Option Str)
  | .error (.detection exc) => some (exc.reason, exc.path, exc.newSha)
  | .error (.exc _) | .ok _ => none

theorem exists_of_refusal {r : Except Failure DetectedGPG} {reason : DetectionReason} {path : Option PosixPath}
    {sha : Option Str} (h : refusal r = some (reason, path, sha)) :
    ∃ exc, r = .error (.detection exc) ∧ exc.reason = reason ∧ exc.path = path ∧ exc.newSha = sha := by
  rcases r with ⟨exc⟩ | gpg
  · cases exc with
    | detection exc =>
      simp only [refusal, Option.some.injEq, Prod.mk.injEq] at h
      exact ⟨exc, rfl, h⟩
    | exc e => cases h
  · cases h

/-- The user has chosen `/opt/gpg`. -/
def chosenConfig : AppConfig := { gpgBinaryPath := some (lit "/opt/gpg") }

def willingUser : Startup where
  answers := fun _ => true

/-- The chosen binary is pinned and returned. -/
theorem resolvedOnce_chosen : ResolvedOnce sampleHost chosenConfig willingUser := by
  have hrefusal : refusal (detect sampleHost chosenConfig.gpgBinaryPath (pinOf chosenConfig.gpgBinaryTrustedHash)) =
      some (.userOverrideUntrusted, some samplePath, some (lit "e3")) := by decide +kernel
  obtain ⟨exc, hdetect, hreason, hpath, hsha⟩ := exists_of_refusal hrefusal
  have hsave : (match (ConfigService.save (pinnedConfig sampleHost samplePath (lit "e3") chosenConfig)).run none with
      | .ok _ _ => true
      | .error _ _ => false) = true := by decide +kernel
  refine (resolvedOnce_iff hdetect (by rw [hreason]; decide) rfl).mpr
    ⟨by rw [hreason]; decide, samplePath, lit "e3", hpath, hsha, rfl, ?_⟩
  show ∃ file, (ConfigService.save (pinnedConfig sampleHost samplePath (lit "e3") chosenConfig)).run none = .ok () file
  cases hrun : (ConfigService.save (pinnedConfig sampleHost samplePath (lit "e3") chosenConfig)).run none with
  | ok u file => exact ⟨file, rfl⟩
  | error e file =>
    rw [hrun] at hsave
    cases hsave

def gpgPath : PosixPath := .ofText (lit "/usr/bin/gpg")

theorem gpgPath_canonical : gpgPath.Canonical := by
  have hpath : gpgPath = ⟨[slash], [lit "usr", lit "bin", lit "gpg"]⟩ := by decide +kernel
  rw [hpath]
  refine ⟨rfl, fun name hname => ?_⟩
  simp only [List.mem_cons, List.not_mem_nil, or_false] at hname
  rcases hname with rfl | rfl | rfl
  · exact ⟨⟨lit "usr", by decide, by decide, by decide, by decide, by decide⟩, rfl⟩
  · exact ⟨⟨lit "bin", by decide, by decide, by decide, by decide, by decide⟩, rfl⟩
  · exact ⟨⟨lit "gpg", by decide, by decide, by decide, by decide, by decide⟩, rfl⟩

/-- A host on which `/usr/bin/gpg` is a user's. -/
def userOwnedHost : Host where
  darwin := false
  stat := fun _ => .ok { mode := 0o755, uid := 1000, dev := 1, ino := 2 }
  fileExists := fun p => .ok (p = gpgPath)
  resolve := fun p => if p = gpgPath then .ok gpgPath else .error { cls := .fileNotFoundError, message := [] }
  readBytes := fun _ => .ok []
  sha256 := fun _ => lit "e3"
  lower := id
  resolve_canonical := by
    intro p q h
    split_ifs at h
    obtain rfl := Except.ok.inj h
    exact gpgPath_canonical
  resolve_resolve := by
    intro p q h
    split_ifs at h
    obtain rfl := Except.ok.inj h
    exact if_pos rfl

/-- The dialog is shown for it, and the application does not start although the
user accepts. -/
theorem not_resolvedOnce_userOwned : ∃ exc, detect userOwnedHost none (pinOf none) = .error (.detection exc) ∧
    exc.reason ∈ interactiveReasons ∧ ¬ ResolvedOnce userOwnedHost {} willingUser := by
  have hrefusal : refusal (detect userOwnedHost none (pinOf none)) =
      some (.notRootOwned, some gpgPath, some (lit "e3")) := by decide +kernel
  obtain ⟨exc, hdetect, hreason, -, -⟩ := exists_of_refusal hrefusal
  have hinteractive : exc.reason ∈ interactiveReasons := by
    rw [hreason]
    decide
  obtain ⟨p, path, sha, hchecked, hrefused, -⟩ := refused_of_detect (not_early hinteractive) hdetect
  exact ⟨exc, hdetect, hinteractive,
    not_resolvedOnce hchecked hrefused (hrefused.reason.mp hreason) hdetect hinteractive rfl⟩

end ResolveGpg
end GpgMeister
