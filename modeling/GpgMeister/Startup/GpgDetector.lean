/-
# The GnuPG binary

`startup/gpg_detector.py`, on POSIX: `detect` resolves a binary and decides
whether it is trusted. Every way to a binary ends in one of two acceptances,
and `Trusted` is what both have checked: the file and all directories above it
are written by their owner alone, and the file is at a whitelisted path and
root's, or the one that is pinned (`trusted_of_detect`).
-/
import GpgMeister.Lib.MapM
import GpgMeister.Services.FolderArchive

namespace GpgMeister
namespace GpgDetector

open FolderService (slash dot isAbsolute relativeParts nameOf IsName)

/-! ### Paths and files -/

/-- A `PosixPath`: its root and its parts. -/
structure PosixPath where
  root : Str
  tail : List Str
  deriving DecidableEq

namespace PosixPath

/-- `Path(text)`; two slashes in front are a root of their own. -/
def ofText (text : Str) : PosixPath where
  root :=
    if isAbsolute text then
      if [slash, slash].isPrefixOf text ∧ ¬ [slash, slash, slash].isPrefixOf text then [slash, slash] else [slash]
    else []
  tail := relativeParts text

/-- `str(path)` -/
def text (path : PosixPath) : Str :=
  if path.root = [] ∧ path.tail = [] then [dot] else path.root ++ nameOf path.tail

def parent (path : PosixPath) : PosixPath := { path with tail := path.tail.dropLast }

/-- An absolute path, as `realpath` gives it. -/
structure Canonical (path : PosixPath) : Prop where
  root : path.root = [slash]
  names : ∀ name ∈ path.tail, IsName name

end PosixPath

/-- What `stat` tells. -/
structure Stat where
  mode : ℕ
  uid : ℕ
  dev : ℤ
  ino : ℤ

/-- The file system, `hexdigest` of a SHA-256, and `str.lower`. A path that was
resolved is canonical, and resolves to itself. -/
structure Host where
  darwin : Bool
  stat : PosixPath → Except Exc Stat
  fileExists : PosixPath → Except Exc Bool
  resolve : PosixPath → Except Exc PosixPath
  readBytes : PosixPath → Except Exc Bytes
  sha256 : Bytes → Str
  lower : Str → Str
  resolve_canonical : ∀ {p q}, resolve p = .ok q → q.Canonical
  resolve_resolve : ∀ {p q}, resolve p = .ok q → resolve q = .ok q

/-! ### The detector -/

def linuxWhitelist : List PosixPath :=
  [lit "/usr/bin/gpg", lit "/usr/bin/gpg2", lit "/usr/local/bin/gpg", lit "/usr/local/bin/gpg2", lit "/bin/gpg",
    lit "/snap/bin/gpg", lit "/app/bin/gpg", lit "/app/bin/gpg2"].map PosixPath.ofText

def macosWhitelist : List PosixPath :=
  [lit "/usr/local/bin/gpg", lit "/usr/local/bin/gpg2", lit "/opt/homebrew/bin/gpg", lit "/opt/homebrew/bin/gpg2",
    lit "/usr/local/MacGPG2/bin/gpg2"].map PosixPath.ofText

inductive DetectionReason
  | notFound
  | whitelisted
  | userOverrideTrusted
  | userOverrideUntrusted
  | hashMismatch
  | worldWritable
  | parentWritable
  | trustPathMismatch
  | identityMismatch
  | notRootOwned
  deriving DecidableEq

structure GPGDetectionError where
  reason : DetectionReason
  message : Str
  path : Option PosixPath := none
  newSha : Option Str := none
  deriving DecidableEq

structure DetectedGPG where
  path : PosixPath
  sha256 : Str
  isWhitelisted : Bool
  isRootOwned : Bool
  device : Option ℤ := none
  inode : Option ℤ := none
  deriving DecidableEq

/-- What a detection raises: its own error, or what the operating system raised. -/
inductive Failure
  | detection (e : GPGDetectionError)
  | exc (e : Exc)
  deriving DecidableEq

/-- The pin of a detection, with what is missing. -/
structure TrustPin where
  hash : Option Str := none
  path : Option Str := none
  device : Option ℤ := none
  inode : Option ℤ := none

section Detector

variable (host : Host)

def platformWhitelist : List PosixPath := if host.darwin then macosWhitelist else linuxWhitelist

def isWorldOrGroupWritable (path : PosixPath) : Except Failure Bool := do
  let st ← (host.stat path).mapError .exc
  return st.mode &&& (0o020 ||| 0o002) ≠ 0

def hashFile (path : PosixPath) : Except Failure Str := do
  let data ← (host.readBytes path).mapError .exc
  return host.sha256 data

def canonicalise (path : PosixPath) : Except Failure PosixPath :=
  match host.resolve path with
  | .ok canonical => .ok canonical
  | .error e =>
    if e.isA [.fileNotFoundError, .osError] then
      .error (.detection
        { reason := .notFound
          message := lit "cannot resolve " ++ path.text ++ lit ": " ++ e.message })
    else .error (.exc e)

def checkWritability (path : PosixPath) : Except Failure Unit := do
  if ← isWorldOrGroupWritable host path then
    .error (.detection
      { reason := .worldWritable
        message := lit "GPG binary " ++ path.text ++ lit " is group- or world-writable — refusing to execute" })

def checkDirectory (current : PosixPath) : Except Failure Unit := do
  if ← isWorldOrGroupWritable host current then
    .error (.detection
      { reason := .parentWritable
        message := lit "GPG parent directory " ++ current.text ++ lit " is group- or world-writable" })

/-- The loop of `_check_parent_writability`, on the parts of the directory from
its name up. -/
def checkUpwards (root : Str) : List Str → Except Failure Unit
  | [] => checkDirectory host ⟨root, []⟩
  | name :: above => do
    checkDirectory host ⟨root, (name :: above).reverse⟩
    checkUpwards root above

def checkParentWritability (path : PosixPath) : Except Failure Unit :=
  checkUpwards host path.root path.parent.tail.reverse

def checkRootOwned (path : PosixPath) : Except Failure Bool :=
  match host.stat path with
  | .ok st => .ok (st.uid = 0)
  | .error e => if e.isA [.osError] then .ok false else .error (.exc e)

def identity (path : PosixPath) : Except Failure (Option ℤ × Option ℤ) :=
  match host.stat path with
  | .ok st => .ok (some st.dev, some st.ino)
  | .error e => if e.isA [.osError] then .ok (none, none) else .error (.exc e)

def acceptWhitelisted (path : PosixPath) (sha : Str) : Except Failure DetectedGPG := do
  let (device, inode) ← identity host path
  let isRootOwned ← checkRootOwned host path
  if isRootOwned then
    return { path, sha256 := sha, isWhitelisted := true, isRootOwned, device, inode }
  else
    .error (.detection
      { reason := .notRootOwned
        message := path.text ++ lit " is at a whitelisted path but is not owned by root — " ++
          lit "this may indicate binary substitution"
        path := some path
        newSha := some sha })

/-- Both are known, and differ. -/
def differ (actual trusted : Option ℤ) : Bool :=
  match trusted, actual with
  | some t, some a => a ≠ t
  | _, _ => false

/-- `str` of an identifier that may be missing -/
def optionText : Option ℤ → Str
  | some i => Json.intText i
  | none => lit "None"

def verifyTrustPin (override : PosixPath) (sha : Str) (device inode : Option ℤ) (pin : TrustPin) :
    Except Failure Unit :=
  let fail (reason : DetectionReason) (message : Str) : Except Failure Unit :=
    .error (.detection { reason, message, path := some override, newSha := some sha })
  match pin.hash with
  | none =>
    fail .userOverrideUntrusted
      (override.text ++ lit " is not in the standard whitelist and has no trusted hash")
  | some trustedHash =>
    match pin.path with
    | none => fail .trustPathMismatch (override.text ++ lit " has a trusted hash but no trusted path binding")
    | some trustedPath => do
      let trustedCanonical ← canonicalise host (.ofText trustedPath)
      if trustedCanonical ≠ override then
        fail .trustPathMismatch (override.text ++ lit " does not match trusted path " ++ trustedCanonical.text)
      else if host.lower trustedHash ≠ host.lower sha then
        fail .hashMismatch (override.text ++ lit " hash mismatch — refusing to execute")
      else if differ device pin.device then
        fail .identityMismatch
          (override.text ++ lit " device mismatch (trusted=" ++ optionText pin.device ++ lit ", actual=" ++
            optionText device ++ lit ")")
      else if differ inode pin.inode then
        fail .identityMismatch
          (override.text ++ lit " inode mismatch (trusted=" ++ optionText pin.inode ++ lit ", actual=" ++
            optionText inode ++ lit ")")
      else .ok ()

/-- `_detect_user_override`; `os.path.normpath` leaves the whitelist as it is. -/
def detectUserOverride (overridePath : PosixPath) (pin : TrustPin) : Except Failure DetectedGPG := do
  let override ← canonicalise host overridePath
  checkWritability host override
  checkParentWritability host override
  let sha ← hashFile host override
  if override ∈ platformWhitelist host then
    acceptWhitelisted host override sha
  else
    let (device, inode) ← identity host override
    verifyTrustPin host override sha device inode pin
    let isRootOwned ← checkRootOwned host override
    return { path := override, sha256 := sha, isWhitelisted := false, isRootOwned, device, inode }

/-- The loop of `_detect_from_whitelist` -/
def detectFrom : List PosixPath → Except Failure DetectedGPG
  | [] => .error (.detection { reason := .notFound, message := lit "no GPG binary found in the platform whitelist" })
  | entry :: entries => do
    if ← (host.fileExists entry).mapError .exc then
      let canonical ← canonicalise host entry
      if canonical ∈ platformWhitelist host then
        checkWritability host canonical
        checkParentWritability host canonical
        acceptWhitelisted host canonical (← hashFile host canonical)
      else
        -- The entry is a link that leads out of the whitelist.
        detectFrom entries
    else
      detectFrom entries

def detectFromWhitelist : Except Failure DetectedGPG := detectFrom host (platformWhitelist host)

/-- `detect`; an empty path is none. -/
def detect (userOverridePath : Option Str) (pin : TrustPin) : Except Failure DetectedGPG :=
  match userOverridePath with
  | some (c :: path) => detectUserOverride host (.ofText (c :: path)) pin
  | some [] | none => detectFromWhitelist host

end Detector

/-! ### What is checked -/

/-- Neither the group nor others may write. -/
def Guarded (host : Host) (path : PosixPath) : Prop :=
  ∃ st, host.stat path = .ok st ∧ st.mode &&& (0o020 ||| 0o002) = 0

/-- The binary is the one that is pinned; a hash is hexadecimal, in either
case. -/
structure Pinned (host : Host) (pin : TrustPin) (path : PosixPath) : Prop where
  place : ∃ trustedPath, pin.path = some trustedPath ∧ host.resolve (.ofText trustedPath) = .ok path
  hash : ∃ trustedHash data, pin.hash = some trustedHash ∧ host.readBytes path = .ok data ∧
    host.lower trustedHash = host.lower (host.sha256 data)
  device : ∀ st device, host.stat path = .ok st → pin.device = some device → st.dev = device
  inode : ∀ st inode, host.stat path = .ok st → pin.inode = some inode → st.ino = inode

structure Trusted (host : Host) (pin : TrustPin) (path : PosixPath) : Prop where
  canonical : ∃ p, host.resolve p = .ok path
  file : Guarded host path
  above : ∀ names, names <+: path.tail.dropLast → Guarded host ⟨path.root, names⟩
  approved : (path ∈ platformWhitelist host ∧ ∃ st, host.stat path = .ok st ∧ st.uid = 0) ∨ Pinned host pin path

section Checks

variable {host : Host} {path : PosixPath} {pin : TrustPin}

theorem canonicalise_eq_ok {canonical : PosixPath} (h : canonicalise host path = .ok canonical) :
    host.resolve path = .ok canonical := by
  unfold canonicalise at h
  cases hr : host.resolve path with
  | ok q =>
    simp only [hr] at h
    rw [Except.ok.inj h]
  | error e =>
    simp only [hr] at h
    split_ifs at h

theorem guarded_of_not_writable (h : isWorldOrGroupWritable host path = .ok false) : Guarded host path := by
  obtain ⟨st, hst, h⟩ := bind_eq_ok h
  cases hstat : host.stat path with
  | error e =>
    rw [hstat] at hst
    cases hst
  | ok st' =>
    rw [hstat] at hst
    obtain rfl := Except.ok.inj hst
    exact ⟨st', hstat, by simpa using Except.ok.inj h⟩

theorem guarded_of_checkWritability (h : checkWritability host path = .ok ()) : Guarded host path := by
  obtain ⟨writable, hw, h⟩ := bind_eq_ok h
  cases writable with
  | true => cases h
  | false => exact guarded_of_not_writable hw

theorem guarded_of_checkDirectory (h : checkDirectory host path = .ok ()) : Guarded host path := by
  obtain ⟨writable, hw, h⟩ := bind_eq_ok h
  cases writable with
  | true => cases h
  | false => exact guarded_of_not_writable hw

/-- The loop checks every directory up to the root. -/
theorem guarded_of_checkUpwards {root : Str} : ∀ {names : List Str}, checkUpwards host root names = .ok () →
    ∀ above, above <+: names.reverse → Guarded host ⟨root, above⟩
  | [], h, above, habove => by
    rw [List.reverse_nil, List.prefix_nil] at habove
    rw [habove]
    exact guarded_of_checkDirectory h
  | name :: names, h, above, habove => by
    obtain ⟨_, hfirst, hrest⟩ := bind_eq_ok h
    rw [List.reverse_cons, List.prefix_concat_iff] at habove
    rcases habove with rfl | habove
    · have hdirectory := guarded_of_checkDirectory hfirst
      rwa [List.reverse_cons] at hdirectory
    · exact guarded_of_checkUpwards hrest above habove

theorem guarded_of_checkParentWritability (h : checkParentWritability host path = .ok ()) :
    ∀ names, names <+: path.tail.dropLast → Guarded host ⟨path.root, names⟩ := by
  intro names hnames
  exact guarded_of_checkUpwards h names (by rwa [List.reverse_reverse])

theorem hashFile_eq_ok {sha : Str} (h : hashFile host path = .ok sha) :
    ∃ data, host.readBytes path = .ok data ∧ host.sha256 data = sha := by
  obtain ⟨data, hdata, h⟩ := bind_eq_ok h
  cases hread : host.readBytes path with
  | error e =>
    rw [hread] at hdata
    cases hdata
  | ok data' =>
    rw [hread] at hdata
    obtain rfl := Except.ok.inj hdata
    exact ⟨data', rfl, Except.ok.inj h⟩

theorem acceptWhitelisted_eq_ok {sha : Str} {gpg : DetectedGPG} (h : acceptWhitelisted host path sha = .ok gpg) :
    gpg.path = path ∧ ∃ st, host.stat path = .ok st ∧ st.uid = 0 := by
  obtain ⟨⟨device, inode⟩, -, h⟩ := bind_eq_ok h
  obtain ⟨isRootOwned, hroot, h⟩ := bind_eq_ok h
  cases isRootOwned with
  | false => cases h
  | true =>
    obtain rfl := Except.ok.inj h
    refine ⟨rfl, ?_⟩
    unfold checkRootOwned at hroot
    cases hstat : host.stat path with
    | ok st =>
      rw [hstat] at hroot
      exact ⟨st, rfl, of_decide_eq_true (Except.ok.inj hroot)⟩
    | error e =>
      simp only [hstat] at hroot
      split_ifs at hroot
      cases hroot

theorem differ_eq_false {actual trusted : Option ℤ} (h : differ actual trusted = false) {a t : ℤ}
    (ha : actual = some a) (ht : trusted = some t) : a = t := by
  subst ha ht
  simpa [differ] using h

theorem identity_of_stat {st : Stat} (h : host.stat path = .ok st) :
    identity host path = .ok (some st.dev, some st.ino) := by rw [identity, h]

theorem pinned_of_verifyTrustPin {sha : Str} {device inode : Option ℤ} (hsha : hashFile host path = .ok sha)
    (hid : identity host path = .ok (device, inode)) (h : verifyTrustPin host path sha device inode pin = .ok ()) :
    Pinned host pin path := by
  obtain ⟨data, hdata, rfl⟩ := hashFile_eq_ok hsha
  unfold verifyTrustPin at h
  cases hhash : pin.hash with
  | none =>
    rw [hhash] at h
    cases h
  | some trustedHash =>
    cases hpath : pin.path with
    | none =>
      rw [hhash, hpath] at h
      cases h
    | some trustedPath =>
      rw [hhash, hpath] at h
      obtain ⟨trustedCanonical, hcanonical, h⟩ := bind_eq_ok h
      split_ifs at h with hne hlower hdevice hinode
      rw [not_not] at hne
      have hknown (st : Stat) (hst : host.stat path = .ok st) : device = some st.dev ∧ inode = some st.ino := by
        rw [identity_of_stat hst] at hid
        obtain ⟨hd, hi⟩ := Prod.mk.inj (Except.ok.inj hid)
        exact ⟨hd.symm, hi.symm⟩
      exact
        { place := ⟨trustedPath, hpath, hne ▸ canonicalise_eq_ok hcanonical⟩
          hash := ⟨trustedHash, data, hhash, hdata, not_not.mp hlower⟩
          device := fun st d hst hd => differ_eq_false (Bool.not_eq_true _ ▸ hdevice) (hknown st hst).1 hd
          inode := fun st i hst hi => differ_eq_false (Bool.not_eq_true _ ▸ hinode) (hknown st hst).2 hi }

/-- What is checked of a file before it is looked for in the whitelist. -/
structure Checked (host : Host) (p path : PosixPath) (sha : Str) : Prop where
  resolved : canonicalise host p = .ok path
  file : checkWritability host path = .ok ()
  above : checkParentWritability host path = .ok ()
  hash : hashFile host path = .ok sha

theorem Checked.trusted {p : PosixPath} {sha : Str} (h : Checked host p path sha)
    (happroved : (path ∈ platformWhitelist host ∧ ∃ st, host.stat path = .ok st ∧ st.uid = 0) ∨ Pinned host pin path) :
    Trusted host pin path where
  canonical := ⟨p, canonicalise_eq_ok h.resolved⟩
  file := guarded_of_checkWritability h.file
  above := guarded_of_checkParentWritability h.above
  approved := happroved

theorem trusted_of_detectUserOverride {p : PosixPath} {gpg : DetectedGPG}
    (h : detectUserOverride host p pin = .ok gpg) : Trusted host pin gpg.path := by
  obtain ⟨override, hresolved, h⟩ := bind_eq_ok h
  obtain ⟨_, hfile, h⟩ := bind_eq_ok h
  obtain ⟨_, habove, h⟩ := bind_eq_ok h
  obtain ⟨sha, hhash, h⟩ := bind_eq_ok h
  have hchecked : Checked host p override sha := ⟨hresolved, hfile, habove, hhash⟩
  split_ifs at h with hlisted
  · obtain ⟨hpath, hroot⟩ := acceptWhitelisted_eq_ok h
    rw [hpath]
    exact hchecked.trusted (.inl ⟨hlisted, hroot⟩)
  · obtain ⟨⟨device, inode⟩, hid, h⟩ := bind_eq_ok h
    obtain ⟨_, hpin, h⟩ := bind_eq_ok h
    obtain ⟨isRootOwned, -, h⟩ := bind_eq_ok h
    obtain rfl := Except.ok.inj h
    exact hchecked.trusted (.inr (pinned_of_verifyTrustPin hhash hid hpin))

theorem trusted_of_detectFrom {gpg : DetectedGPG} : ∀ {entries : List PosixPath},
    detectFrom host entries = .ok gpg → Trusted host pin gpg.path
  | [], h => nomatch h
  | entry :: entries, h => by
    obtain ⟨found, -, h⟩ := bind_eq_ok h
    split_ifs at h
    · obtain ⟨canonical, hresolved, h⟩ := bind_eq_ok h
      split_ifs at h with hlisted
      · obtain ⟨_, hfile, h⟩ := bind_eq_ok h
        obtain ⟨_, habove, h⟩ := bind_eq_ok h
        obtain ⟨sha, hhash, h⟩ := bind_eq_ok h
        have hchecked : Checked host entry canonical sha := ⟨hresolved, hfile, habove, hhash⟩
        obtain ⟨hpath, hroot⟩ := acceptWhitelisted_eq_ok h
        rw [hpath]
        exact hchecked.trusted (.inl ⟨hlisted, hroot⟩)
      · exact trusted_of_detectFrom h
    · exact trusted_of_detectFrom h

/-- **A binary that is detected has been checked**: the file and the
directories above it are writable by their owners alone, and it is at a
whitelisted path and root's, or the one that is pinned. -/
theorem trusted_of_detect {userOverridePath : Option Str} {gpg : DetectedGPG}
    (h : detect host userOverridePath pin = .ok gpg) : Trusted host pin gpg.path := by
  rcases userOverridePath with _ | _ | ⟨c, path⟩
  · exact trusted_of_detectFrom h
  · exact trusted_of_detectFrom h
  · exact trusted_of_detectUserOverride h

/-! ### How a detection fails -/

variable {exc : GPGDetectionError}

theorem mapError_ne_detection {α : Type} {x : Except Exc α} :
    x.mapError Failure.exc ≠ .error (Failure.detection exc) := by
  cases x <;> simp [Except.mapError]

theorem reason_of_canonicalise (h : canonicalise host path = .error (.detection exc)) : exc.reason = .notFound := by
  unfold canonicalise at h
  cases hr : host.resolve path with
  | ok q =>
    simp only [hr] at h
    cases h
  | error e =>
    simp only [hr] at h
    split_ifs at h
    · obtain rfl := Failure.detection.inj (Except.error.inj h)
      rfl
    · cases h

theorem not_writable_error : isWorldOrGroupWritable host path ≠ .error (.detection exc) := by
  intro h
  rcases bind_eq_error h with h | ⟨st, -, h⟩
  · exact mapError_ne_detection h
  · cases h

theorem reason_of_checkWritability (h : checkWritability host path = .error (.detection exc)) :
    exc.reason = .worldWritable := by
  rcases bind_eq_error h with h | ⟨writable, -, h⟩
  · exact absurd h not_writable_error
  · split_ifs at h
    · obtain rfl := Failure.detection.inj (Except.error.inj h)
      rfl
    · cases h

theorem reason_of_checkDirectory (h : checkDirectory host path = .error (.detection exc)) :
    exc.reason = .parentWritable := by
  rcases bind_eq_error h with h | ⟨writable, -, h⟩
  · exact absurd h not_writable_error
  · split_ifs at h
    · obtain rfl := Failure.detection.inj (Except.error.inj h)
      rfl
    · cases h

theorem reason_of_checkUpwards {root : Str} : ∀ {names : List Str},
    checkUpwards host root names = .error (.detection exc) → exc.reason = .parentWritable
  | [], h => reason_of_checkDirectory h
  | name :: names, h => by
    rcases bind_eq_error h with h | ⟨_, -, h⟩
    · exact reason_of_checkDirectory h
    · exact reason_of_checkUpwards h

theorem hashFile_ne_detection : hashFile host path ≠ .error (.detection exc) := by
  intro h
  rcases bind_eq_error h with h | ⟨data, -, h⟩
  · exact mapError_ne_detection h
  · cases h

/-- What the file was checked for has been looked up before. -/
theorem Checked.stat {p : PosixPath} {sha : Str} (h : Checked host p path sha) : ∃ st, host.stat path = .ok st := by
  obtain ⟨st, hst, -⟩ := guarded_of_checkWritability h.file
  exact ⟨st, hst⟩

/-- The reasons that say nothing about a file that has been checked. -/
def earlyReasons : List DetectionReason := [.notFound, .worldWritable, .parentWritable]

/-- A checked file is refused, in the whitelist or outside of it. -/
structure Refused (host : Host) (exc : GPGDetectionError) (path : PosixPath) (sha : Str) : Prop where
  place : exc.path = some path
  newSha : exc.newSha = some sha
  reason : exc.reason = .notRootOwned ↔ path ∈ platformWhitelist host
  owner : path ∈ platformWhitelist host → checkRootOwned host path = .ok false

theorem refused_of_acceptWhitelisted {sha : Str} (hlisted : path ∈ platformWhitelist host)
    (hstat : ∃ st, host.stat path = .ok st) (h : acceptWhitelisted host path sha = .error (.detection exc)) :
    Refused host exc path sha := by
  obtain ⟨st, hst⟩ := hstat
  unfold acceptWhitelisted at h
  rw [identity_of_stat hst] at h
  have hroot : checkRootOwned host path = .ok (decide (st.uid = 0)) := by rw [checkRootOwned, hst]
  rw [hroot] at h
  by_cases huid : st.uid = 0
  · simp [huid, bind, Except.bind, pure, Except.pure] at h
  · simp only [huid, decide_false, bind, Except.bind] at h
    obtain rfl := Failure.detection.inj (Except.error.inj h)
    exact ⟨rfl, rfl, iff_of_true rfl hlisted, fun _ => by rw [hroot, decide_eq_false huid]⟩

theorem refused_of_verifyTrustPin {sha : Str} {device inode : Option ℤ} (hlisted : path ∉ platformWhitelist host)
    (hreason : exc.reason ∉ earlyReasons)
    (h : verifyTrustPin host path sha device inode pin = .error (.detection exc)) : Refused host exc path sha := by
  have hrefused {reason : DetectionReason} {message : Str} (hr : reason ≠ .notRootOwned)
      (he : (Except.error (.detection { reason, message, path := some path, newSha := some sha }) :
        Except Failure Unit) = .error (.detection exc)) : Refused host exc path sha := by
    obtain rfl := Failure.detection.inj (Except.error.inj he)
    exact ⟨rfl, rfl, iff_of_false hr hlisted, fun hl => absurd hl hlisted⟩
  unfold verifyTrustPin at h
  cases hhash : pin.hash with
  | none =>
    rw [hhash] at h
    exact hrefused (by decide) h
  | some trustedHash =>
    cases hpath : pin.path with
    | none =>
      rw [hhash, hpath] at h
      exact hrefused (by decide) h
    | some trustedPath =>
      rw [hhash, hpath] at h
      rcases bind_eq_error h with h | ⟨trustedCanonical, -, h⟩
      · exact absurd (by rw [reason_of_canonicalise h]; decide) hreason
      · split_ifs at h
        all_goals exact hrefused (by decide) h

theorem refused_of_detectUserOverride {p : PosixPath} (hreason : exc.reason ∉ earlyReasons)
    (h : detectUserOverride host p pin = .error (.detection exc)) :
    ∃ override sha, Checked host p override sha ∧ Refused host exc override sha := by
  rcases bind_eq_error h with h | ⟨override, hresolved, h⟩
  · exact absurd (by rw [reason_of_canonicalise h]; decide) hreason
  rcases bind_eq_error h with h | ⟨_, hfile, h⟩
  · exact absurd (by rw [reason_of_checkWritability h]; decide) hreason
  rcases bind_eq_error h with h | ⟨_, habove, h⟩
  · exact absurd (by rw [reason_of_checkUpwards h]; decide) hreason
  rcases bind_eq_error h with h | ⟨sha, hhash, h⟩
  · exact absurd h hashFile_ne_detection
  have hchecked : Checked host p override sha := ⟨hresolved, hfile, habove, hhash⟩
  refine ⟨override, sha, hchecked, ?_⟩
  obtain ⟨st, hst⟩ := hchecked.stat
  split_ifs at h with hlisted
  · exact refused_of_acceptWhitelisted hlisted ⟨st, hst⟩ h
  · rw [identity_of_stat hst] at h
    rcases bind_eq_error h with h | ⟨⟨device, inode⟩, -, h⟩
    · cases h
    rcases bind_eq_error h with h | ⟨_, -, h⟩
    · exact refused_of_verifyTrustPin hlisted hreason h
    · rw [checkRootOwned, hst] at h
      cases h

theorem refused_of_detectFrom (hreason : exc.reason ∉ earlyReasons) : ∀ {entries : List PosixPath},
    detectFrom host entries = .error (.detection exc) →
      ∃ entry canonical sha, Checked host entry canonical sha ∧ canonical ∈ platformWhitelist host ∧
        Refused host exc canonical sha
  | [], h => by
    obtain rfl := Failure.detection.inj (Except.error.inj h)
    exact absurd List.mem_cons_self hreason
  | entry :: entries, h => by
    rcases bind_eq_error h with h | ⟨found, -, h⟩
    · exact absurd h mapError_ne_detection
    split_ifs at h
    · rcases bind_eq_error h with h | ⟨canonical, hresolved, h⟩
      · exact absurd (by rw [reason_of_canonicalise h]; decide) hreason
      split_ifs at h with hlisted
      · rcases bind_eq_error h with h | ⟨_, hfile, h⟩
        · exact absurd (by rw [reason_of_checkWritability h]; decide) hreason
        rcases bind_eq_error h with h | ⟨_, habove, h⟩
        · exact absurd (by rw [reason_of_checkUpwards h]; decide) hreason
        rcases bind_eq_error h with h | ⟨sha, hhash, h⟩
        · exact absurd h hashFile_ne_detection
        have hchecked : Checked host entry canonical sha := ⟨hresolved, hfile, habove, hhash⟩
        exact ⟨entry, canonical, sha, hchecked, hlisted, refused_of_acceptWhitelisted hlisted hchecked.stat h⟩
      · exact refused_of_detectFrom hreason h
    · exact refused_of_detectFrom hreason h

/-- **A file that is refused has been checked**; one outside of the whitelist is
the one that the user has chosen. -/
theorem refused_of_detect (hreason : exc.reason ∉ earlyReasons) {userOverridePath : Option Str}
    (h : detect host userOverridePath pin = .error (.detection exc)) :
    ∃ p path sha, Checked host p path sha ∧ Refused host exc path sha ∧
      (path ∉ platformWhitelist host → ∃ c text, userOverridePath = some (c :: text) ∧ p = .ofText (c :: text)) := by
  have hfrom (h : detectFrom host (platformWhitelist host) = .error (.detection exc)) :
      ∃ p path sha, Checked host p path sha ∧ Refused host exc path sha ∧
        (path ∉ platformWhitelist host → ∃ c text, userOverridePath = some (c :: text) ∧ p = .ofText (c :: text)) := by
    obtain ⟨entry, canonical, sha, hchecked, hlisted, hrefused⟩ := refused_of_detectFrom hreason h
    exact ⟨entry, canonical, sha, hchecked, hrefused, fun hnot => absurd hlisted hnot⟩
  rcases userOverridePath with _ | _ | ⟨c, text⟩
  · exact hfrom h
  · exact hfrom h
  · obtain ⟨override, sha, hchecked, hrefused⟩ := refused_of_detectUserOverride hreason h
    exact ⟨_, override, sha, hchecked, hrefused, fun _ => ⟨c, text, rfl, rfl⟩⟩

/-! ### The file again -/

/-- A checked file is checked again under its own name. -/
theorem Checked.again {p : PosixPath} {sha : Str} (h : Checked host p path sha) : Checked host path path sha where
  resolved := by rw [canonicalise, host.resolve_resolve (canonicalise_eq_ok h.resolved)]
  file := h.file
  above := h.above
  hash := h.hash

/-- What is left to do for a checked file. -/
theorem detectUserOverride_of_checked {p : PosixPath} {sha : Str} (h : Checked host p path sha) :
    detectUserOverride host p pin =
      if path ∈ platformWhitelist host then acceptWhitelisted host path sha
      else do
        let (device, inode) ← identity host path
        verifyTrustPin host path sha device inode pin
        let isRootOwned ← checkRootOwned host path
        return { path, sha256 := sha, isWhitelisted := false, isRootOwned, device, inode } := by
  rw [detectUserOverride, h.resolved]
  show (checkWritability host path >>= fun _ => _) = _
  rw [h.file]
  show (checkParentWritability host path >>= fun _ => _) = _
  rw [h.above]
  show (hashFile host path >>= fun _ => _) = _
  rw [h.hash]
  rfl

/-- A whitelisted file that is not root's is refused whatever the pin is. -/
theorem not_accepted_of_checked {p : PosixPath} {sha : Str} (h : Checked host p path sha)
    (hlisted : path ∈ platformWhitelist host) (howner : checkRootOwned host path = .ok false) :
    ∃ exc, detectUserOverride host p pin = .error (.detection exc) := by
  obtain ⟨st, hst⟩ := h.stat
  rw [detectUserOverride_of_checked h, if_pos hlisted, acceptWhitelisted, identity_of_stat hst, howner]
  exact ⟨_, rfl⟩

/-- A file outside of the whitelist is accepted with a pin of its own. -/
theorem accepted_of_checked {p : PosixPath} {sha trustedPath : Str} {st : Stat} (h : Checked host p path sha)
    (hlisted : path ∉ platformWhitelist host) (hst : host.stat path = .ok st) (hhash : pin.hash = some sha)
    (hpath : pin.path = some trustedPath) (hresolve : host.resolve (.ofText trustedPath) = .ok path)
    (hdevice : differ (some st.dev) pin.device = false) (hinode : differ (some st.ino) pin.inode = false) :
    detectUserOverride host p pin =
      .ok { path, sha256 := sha, isWhitelisted := false, isRootOwned := decide (st.uid = 0), device := some st.dev,
            inode := some st.ino } := by
  have hroot : checkRootOwned host path = .ok (decide (st.uid = 0)) := by rw [checkRootOwned, hst]
  have hpin : verifyTrustPin host path sha (some st.dev) (some st.ino) pin = .ok () := by
    simp [verifyTrustPin, hhash, hpath, canonicalise, hresolve, hdevice, hinode, bind, Except.bind]
  rw [detectUserOverride_of_checked h, if_neg hlisted, identity_of_stat hst]
  show (verifyTrustPin host path sha (some st.dev) (some st.ino) pin >>= fun _ => _) = _
  rw [hpin]
  show (checkRootOwned host path >>= fun _ => _) = _
  rw [hroot]
  rfl

end Checks

/-! ### A binary outside of the whitelist -/

def samplePath : PosixPath := .ofText (lit "/opt/gpg")

theorem samplePath_canonical : samplePath.Canonical := by
  have hpath : samplePath = ⟨[slash], [lit "opt", lit "gpg"]⟩ := by decide +kernel
  rw [hpath]
  refine ⟨rfl, fun name hname => ?_⟩
  rcases List.mem_cons.mp hname with rfl | hname
  · exact ⟨⟨lit "opt", by decide, by decide, by decide, by decide, by decide⟩, rfl⟩
  · rw [List.mem_singleton.mp hname]
    exact ⟨⟨lit "gpg", by decide, by decide, by decide, by decide, by decide⟩, rfl⟩

/-- A host on which all that can be resolved is `/opt/gpg`, a file of a user. -/
def sampleHost : Host where
  darwin := false
  stat := fun _ => .ok { mode := 0o755, uid := 1000, dev := 1, ino := 2 }
  fileExists := fun _ => .ok false
  resolve := fun p => if p = samplePath then .ok samplePath else .error { cls := .fileNotFoundError, message := [] }
  readBytes := fun _ => .ok []
  sha256 := fun _ => lit "e3"
  lower := id
  resolve_canonical := by
    intro p q h
    split_ifs at h
    obtain rfl := Except.ok.inj h
    exact samplePath_canonical
  resolve_resolve := by
    intro p q h
    split_ifs at h
    obtain rfl := Except.ok.inj h
    exact if_pos rfl

def samplePin : TrustPin where
  hash := some (lit "e3")
  path := some (lit "/opt/gpg")
  device := some 1

theorem trusted_sampleHost : ∃ gpg, detect sampleHost (some (lit "/opt/gpg")) samplePin = .ok gpg ∧
    Trusted sampleHost samplePin gpg.path := by
  have h : detect sampleHost (some (lit "/opt/gpg")) samplePin =
      .ok { path := samplePath, sha256 := lit "e3", isWhitelisted := false, isRootOwned := false, device := some 1,
            inode := some 2 } := by decide +kernel
  exact ⟨_, h, trusted_of_detect h⟩

end GpgDetector
end GpgMeister
