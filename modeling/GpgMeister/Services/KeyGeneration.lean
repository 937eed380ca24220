/-
# The key that was created

`generate_key` of `services/gpg_service.py`. The fingerprint of the new key comes
from a record of the status stream; where none has arrived, it is that of the
last secret key in the listing with the user ID.

* `createsNew_iff`: exactly when what it returns is the fingerprint of the key
  that this call created.
-/
import GpgMeister.Lib.MapM
import GpgMeister.Services.Keyring
import GpgMeister.Services.ValidationGrammar

namespace GpgMeister

/-! ### Algorithms -/

namespace Validation

/-- `_ALLOWED_KEY_LENGTHS`, in order -/
def allowedKeyLengths : KeyAlgorithm → Option (List ℤ)
  | .rsa => some [2048, 3072, 4096]
  | .ecdsa => some [256, 384, 521]
  | .eddsa => some [255]
  | .ecdh => some [255]
  | .dsa => none
  | .unknown => none

/-- `validate_key_algorithm_and_length` -/
def validateKeyAlgorithmAndLength (algorithm : KeyAlgorithm) (length : ℤ) : Except Exc Unit :=
  match allowedKeyLengths algorithm with
  | none => .error (GPGService.validationError (lit "unsupported algorithm: " ++ algorithm.value))
  | some allowed =>
    if length ∈ allowed then .ok ()
    else .error (GPGService.validationError
      (lit "length " ++ Json.intText length ++ lit " not allowed for " ++ algorithm.value ++ lit "; allowed: [" ++
        List.intercalate (lit ", ") (allowed.map Json.intText) ++ lit "]"))

end Validation

namespace GPGService

variable {γ Time : Type} (env : Platform γ Time)

/-! ### Generation -/

/-- What the user wants. -/
structure KeyRequest where
  name : Str
  email : Str
  algorithm : KeyAlgorithm
  length : ℤ
  expiry : Str

/-- `quick_args` -/
def quickArgs (userId : Str) (algorithm : KeyAlgorithm) (length : ℤ) (expiry : Str) : Except Exc (List Str) :=
  match algorithm with
  | .eddsa => .ok [lit "--quick-generate-key", userId, lit "future-default", lit "default", expiry]
  | .rsa => .ok [lit "--quick-generate-key", userId, lit "rsa" ++ Json.intText length, lit "default", expiry]
  | _ => .error (validationError (lit "key generation not supported for " ++ algorithm.value))

/-- What is checked of a request: its name and its email, stripped. -/
def checkedUser (request : KeyRequest) : Except Exc (Str × Str) := do
  let name ← Validation.validateUserName request.name
  let email ← Validation.validateEmail env.repr request.email
  Validation.validateKeyAlgorithmAndLength request.algorithm request.length
  let _ ← Validation.validateExpiry env.isoDate env.repr request.expiry
  return (name, email)

/-- What is checked before the executable is run: the user ID and the arguments
after the command. -/
def checkRequest (request : KeyRequest) (passphrase : Bytes) : Except Exc (Str × List Str) := do
  let (name, email) ← checkedUser env request
  if passphrase.any (· ∈ [0x0A, 0x0D]) = true then
    .error (validationError (lit "passphrase must not contain newline characters"))
  else do
    let quickArgs ← quickArgs (Validation.userId name email) request.algorithm request.length request.expiry
    return (Validation.userId name email, lit "--yes" :: quickArgs)

/-- The fingerprint in a record of a key that was created. -/
def keyCreated : Gpg.Record → Option Str
  | tag :: _ :: fp :: _ => if tag = lit "KEY_CREATED" then some fp else none
  | _ => none

/-- The fingerprint in the last such record. -/
def createdOf (records : List Gpg.Record) : Str := ((records.filterMap keyCreated).getLast?).getD []

/-- The fingerprint of the last key with the user ID. -/
def lastWith (userId : Str) (keys : List (KeyInfo Time)) : Str :=
  ((keys.filter (userId ∈ ·.userIds)).getLast?.map (·.fingerprint)).getD []

/-- Where the fingerprint of the new key is taken from. -/
def newFingerprint (userId : Str) (records : List Gpg.Record) : Program (World γ Time) Exc Str :=
  if createdOf records ≠ [] then return createdOf records else return lastWith userId (← listKeys env true)

/-- `generate_key` -/
def generateKey (request : KeyRequest) (passphrase : Bytes) : Program (World γ Time) Exc Str := do
  let (userId, args) ← Program.ofExcept (checkRequest env request passphrase)
  let proc ← runGpg env args none (some passphrase) true
  Program.ofExcept (requireOk proc (lit "GPG key generation failed") [0])
  let fp ← newFingerprint env userId (Gpg.parseStatus proc.status)
  if fp = [] then Program.raise { cls := .gpgProcessError, message := lit "GPG did not return a fingerprint" }
  else Program.ofExcept (validateFingerprint fp)

/-- What is kept of the status stream of a run. -/
def statusOf (out : Gpg.Output) : List Gpg.Record := Gpg.parseStatus (Gpg.drainPipe Gpg.statusBufLimit [] out.reads)

end GPGService

/-! ### What is relied on -/

variable {γ Time : Type}

/-- A run for a new key leaves the other keys alone, and one that ends well adds
one key. A record of a key that was created, if one is read, names that key. -/
structure GnuPG.Generates (gpg : GnuPG γ Time) (keyring : γ → Keyring) : Prop where
  keeps : ∀ args passphrase g r g', gpg.popen (lit "--yes" :: lit "--quick-generate-key" :: args) none
    (some passphrase) g = (r, g') → ∀ k, keyring g k ≠ none → keyring g' k = keyring g k
  adds : ∀ args passphrase g out g', gpg.popen (lit "--yes" :: lit "--quick-generate-key" :: args) none
    (some passphrase) g = (.ok out, g') → out.returncode = 0 →
      ∃ fp, keyring g fp = none ∧ keyring g' = Function.update (keyring g) fp (some true) ∧
        ∀ reported ∈ (GPGService.statusOf out).filterMap GPGService.keyCreated,
          GPGService.validateFingerprint reported = .ok fp

/-- The secret listing shows keys of the keyring only. -/
structure GnuPG.ListsSecret (gpg : GnuPG γ Time) (keyring : γ → Keyring) : Prop where
  keeps : ∀ g r g', gpg.listKeys true g = (r, g') → keyring g' = keyring g
  shows : ∀ g keys g', gpg.listKeys true g = (.ok keys, g') → ∀ key ∈ keys,
    GPGService.validateFingerprint key.fingerprint = .ok key.fingerprint ∧ keyring g key.fingerprint ≠ none

namespace GPGService

open Program

/-! ### The new key -/

section NewKey

variable (env : Platform γ Time) (keyring : γ → Keyring) (request : KeyRequest) (g : γ)

/-- **What a call returns is the fingerprint of the key that it created.** -/
def CreatesNew : Prop :=
  ∀ passphrase fp (w w' : World γ Time), w.gnupg = g → (generateKey env request passphrase).run w = .ok fp w' →
    keyring g fp = none ∧ keyring w'.gnupg fp ≠ none

/-- The passphrase can be given to a run with these arguments. -/
def Starts (args : List Str) (passphrase : Bytes) : Prop :=
  ∃ passBytes, validatedPassphraseBytes (some passphrase) = .ok passBytes ∧
    rejectPassphraseInArgv (commandLine env g args true true) passBytes = .ok ()

/-- Of every run that makes the key, a record of it is read, or the last key with
the user ID in the secret listing is no older one. -/
def NamesNew : Prop :=
  ∀ passphrase userId args out g', checkRequest env request passphrase = .ok (userId, args) →
    Starts env g args passphrase → env.gpg.popen args none (some passphrase) g = (.ok out, g') →
      out.returncode = 0 → createdOf (statusOf out) ≠ [] ∨
        ∀ keys g'' key, env.gpg.listKeys true g' = (.ok keys, g'') →
          (keys.filter (userId ∈ ·.userIds)).getLast? = some key → keyring g key.fingerprint = none

end NewKey

section Runs

variable {env : Platform γ Time} {keyring : γ → Keyring} {request : KeyRequest} {passphrase : Bytes}
  {w w' : World γ Time} {args : List Str} {userId : Str}

theorem run_runGpg_eq_ok {proc : Gpg.GPGRun} (h : (runGpg env args none (some passphrase) true).run w = .ok proc w') :
    Starts env w.gnupg args passphrase ∧ ∃ out, env.gpg.popen args none (some passphrase) w.gnupg = (.ok out, w'.gnupg) ∧
      proc = Gpg.statusRun out.returncode out.stdout out.stderr out.reads := by
  have hkeeps {u u' : World γ Time} (hs : (syscall : Program (World γ Time) Exc Unit).run u = .ok () u') :
      u'.gnupg = u.gnupg := congrArg Stores.gnupg (steady_stores.syscall.of_run_eq_ok hs)
  obtain ⟨⟨⟩, w1, h1, h⟩ := run_bind_eq_ok.mp h
  obtain ⟨passBytes, w2, h2, h⟩ := run_bind_eq_ok.mp h
  obtain ⟨hvalid, rfl⟩ := run_ofExcept_eq_ok.mp h2
  obtain ⟨⟨⟩, w3, h3, h⟩ := run_bind_eq_ok.mp h
  obtain ⟨u, w4, h4, h⟩ := run_bind_eq_ok.mp h
  obtain ⟨rfl, rfl⟩ : w3 = u ∧ w3 = w4 := by simpa using h4
  obtain ⟨⟨⟩, w5, h5, h⟩ := run_bind_eq_ok.mp h
  obtain ⟨hargv, rfl⟩ := run_ofExcept_eq_ok.mp h5
  obtain ⟨out, w6, h6, h⟩ := run_bind_eq_ok.mp h
  obtain ⟨rfl, rfl⟩ := run_pure_eq_ok.mp h
  have hg : w3.gnupg = w.gnupg := (hkeeps h3).trans (hkeeps h1)
  rw [hg] at hargv
  refine ⟨⟨passBytes, hvalid, hargv⟩, out, ?_, rfl⟩
  unfold onGnupg at h6
  simp only [EStateM.run, hg] at h6
  rcases hp : env.gpg.popen args none (some passphrase) w.gnupg with ⟨_ | _, g'⟩
  · simp [hp] at h6
  · simp only [hp, EStateM.Result.ok.injEq] at h6
    obtain ⟨rfl, rfl⟩ := h6
    rfl

theorem onGnupg_eq_ok {α : Type} {f : γ → Except Exc α × γ} {a : α}
    (h : (onGnupg f : Program (World γ Time) Exc α).run w = .ok a w') : f w.gnupg = (.ok a, w'.gnupg) := by
  unfold onGnupg at h
  simp only [EStateM.run] at h
  rcases hf : f w.gnupg with ⟨_ | _, g'⟩
  · simp [hf] at h
  · simp only [hf, EStateM.Result.ok.injEq] at h
    obtain ⟨rfl, rfl⟩ := h
    rfl

theorem requireOk_eq_ok {proc : Gpg.GPGRun} {message : Str} (h : requireOk proc message [0] = .ok ()) :
    proc.returncode = 0 := by
  unfold requireOk at h
  split_ifs at h with hok
  simpa using hok

/-- Where the fingerprint comes from. -/
theorem generateKey_eq_ok {fp : Str} (h : (generateKey env request passphrase).run w = .ok fp w') :
    ∃ userId args out g', checkRequest env request passphrase = .ok (userId, args) ∧
      Starts env w.gnupg args passphrase ∧ env.gpg.popen args none (some passphrase) w.gnupg = (.ok out, g') ∧
      out.returncode = 0 ∧
      (createdOf (statusOf out) ≠ [] ∧ validateFingerprint (createdOf (statusOf out)) = .ok fp ∧ w'.gnupg = g' ∨
        createdOf (statusOf out) = [] ∧ ∃ keys, env.gpg.listKeys true g' = (.ok keys, w'.gnupg) ∧
          lastWith userId keys ≠ [] ∧ validateFingerprint (lastWith userId keys) = .ok fp) := by
  obtain ⟨⟨userId, args⟩, w1, h1, h⟩ := run_bind_eq_ok.mp h
  obtain ⟨hcheck, rfl⟩ := run_ofExcept_eq_ok.mp h1
  obtain ⟨proc, w2, h2, h⟩ := run_bind_eq_ok.mp h
  obtain ⟨hstarts, out, hpopen, rfl⟩ := run_runGpg_eq_ok h2
  obtain ⟨⟨⟩, w3, h3, h⟩ := run_bind_eq_ok.mp h
  obtain ⟨hok, rfl⟩ := run_ofExcept_eq_ok.mp h3
  obtain ⟨fp', w4, h4, h⟩ := run_bind_eq_ok.mp h
  refine ⟨userId, args, out, w2.gnupg, hcheck, hstarts, hpopen, requireOk_eq_ok hok, ?_⟩
  change (newFingerprint env userId (statusOf out)).run w2 = _ at h4
  unfold newFingerprint at h4
  by_cases hreported : createdOf (statusOf out) = []
  · rw [if_neg (not_not.mpr hreported)] at h4
    obtain ⟨keys, w5, h5, h4⟩ := run_bind_eq_ok.mp h4
    obtain ⟨rfl, rfl⟩ := run_pure_eq_ok.mp h4
    split_ifs at h with hnil
    · cases h
    · obtain ⟨hvalid, rfl⟩ := run_ofExcept_eq_ok.mp h
      exact .inr ⟨hreported, keys, onGnupg_eq_ok h5, hnil, hvalid⟩
  · rw [if_pos hreported] at h4
    obtain ⟨rfl, rfl⟩ := run_pure_eq_ok.mp h4
    rw [if_neg hreported] at h
    obtain ⟨hvalid, rfl⟩ := run_ofExcept_eq_ok.mp h
    exact .inl ⟨hreported, hvalid, rfl⟩

theorem checkRequest_args (h : checkRequest env request passphrase = .ok (userId, args)) :
    ∃ rest, args = lit "--yes" :: lit "--quick-generate-key" :: rest := by
  unfold checkRequest at h
  obtain ⟨⟨name, email⟩, -, h⟩ := bind_eq_ok h
  dsimp only at h
  split_ifs at h
  obtain ⟨quick, hquick, h⟩ := bind_eq_ok h
  obtain ⟨-, rfl⟩ := Prod.mk.inj (Except.ok.inj h)
  unfold quickArgs at hquick
  split at hquick
  · obtain rfl := Except.ok.inj hquick
    exact ⟨_, rfl⟩
  · obtain rfl := Except.ok.inj hquick
    exact ⟨_, rfl⟩
  · cases hquick

theorem createdOf_mem {records : List Gpg.Record} (h : createdOf records ≠ []) :
    createdOf records ∈ records.filterMap keyCreated := by
  unfold createdOf at h ⊢
  cases hlast : (records.filterMap keyCreated).getLast? with
  | none => simp [hlast] at h
  | some fp => exact List.mem_of_getLast? hlast

theorem lastWith_of_ne {keys : List (KeyInfo Time)} (h : lastWith userId keys ≠ []) :
    ∃ key, (keys.filter (userId ∈ ·.userIds)).getLast? = some key ∧ lastWith userId keys = key.fingerprint := by
  unfold lastWith at h ⊢
  cases hlast : (keys.filter (userId ∈ ·.userIds)).getLast? with
  | none => simp [hlast] at h
  | some key => exact ⟨key, rfl, rfl⟩

end Runs

section Naming

variable {env : Platform γ Time} {keyring : γ → Keyring} {request : KeyRequest}

/-- If the fingerprint comes from a record, or the key from the listing is no
older one, it is that of the new key. -/
theorem createsNew_of_namesNew (hgenerates : env.gpg.Generates keyring) (hlists : env.gpg.ListsSecret keyring) {g : γ}
    (h : NamesNew env keyring request g) : CreatesNew env keyring request g := by
  rintro passphrase fp w w' rfl hrun
  obtain ⟨userId, args, out, g', hcheck, hstarts, hpopen, hok, hfrom⟩ := generateKey_eq_ok hrun
  obtain ⟨rest, rfl⟩ := checkRequest_args hcheck
  obtain ⟨new, hnone, hnew, hreports⟩ := hgenerates.adds _ _ _ _ _ hpopen hok
  rcases hfrom with ⟨hreported, hvalid, hg'⟩ | ⟨hreported, keys, hlist, hne, hvalid⟩
  · obtain rfl : new = fp := Except.ok.inj ((hreports _ (createdOf_mem hreported)).symm.trans hvalid)
    refine ⟨hnone, ?_⟩
    rw [hg', hnew, Function.update_self]
    simp
  · obtain ⟨key, hlast, hkey⟩ := lastWith_of_ne hne
    have hmem : key ∈ keys := List.mem_of_mem_filter (List.mem_of_getLast? hlast)
    obtain ⟨hself, hthere⟩ := hlists.shows _ _ _ hlist key hmem
    rw [hkey, hself] at hvalid
    obtain rfl := Except.ok.inj hvalid
    refine ⟨?_, by rw [hlists.keeps _ _ _ hlist]; exact hthere⟩
    exact ((h _ _ _ _ _ hcheck hstarts hpopen hok).resolve_left (not_not.mpr hreported)) _ _ _ hlist hlast

/-- A run that GnuPG ends. -/
theorem run_runGpg_of_starts {args : List Str} {passphrase : Bytes} {out : Gpg.Output} {g' : γ} {w : World γ Time}
    (hfaults : ∀ n, w.faults n = none) (hstarts : Starts env w.gnupg args passphrase)
    (hpopen : env.gpg.popen args none (some passphrase) w.gnupg = (.ok out, g')) :
    ∃ w', (runGpg env args none (some passphrase) true).run w =
      .ok (Gpg.statusRun out.returncode out.stdout out.stderr out.reads) w' ∧ w'.gnupg = g' := by
  obtain ⟨passBytes, hvalid, hargv⟩ := hstarts
  have hrun : (onGnupg (env.gpg.popen args none (some passphrase)) : Program (World γ Time) Exc Gpg.Output).run
      { w with faults := fun n => w.faults (n + 1 + 1) } =
        .ok out { { w with faults := fun n => w.faults (n + 1 + 1) } with gnupg := g' } := by
    simp only [EStateM.run, onGnupg, hpopen]
  refine ⟨{ w with faults := fun n => w.faults (n + 1 + 1), gnupg := g' },
    run_bind_eq_ok.mpr ⟨(), _, run_syscall_of_none (hfaults 0), ?_⟩, rfl⟩
  refine run_bind_eq_ok.mpr ⟨passBytes, _, run_ofExcept_eq_ok.mpr ⟨hvalid, rfl⟩, ?_⟩
  refine run_bind_eq_ok.mpr ⟨(), _, run_syscall_of_none (hfaults 1), ?_⟩
  refine run_bind_eq_ok.mpr ⟨_, _, rfl, ?_⟩
  refine run_bind_eq_ok.mpr ⟨(), _, run_ofExcept_eq_ok.mpr ⟨hargv, rfl⟩, ?_⟩
  exact run_bind_eq_ok.mpr ⟨out, _, hrun, run_pure_eq_ok.mpr ⟨rfl, rfl⟩⟩

/-- Where no record is read, the last key of the listing is returned. -/
theorem run_generateKey_of_listed {passphrase : Bytes} {args : List Str} {userId : Str} {out : Gpg.Output} {g' g'' : γ}
    {keys : List (KeyInfo Time)} {key : KeyInfo Time} {w : World γ Time} (hfaults : ∀ n, w.faults n = none)
    (hcheck : checkRequest env request passphrase = .ok (userId, args)) (hstarts : Starts env w.gnupg args passphrase)
    (hpopen : env.gpg.popen args none (some passphrase) w.gnupg = (.ok out, g')) (hok : out.returncode = 0)
    (hreported : createdOf (statusOf out) = []) (hlist : env.gpg.listKeys true g' = (.ok keys, g''))
    (hlast : (keys.filter (userId ∈ ·.userIds)).getLast? = some key)
    (hvalid : validateFingerprint key.fingerprint = .ok key.fingerprint) :
    ∃ w', (generateKey env request passphrase).run w = .ok key.fingerprint w' := by
  have hne : key.fingerprint ≠ [] := by
    intro hnil
    rw [hnil] at hvalid
    cases hvalid
  obtain ⟨w1, hrun, hg⟩ := run_runGpg_of_starts hfaults hstarts hpopen
  have hlisted : (listKeys env true).run w1 = .ok keys { w1 with gnupg := g'' } := by
    simp only [EStateM.run, listKeys, onGnupg, hg, hlist]
  refine ⟨{ w1 with gnupg := g'' }, run_bind_eq_ok.mpr
    ⟨(userId, args), w, run_ofExcept_eq_ok.mpr ⟨hcheck, rfl⟩, ?_⟩⟩
  refine run_bind_eq_ok.mpr ⟨_, w1, hrun, ?_⟩
  refine run_bind_eq_ok.mpr ⟨(), w1, run_ofExcept_eq_ok.mpr ⟨?_, rfl⟩, ?_⟩
  · simp [requireOk, Gpg.statusRun, hok]
  · refine run_bind_eq_ok.mpr ⟨key.fingerprint, { w1 with gnupg := g'' }, ?_, ?_⟩
    · change (newFingerprint env userId (statusOf out)).run w1 = _
      unfold newFingerprint
      rw [if_neg (not_not.mpr hreported)]
      refine run_bind_eq_ok.mpr ⟨keys, _, hlisted, run_pure_eq_ok.mpr ⟨?_, rfl⟩⟩
      rw [lastWith, hlast]
      rfl
    · rw [if_neg hne]
      exact run_ofExcept_eq_ok.mpr ⟨hvalid, rfl⟩

/-- **What a call returns is the fingerprint of the key it created** exactly if of
every run that makes the key a record is read, or the last key with the user ID
in the secret listing is no older one. -/
theorem createsNew_iff (hgenerates : env.gpg.Generates keyring) (hlists : env.gpg.ListsSecret keyring)
    (w : World γ Time) : CreatesNew env keyring request w.gnupg ↔ NamesNew env keyring request w.gnupg := by
  refine ⟨fun h => ?_, createsNew_of_namesNew hgenerates hlists⟩
  intro passphrase userId args out g' hcheck hstarts hpopen hok
  by_cases hreported : createdOf (statusOf out) = []
  · right
    intro keys g'' key hlist hlast
    have hmem : key ∈ keys := List.mem_of_mem_filter (List.mem_of_getLast? hlast)
    obtain ⟨w', hrun⟩ := run_generateKey_of_listed (w := { w with faults := fun _ => none }) (fun _ => rfl) hcheck
      hstarts hpopen hok hreported hlist hlast (hlists.shows _ _ _ hlist key hmem).1
    exact (h passphrase _ { w with faults := fun _ => none } w' rfl hrun).1
  · exact .inl hreported

end Naming

/-! ### A home with two keys of one name -/

def oldFp : Str := List.replicate 40 (codePoint 'A')
def newFp : Str := List.replicate 40 (codePoint 'B')

/-- The passphrase of the old key, if it is there, and whether there has been a
new key, with its passphrase as long as it is there. -/
structure SampleHome where
  old : Option Bytes := some (ascii "old")
  new : Option (Option Bytes) := none

namespace SampleHome

variable (g : SampleHome)

/-- Of every key whether there has been one, and its passphrase. -/
def held (fp : Str) : Option (Option Bytes) := if fp = oldFp then some g.old else if fp = newFp then g.new else none

def keyring : Keyring := fun fp => (g.held fp).join.map fun _ => true

def key (fp : Str) : KeyInfo Unit where
  fingerprint := fp
  userIds := [lit "Ann <ann@example.org>"]
  createdAt := ()
  hasPrivateKey := true

/-- The old key is listed last. -/
def keys : List (KeyInfo Unit) := ([newFp, oldFp].filter fun fp => (g.held fp).join.isSome).map key

def delete (fp : Str) : SampleHome where
  old := if fp = oldFp then none else g.old
  new := if fp = newFp then g.new.map fun _ => none else g.new

end SampleHome

/-- The record of the new key. -/
def newRecord : Gpg.Chunk where
  data := ascii "[GNUPG:] KEY_CREATED B " ++ List.replicate 40 0x42 ++ [0x0A]
  nonempty := by decide
  bound := by decide

/-- A GnuPG that makes one key; its record may be lost. -/
def sampleGnuPG (reports : Bool) : GnuPG SampleHome Unit where
  baseCmd := [lit "gpg"]
  pipes _ := (lit "3", lit "4")
  popen args _ passphrase g :=
    if args.take 2 = [lit "--yes", lit "--quick-generate-key"] then
      match g.new with
      | none =>
        (.ok { returncode := 0, reads := if reports then [newRecord] else [] }, { g with new := some (passphrase.getD []) })
      | some _ => (.ok { returncode := 2 }, g)
    else
      match args with
      | [_, _, fp] => (.ok { returncode := 0 }, g.delete fp)
      | [_, _, fp, _] =>
        if passphrase.isSome ∧ g.held fp = some passphrase then
          (.ok { returncode := 0, stdout := ascii "signature" }, g)
        else (.ok { returncode := 2 }, g)
      | _ => (.ok { returncode := 2 }, g)
  listKeys _ g := (.ok g.keys, g)

def sampleRequest : KeyRequest where
  name := lit "Ann"
  email := lit "ann@example.org"
  algorithm := .eddsa
  length := 255
  expiry := lit "0"

theorem popen_generate (reports : Bool) (args : List Str) (passphrase : Bytes) (g : SampleHome) :
    (sampleGnuPG reports).popen (lit "--yes" :: lit "--quick-generate-key" :: args) none (some passphrase) g =
      match g.new with
      | none => (.ok { returncode := 0, reads := if reports then [newRecord] else [] }, { g with new := some passphrase })
      | some _ => (.ok { returncode := 2 }, g) := by
  have htake : (lit "--yes" :: lit "--quick-generate-key" :: args).take 2 =
    [lit "--yes", lit "--quick-generate-key"] := rfl
  dsimp only [sampleGnuPG]
  rw [if_pos htake]
  rfl

theorem popen_delete (reports : Bool) (fp : Str) (passphrase : Option Bytes) (g : SampleHome) :
    (sampleGnuPG reports).popen (deleteArgs fp true) none passphrase g = (.ok { returncode := 0 }, g.delete fp) := by
  have htake : (deleteArgs fp true).take 2 ≠ [lit "--yes", lit "--quick-generate-key"] := by
    change [lit "--yes", lit "--delete-secret-and-public-key"] ≠ _
    decide
  dsimp only [sampleGnuPG]
  rw [if_neg htake]
  rfl

theorem generates_sample (reports : Bool) : (sampleGnuPG reports).Generates SampleHome.keyring where
  keeps args passphrase g r g' h k hk := by
    rw [popen_generate] at h
    cases hnew : g.new with
    | none =>
      rw [hnew] at h
      obtain ⟨-, rfl⟩ := Prod.mk.inj h
      unfold SampleHome.keyring SampleHome.held at hk ⊢
      split_ifs at hk ⊢ with h1 h2
      · rfl
      · simp [hnew] at hk
      · simp at hk
    | some held =>
      rw [hnew] at h
      obtain ⟨-, rfl⟩ := Prod.mk.inj h
      rfl
  adds args passphrase g out g' h hok := by
    rw [popen_generate] at h
    cases hnew : g.new with
    | some held =>
      rw [hnew] at h
      obtain ⟨hout, -⟩ := Prod.mk.inj h
      obtain rfl := Except.ok.inj hout
      cases hok
    | none =>
      rw [hnew] at h
      obtain ⟨hout, rfl⟩ := Prod.mk.inj h
      obtain rfl := Except.ok.inj hout
      have hne : newFp ≠ oldFp := by decide
      refine ⟨newFp, ?_, ?_, ?_⟩
      · simp [SampleHome.keyring, SampleHome.held, hnew, hne]
      · funext k
        by_cases hk : k = newFp
        · subst hk
          simp [SampleHome.keyring, SampleHome.held, hne]
        · simp [SampleHome.keyring, SampleHome.held, hk]
      · cases reports <;> decide +kernel

theorem mem_keys {g : SampleHome} {fp : Str} : (∃ key ∈ g.keys, key.fingerprint = fp) ↔ g.keyring fp ≠ none := by
  unfold SampleHome.keys SampleHome.keyring
  simp only [List.mem_map, List.mem_filter]
  constructor
  · rintro ⟨key, ⟨k, ⟨-, hk⟩, rfl⟩, rfl⟩
    simpa [SampleHome.key, Option.isSome_iff_ne_none] using hk
  · intro h
    have hmem : fp ∈ [newFp, oldFp] := by
      by_contra hnot
      obtain ⟨h1, h2⟩ : fp ≠ newFp ∧ fp ≠ oldFp := by simpa using hnot
      simp [SampleHome.held, h1, h2] at h
    refine ⟨_, ⟨fp, ⟨hmem, ?_⟩, rfl⟩, rfl⟩
    simpa [Option.isSome_iff_ne_none] using h

theorem listsSecret_sample (reports : Bool) : (sampleGnuPG reports).ListsSecret SampleHome.keyring where
  keeps g r g' h := by
    obtain ⟨-, rfl⟩ := Prod.mk.inj h
    rfl
  shows g keys g' h key hkey := by
    obtain ⟨hkeys, -⟩ := Prod.mk.inj h
    obtain rfl := Except.ok.inj hkeys
    refine ⟨?_, mem_keys.mp ⟨key, hkey, rfl⟩⟩
    obtain ⟨fp, hfp, rfl⟩ := List.mem_map.mp hkey
    rcases List.mem_cons.mp (List.mem_of_mem_filter hfp) with rfl | hfp
    · decide +kernel
    · obtain rfl := List.mem_singleton.mp hfp
      decide +kernel

theorem lists_sample (reports : Bool) : (sampleGnuPG reports).Lists SampleHome.keyring where
  keeps secret g r g' h := by
    obtain ⟨-, rfl⟩ := Prod.mk.inj h
    rfl
  shows g keys g' h fp := by
    obtain ⟨hkeys, -⟩ := Prod.mk.inj h
    obtain rfl := Except.ok.inj hkeys
    exact mem_keys.symm
  fails g e g' h := by cases h

theorem deletes_sample (reports : Bool) : (sampleGnuPG reports).Deletes SampleHome.keyring where
  others fp passphrase g r g' h k hk := by
    rw [popen_delete] at h
    obtain ⟨-, rfl⟩ := Prod.mk.inj h
    unfold SampleHome.keyring SampleHome.held SampleHome.delete
    dsimp only
    by_cases h1 : k = oldFp
    · rw [if_pos h1, if_pos h1, if_neg (h1 ▸ hk.symm)]
    · rw [if_neg h1, if_neg h1]
      by_cases h2 : k = newFp
      · rw [if_pos h2, if_pos h2, if_neg (h2 ▸ hk.symm)]
      · rw [if_neg h2, if_neg h2]

/-- The record of the new key is read. -/
theorem namesNew_sample {env : Platform SampleHome Unit} (henv : env.gpg = sampleGnuPG true) (old : Option Bytes) :
    NamesNew env SampleHome.keyring sampleRequest { old } := by
  intro passphrase userId args out g' hcheck hstarts hpopen hok
  left
  obtain ⟨rest, rfl⟩ := checkRequest_args hcheck
  rw [henv] at hpopen
  have h := (popen_generate true rest passphrase { old }).symm.trans hpopen
  obtain ⟨hout, -⟩ := Prod.mk.inj h
  obtain rfl := Except.ok.inj hout
  decide +kernel

end GPGService
end GpgMeister
