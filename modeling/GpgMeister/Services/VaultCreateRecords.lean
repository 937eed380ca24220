/-
# The record of a vault that is created

`create` writes the vault, then the file with its checksum, then a record, then
a row of the store, and one handler around all of it records a failure. After
it there should be one record of the call, which says whether it returned; and
if it raised, both files should be what they were.

* `createLocked_eq`: what `create` does under the lock, before and after the
  vault's octets are there.
* `accountable_iff`: exactly when `create` keeps its records and files so.
-/
import GpgMeister.Services.VaultFrames

namespace GpgMeister
namespace VaultService

open VaultFormat VaultKeyslots VaultPayload Program

variable {γ Time α : Type} (env : Platform γ Time)

/-! ### Three parts -/

/-- What `create` does before it holds the lock: the fingerprints, those of
the unlock keys, and the resolved path. -/
def beforeLock (args : CreateArgs) : Program (World γ Time) Exc (List Str × List Str × Path) := do
  let fps ← Program.ofExcept (args.fingerprints.mapM GPGService.validateFingerprint)
  if fps = [] then Program.raise (serviceError (lit "at least one key fingerprint is required"))
  else do
    let unlockFps ← Program.ofExcept (args.unlockKeyFingerprints.mapM GPGService.validateFingerprint)
    if args.masterPassphrase = none ∧ unlockFps = [] then
      Program.raise (serviceError (lit "a vault needs a master passphrase, an unlock key, or both"))
    else do
      syscall
      syscall
      acquireWriteLock (env.resolve args.targetPath)
      return (fps, unlockFps, env.resolve args.targetPath)

/-- The contents of the vault, and its octets. -/
structure Prepared (Time : Type) where
  collected : List (CollectedEntry Time)
  manifest : VaultManifest Time
  frame : Bytes

/-- What is done before anything is written. -/
def prepare (args : CreateArgs) (fps unlockFps : List Str) : Program (World γ Time) Exc (Prepared Time) := do
  let collected ← collectEntries env args.gpgPassphrases fps
  let now ← utcNow
  let manifest ← validated
    (VaultManifest.make args.createdBy now appVersion args.description (collected.map (·.entry)))
  let plaintext ← Program.ofExcept (serialiseSegmentedPayload env collected manifest)
  let frame ← sealPayload env args unlockFps plaintext
  return { collected, manifest, frame }

/-- The file with the checksum. -/
def writeSidecar (target : Path) (frame : Bytes) : Program (World γ Time) Exc Unit := do
  let line ← Program.ofExcept (encodeUtf8 (sidecarLine (env.sha256 frame) target))
  atomicWriteBytes (sidecarOf target) line

/-- The row of the store, if there is a store. -/
def addRecord (hasMetadata : Bool) (args : CreateArgs) (target : Path) (keyCount : ℕ) :
    Program (World γ Time) Exc Unit :=
  if hasMetadata then addVaultRecord { filename := target.text, keyCount, description := args.description }
  else return ()

def Prepared.keyCount (p : Prepared Time) : ℕ := p.collected.length

/-- The record of the vault. -/
def emitPrepared (args : CreateArgs) (unlockFps : List Str) (target : Path) (p : Prepared Time) :
    Program (World γ Time) Exc Unit :=
  emitCreated env target p.keyCount args.cipher (env.sha256 p.frame) unlockFps.length

/-- What `create` returns. -/
def Prepared.created (target : Path) (p : Prepared Time) : Created Time where
  descriptor := { path := target, sha256 := env.sha256 p.frame, keyCount := p.keyCount }
  manifest := p.manifest
  collected := p.collected

/-- What is done with the octets. -/
def publish (hasMetadata : Bool) (args : CreateArgs) (unlockFps : List Str) (target : Path) (p : Prepared Time) :
    Program (World γ Time) Exc (Created Time) := do
  atomicWriteBytes target p.frame
  writeSidecar env target p.frame
  emitPrepared env args unlockFps target p
  addRecord hasMetadata args target p.keyCount
  return p.created env target

theorem createLocked_eq (hasMetadata : Bool) (args : CreateArgs) (fps unlockFps : List Str) (target : Path) :
    createLocked env hasMetadata args fps unlockFps target =
      prepare env args fps unlockFps >>= publish env hasMetadata args unlockFps target := by
  unfold createLocked prepare publish writeVaultFiles writeSidecar emitPrepared Prepared.created Prepared.keyCount addRecord
  simp only [bind_assoc, pure_bind, List.length_map]
  cases hasMetadata with
  | true => rfl
  | false => rfl

/-- What is done under the lock, with the handler around it. -/
def underLock (hasMetadata : Bool) (args : CreateArgs) (fps unlockFps : List Str) (target : Path) :
    Program (World γ Time) Exc (Created Time) :=
  Program.catching (createLocked env hasMetadata args fps unlockFps target) fun e => do
    emitCreateFailed env target e
    Program.raise e

theorem create_eq (hasMetadata : Bool) (args : CreateArgs) :
    create env hasMetadata args = beforeLock env args >>= fun r => underLock env hasMetadata args r.1 r.2.1 r.2.2 := by
  unfold create beforeLock
  rw [bind_assoc]
  congr 1
  funext fps
  by_cases hf : fps = []
  · simp only [if_pos hf]
    rfl
  · simp only [if_neg hf, bind_assoc]
    congr 1
    funext unlockFps
    by_cases hu : args.masterPassphrase = none ∧ unlockFps = []
    · simp only [if_pos hu]
      rfl
    · simp only [if_neg hu, bind_assoc, pure_bind]
      rfl

/-! ### Nothing is written before the octets are there -/

/-- How the records of a created vault say it ended. -/
def createdOutcomes (w : World γ Time) : List Str :=
  w.history.filterMap fun
    | .emit event outcome none => if event = lit "vault_created" then some outcome else none
    | _ => none

/-- The records of a created vault, and the files. -/
structure Visible where
  outcomes : List Str
  files : Path → Option Bytes

def visible (w : World γ Time) : Visible := { outcomes := createdOutcomes w, files := w.files }

theorem visible_note {w : World γ Time} {call : Call}
    (h : ∀ outcome, call ≠ .emit (lit "vault_created") outcome none) : visible (w.note call) = visible w := by
  have hnone : createdOutcomes (w.note call) = createdOutcomes w := by
    unfold createdOutcomes World.note
    rw [List.filterMap_append]
    have hcall : List.filterMap (fun
        | .emit event outcome none => if event = lit "vault_created" then some outcome else none
        | _ => none) [call] = [] := by
      cases call with
      | emit event outcome raised =>
        cases raised with
        | some e => rfl
        | none =>
          have hne : event ≠ lit "vault_created" := fun he => h outcome (by rw [he])
          simp [hne]
      | deriveKey params n raised => rfl
      | decrypt raised => rfl
      | deleteKey fp raised => rfl
      | editor args script reads pipe => rfl
    rw [hcall, List.append_nil]
  rw [visible, hnone]
  rfl

theorem calm_visible : Calm (visible : World γ Time → Visible) where
  audit _ _ := rfl
  faults _ _ := rfl
  random _ _ := rfl
  clock _ _ := rfl
  buffers _ _ := rfl

theorem pastDerivations_visible : PastDerivations (visible : World γ Time → Visible) :=
  fun w params n raised => visible_note (by simp)

theorem pastEvent_visible {event : Str} (h : event ≠ lit "vault_created") :
    PastEvent (visible : World γ Time → Visible) event :=
  fun w outcome raised => visible_note (by simp [h])

theorem keeps_export (event outcome : Str) (h : event ≠ lit "vault_created") (payload : Dict) :
    Keeps visible (emit env.toEnv event outcome payload : Program (World γ Time) Exc Unit) :=
  calm_visible.emit (pastEvent_visible h) env.toEnv outcome payload

theorem keeps_gpg (args : List Str) (input passphrase : Option Bytes) (statusFd : Bool) :
    Keeps visible (GPGService.runGpg env args input passphrase statusFd) :=
  keeps_runGpg env calm_visible (fun _ _ => rfl) args input passphrase statusFd

theorem keeps_exportPrivateForVault (fp : Str) (key : KeyInfo Time) (gpgPassphrases : Str → Option Bytes) :
    Keeps visible (exportPrivateForVault env fp key gpgPassphrases) := by
  have hpublic (payload : Dict) := keeps_export env (lit "key_exported_public") (lit "ok") (by decide) payload
  have hprivate (payload : Dict) := keeps_export env (lit "key_exported_private") (lit "ok") (by decide) payload
  unfold exportPrivateForVault
  split
  · exact (hpublic _).bind fun _ => keeps_pure _
  · split
    · exact keeps_raise _
    · rename_i keyPw _
      have hexport : Keeps visible (do
          let armored ← GPGService.exportPrivateKey env fp keyPw
          Program.ofExcept (encodeUtf8 armored)) := by
        apply Keeps.bind
        · apply (keeps_ofExcept _).bind
          intro fp
          apply (keeps_gpg env _ _ _ _).bind
          intro proc
          exact keeps_ofExcept _
        · intro armored
          exact keeps_ofExcept _
      apply (hexport.attempt [.gpgPassphraseError]).bind
      intro exported
      cases exported with
      | error e =>
        dsimp only
        split
        · exact (hpublic _).bind fun _ => keeps_pure _
        · exact keeps_raise e
      | ok privateKey => exact (hprivate _).bind fun _ => keeps_pure _

theorem keeps_collectEntry (gpgPassphrases : Str → Option Bytes) (fp : Str) :
    Keeps visible (collectEntry env gpgPassphrases fp) := by
  apply Keeps.bind
  · apply (keeps_findKey env (fun _ _ => rfl) fp).catching
    intro e
    split
    · exact keeps_raise _
    · exact keeps_raise e
  · intro key
    apply Keeps.bind
    · apply (keeps_ofExcept _).bind
      intro fp
      apply (keeps_gpg env _ _ _ _).bind
      intro proc
      exact keeps_ofExcept _
    · intro armored
      apply (keeps_ofExcept _).bind
      intro publicKey
      apply (keeps_exportPrivateForVault env fp key gpgPassphrases).bind
      intro privateKey
      exact (keeps_validated _).bind fun entry => keeps_pure _

theorem keeps_generateSalt (n : ℕ) : Keeps visible (generateSalt n : Program (World γ Time) Exc Bytes) := by
  unfold generateSalt
  split
  · exact keeps_raise _
  · exact calm_visible.tokenBytes n

theorem keeps_encryptPayload (plaintext masterPassphrase : Bytes) (params : KDFParams) (cipher : CipherAlgorithm) :
    Keeps visible (encryptPayload env plaintext masterPassphrase params cipher) := by
  apply (keeps_generateSalt _).bind
  intro salt
  apply (calm_visible.tokenBytes _).bind
  intro nonce
  apply (keeps_validated _).bind
  intro header
  apply (keeps_deriveKey env pastDerivations_visible _ _ _).bind
  intro vaultKey
  exact keeps_ofExcept _

theorem keeps_wrapForPassphrase (fileKey : Bytes) (masterPassphrase : Option Bytes) (params : KDFParams)
    (cipher : CipherAlgorithm) : Keeps visible (wrapForPassphrase env fileKey masterPassphrase params cipher) := by
  cases masterPassphrase with
  | none => exact keeps_pure _
  | some passphrase =>
    apply Keeps.bind
    · apply (keeps_generateSalt _).bind
      intro salt
      apply (calm_visible.tokenBytes _).bind
      intro nonce
      apply (keeps_deriveKey env pastDerivations_visible _ _ _).bind
      intro slotKey
      apply (keeps_ofExcept _).bind
      intro wrapped
      exact keeps_validated _
    · intro slot
      exact keeps_pure _

theorem keeps_wrapForKey (fileKey : Bytes) (fp : Str) : Keeps visible (wrapForKey env fileKey fp) := by
  apply (keeps_findKey env (fun _ _ => rfl) fp).bind
  intro key
  split
  · exact keeps_raise _
  · apply Keeps.bind
    · unfold isExpired
      split
      · exact keeps_pure _
      · exact calm_visible.utcNow.bind fun now => keeps_pure _
    · intro expired
      split
      · exact keeps_raise _
      · apply Keeps.bind
        · apply (keeps_ofExcept _).bind
          intro recipients
          apply (keeps_ofExcept _).bind
          intro signer
          split
          · exact keeps_raise _
          · apply (keeps_gpg env _ _ _ _).bind
            intro proc
            exact (keeps_ofExcept _).bind fun _ => keeps_pure _
        · intro armored
          apply (keeps_ofExcept _).bind
          intro wrapped
          apply (keeps_ofExcept _).bind
          intro label
          exact keeps_validated _

theorem keeps_sealPayload (args : CreateArgs) (unlockFps : List Str) (plaintext : Bytes) :
    Keeps visible (sealPayload env args unlockFps plaintext) := by
  unfold sealPayload
  split
  · apply (calm_visible.tokenBytes _).bind
    intro nonce
    apply (calm_visible.tokenBytes _).bind
    intro fileKey
    apply (keeps_wrapForPassphrase env _ _ _ _).bind
    intro passphraseSlots
    apply (Keeps.mapM (fun fp => keeps_wrapForKey env fileKey fp) unlockFps).bind
    intro keySlots
    dsimp only
    split
    · exact keeps_raise _
    · split
      · exact keeps_raise _
      · exact (keeps_validated _).bind fun header => keeps_ofExcept _
  · split
    · exact keeps_encryptPayload env _ _ _ _
    · exact keeps_raise _

/-- Whatever happens until the octets are there, no record of a created vault
is written, and no file. -/
theorem keeps_prepare (args : CreateArgs) (fps unlockFps : List Str) :
    Keeps visible (prepare env args fps unlockFps) := by
  apply (Keeps.mapM (fun fp => keeps_collectEntry env args.gpgPassphrases fp) fps).bind
  intro collected
  apply calm_visible.utcNow.bind
  intro now
  apply (keeps_validated _).bind
  intro manifest
  apply (keeps_ofExcept _).bind
  intro plaintext
  apply (keeps_sealPayload env args unlockFps plaintext).bind
  intro frame
  exact keeps_pure _

/-! ### The steps that can be seen -/

theorem visible_eq {w w' : World γ Time} (h : visible w' = visible w) :
    createdOutcomes w' = createdOutcomes w ∧ w'.files = w.files := by
  obtain ⟨ho, hf⟩ := Visible.mk.inj h
  exact ⟨ho, hf⟩

theorem run_atomicWriteBytes_ok {path : Path} {data : Bytes} {w w' : World γ Time}
    (h : (atomicWriteBytes path data).run w = .ok () w') :
    createdOutcomes w' = createdOutcomes w ∧ w'.files = Function.update w.files path (some data) := by
  obtain ⟨u, w1, hs, h⟩ := run_bind_eq_ok.mp h
  obtain ⟨ho, hf⟩ := visible_eq (calm_visible.syscall.of_run_eq_ok hs)
  obtain rfl : _ = w' := (EStateM.Result.ok.inj h).2
  rw [← ho, ← hf]
  exact ⟨rfl, rfl⟩

theorem run_atomicWriteBytes_error {path : Path} {data : Bytes} {w w' : World γ Time} {e : Exc}
    (h : (atomicWriteBytes path data).run w = .error e w') : visible w' = visible w := by
  unfold atomicWriteBytes at h
  rw [EStateM.run_bind] at h
  cases hs : (syscall : Program (World γ Time) Exc Unit).run w with
  | ok u w1 =>
    rw [hs] at h
    cases h
  | error e' w1 =>
    rw [hs] at h
    obtain ⟨rfl, rfl⟩ : e' = e ∧ w1 = w' := by simpa using h
    exact calm_visible.syscall.of_run_eq_error hs

/-- A record of a created vault that was written. -/
theorem run_emit_ok {outcome : Str} {payload : Dict} {w w' : World γ Time}
    (h : (emit env.toEnv (lit "vault_created") outcome payload).run w = .ok () w') :
    createdOutcomes w' = createdOutcomes w ++ [outcome] ∧ w'.files = w.files := by
  obtain ⟨w1, hp, rfl⟩ := run_recorded_eq_ok.mp h
  obtain ⟨audit, -, rfl⟩ := run_onPart_eq_ok.mp hp
  simp [createdOutcomes, World.note]

/-- A record of a created vault that was not written. -/
theorem run_emit_error {outcome : Str} {payload : Dict} {w w' : World γ Time} {e : Exc}
    (h : (emit env.toEnv (lit "vault_created") outcome payload).run w = .error e w') : visible w' = visible w := by
  obtain ⟨w1, hp, rfl⟩ := run_recorded_eq_error.mp h
  have hk := keeps_onPart (f := (visible : World γ Time → Visible)) World.audit (fun audit w => { w with audit := audit })
    (fun audit w => rfl) (AuditSink.emit env.toEnv (lit "vault_created") outcome payload)
  rw [visible_note (by simp)]
  exact hk.of_run_eq_error hp

theorem sidecarOf_ne (path : Path) : sidecarOf path ≠ path := by
  intro h
  have hname : path.name ++ lit ".sha256" = path.name := congrArg Path.name h
  have hlen := congrArg List.length hname
  rw [List.length_append] at hlen
  have hsuffix : (lit ".sha256").length = 7 := rfl
  omega

/-! ### Records and files -/

/-- The record of the failure is written from here. -/
def CanRecord (target : Path) (e : Exc) (w : World γ Time) : Prop := ∃ w', (emitCreateFailed env target e).run w = .ok () w'

/-- Both files are the same. -/
def SameFiles (target : Path) (w w' : World γ Time) : Prop :=
  w'.files target = w.files target ∧ w'.files (sidecarOf target) = w.files (sidecarOf target)

/-- One record is written, which says whether the program returned; and if it
raised, both files are the same. -/
structure Accounts (target : Path) (x : Program (World γ Time) Exc α) (w : World γ Time) : Prop where
  record : ∃ outcome, createdOutcomes (x.after w) = createdOutcomes w ++ [outcome] ∧
    (outcome = lit "ok" ↔ ∃ a w', x.run w = .ok a w')
  files : ∀ e w', x.run w = .error e w' → SameFiles target w w'

/-- The handler of `create`. -/
theorem run_recordFailure (target : Path) (e : Exc) (w : World γ Time) :
    ∃ e' w', (do emitCreateFailed env target e; raise e : Program (World γ Time) Exc α).run w = .error e' w' ∧
      w'.files = w.files ∧ (CanRecord env target e w ∧ createdOutcomes w' = createdOutcomes w ++ [lit "failed"] ∨
        ¬ CanRecord env target e w ∧ createdOutcomes w' = createdOutcomes w) := by
  rw [EStateM.run_bind]
  cases hr : (emitCreateFailed env target e).run w with
  | ok u w1 =>
    obtain ⟨ho, hf⟩ := run_emit_ok env hr
    exact ⟨e, w1, rfl, hf, .inl ⟨⟨w1, hr⟩, ho⟩⟩
  | error e' w1 =>
    obtain ⟨ho, hf⟩ := visible_eq (run_emit_error env hr)
    refine ⟨e', w1, rfl, hf, .inr ⟨?_, ho⟩⟩
    intro h
    obtain ⟨w2, hw2⟩ := h
    simp [hr] at hw2

/-- After a failure it depends on what can be seen of it. -/
theorem accounts_of_error {hasMetadata : Bool} {args : CreateArgs} {fps unlockFps : List Str} {target : Path}
    {w w1 : World γ Time} {e : Exc} {before : List Str}
    (h : (createLocked env hasMetadata args fps unlockFps target).run w = .error e w1)
    (hbefore : createdOutcomes w1 = createdOutcomes w ++ before) (hok : before = [] ∨ before = [lit "ok"]) :
    Accounts target (underLock env hasMetadata args fps unlockFps target) w ↔
      before = [] ∧ CanRecord env target e w1 ∧ SameFiles target w w1 := by
  obtain ⟨e', w2, hr, hf, hrecord⟩ := run_recordFailure env target e w1 (α := Created Time)
  have hrun : (underLock env hasMetadata args fps unlockFps target).run w = .error e' w2 := by
    rw [underLock, run_catching, h]
    exact hr
  have hfiles : SameFiles target w w2 ↔ SameFiles target w w1 := by
    unfold SameFiles
    rw [hf]
  constructor
  · intro ha
    obtain ⟨outcome, hout, hiff⟩ := ha.record
    have hne : outcome ≠ lit "ok" := by
      intro ho
      obtain ⟨a, w', ha'⟩ := hiff.mp ho
      simp [hrun] at ha'
    rw [after_of_run_eq_error hrun] at hout
    have hsame := hfiles.mp (ha.files e' w2 hrun)
    rcases hrecord with ⟨hcan, ho⟩ | ⟨-, ho⟩
    · rw [hout, hbefore, List.append_assoc, List.append_cancel_left_eq] at ho
      rcases hok with rfl | rfl
      · exact ⟨rfl, hcan, hsame⟩
      · simp at ho
    · rw [hout, hbefore, List.append_cancel_left_eq] at ho
      rcases hok with rfl | rfl
      · simp at ho
      · exact absurd (List.cons.inj ho).1 hne
  · intro h'
    obtain ⟨rfl, hcan, hsame⟩ := h'
    refine ⟨⟨lit "failed", ?_, iff_of_false (by decide) ?_⟩, ?_⟩
    · rw [after_of_run_eq_error hrun, ← List.append_nil (createdOutcomes w), ← hbefore]
      rcases hrecord with ⟨-, ho⟩ | ⟨hno, -⟩
      · exact ho
      · exact absurd hcan hno
    · intro h
      obtain ⟨a, w', h⟩ := h
      simp [hrun] at h
    · intro e'' w' h
      obtain ⟨rfl, rfl⟩ : e' = e'' ∧ w2 = w' := by simpa [hrun] using h
      exact hfiles.mpr hsame

/-- What is done under the lock goes right until the vault's file is written,
or all through; or it fails, the failure can be recorded, and what was written
was there before. -/
def Orderly (hasMetadata : Bool) (args : CreateArgs) (fps unlockFps : List Str) (target : Path) (w : World γ Time) : Prop :=
  match (prepare env args fps unlockFps).run w with
  | .error e w1 => CanRecord env target e w1
  | .ok p w1 =>
    match (atomicWriteBytes target p.frame).run w1 with
    | .error e w2 => CanRecord env target e w2
    | .ok _ w2 =>
      match (writeSidecar env target p.frame).run w2 with
      | .error e w3 => w.files target = some p.frame ∧ CanRecord env target e w3
      | .ok _ w3 =>
        match (emitPrepared env args unlockFps target p).run w3 with
        | .error e w4 =>
          w.files target = some p.frame ∧
            w.files (sidecarOf target) = Utf8.encode (sidecarLine (env.sha256 p.frame) target) ∧
            CanRecord env target e w4
        | .ok _ w4 =>
          match (addRecord hasMetadata args target p.keyCount).run w4 with
          | .error _ _ => False
          | .ok _ _ => True

theorem run_writeSidecar_ok {target : Path} {frame : Bytes} {w w' : World γ Time}
    (h : (writeSidecar env target frame).run w = .ok () w') :
    createdOutcomes w' = createdOutcomes w ∧ w'.files target = w.files target ∧
      w'.files (sidecarOf target) = Utf8.encode (sidecarLine (env.sha256 frame) target) := by
  obtain ⟨line, w1, hl, h⟩ := run_bind_eq_ok.mp h
  obtain ⟨hline, rfl⟩ := run_ofExcept_eq_ok.mp hl
  obtain ⟨ho, hf⟩ := run_atomicWriteBytes_ok h
  rw [hf, encodeUtf8_eq_ok hline]
  exact ⟨ho, Function.update_of_ne (sidecarOf_ne target).symm _ _, Function.update_self _ _ _⟩

theorem run_writeSidecar_error {target : Path} {frame : Bytes} {w w' : World γ Time} {e : Exc}
    (h : (writeSidecar env target frame).run w = .error e w') : visible w' = visible w := by
  unfold writeSidecar at h
  rw [EStateM.run_bind] at h
  cases hl : encodeUtf8 (sidecarLine (env.sha256 frame) target) with
  | error e' =>
    rw [hl] at h
    obtain ⟨rfl, rfl⟩ : e' = e ∧ w = w' := by simpa using h
    rfl
  | ok line =>
    rw [hl] at h
    exact run_atomicWriteBytes_error h

theorem keeps_addRecord (hasMetadata : Bool) (args : CreateArgs) (target : Path) (keyCount : ℕ) :
    Keeps visible (addRecord hasMetadata args target keyCount : Program (World γ Time) Exc Unit) := by
  unfold addRecord
  split
  · exact calm_visible.syscall.bind fun _ => fun _ => rfl
  · exact keeps_pure _

/-- **What is done under the lock keeps its records and files** exactly if it
is orderly. -/
theorem accounts_iff (hasMetadata : Bool) (args : CreateArgs) (fps unlockFps : List Str) (target : Path)
    (w : World γ Time) : Accounts target (underLock env hasMetadata args fps unlockFps target) w ↔
      Orderly env hasMetadata args fps unlockFps target w := by
  have hprep := keeps_prepare env args fps unlockFps
  unfold Orderly
  have hrun : (createLocked env hasMetadata args fps unlockFps target).run w = _ :=
    congrArg (fun x => x.run w) (createLocked_eq env hasMetadata args fps unlockFps target)
  rw [EStateM.run_bind] at hrun
  cases hp : (prepare env args fps unlockFps).run w with
  | error e w1 =>
    rw [hp] at hrun
    obtain ⟨ho, hf⟩ := visible_eq (hprep.of_run_eq_error hp)
    rw [accounts_of_error env hrun (by rw [ho, List.append_nil]) (.inl rfl)]
    simp [SameFiles, hf]
  | ok p w1 =>
    rw [hp] at hrun
    obtain ⟨ho1, hf1⟩ := visible_eq (hprep.of_run_eq_ok hp)
    dsimp only at hrun ⊢
    rw [publish, EStateM.run_bind] at hrun
    cases hwrite : (atomicWriteBytes target p.frame).run w1 with
    | error e w2 =>
      rw [hwrite] at hrun
      obtain ⟨ho2, hf2⟩ := visible_eq (run_atomicWriteBytes_error hwrite)
      rw [accounts_of_error env hrun (by rw [ho2, ho1, List.append_nil]) (.inl rfl)]
      simp [SameFiles, hf2, hf1]
    | ok u w2 =>
      rw [hwrite] at hrun
      obtain ⟨ho2, hf2⟩ := run_atomicWriteBytes_ok hwrite
      rw [hf1] at hf2
      dsimp only at hrun ⊢
      rw [EStateM.run_bind] at hrun
      have hside : w2.files (sidecarOf target) = w.files (sidecarOf target) := by
        rw [hf2]
        exact Function.update_of_ne (sidecarOf_ne target) _ _
      cases hs : (writeSidecar env target p.frame).run w2 with
      | error e w3 =>
        rw [hs] at hrun
        obtain ⟨ho3, hf3⟩ := visible_eq (run_writeSidecar_error env hs)
        rw [accounts_of_error env hrun (by rw [ho3, ho2, ho1, List.append_nil]) (.inl rfl)]
        have hsame : SameFiles target w w3 ↔ w.files target = some p.frame := by
          unfold SameFiles
          rw [hf3, hside, hf2, Function.update_self]
          simp [eq_comm]
        rw [hsame]
        simp only [true_and]
        exact and_comm
      | ok u w3 =>
        rw [hs] at hrun
        obtain ⟨ho3, hf3, hline3⟩ := run_writeSidecar_ok env hs
        rw [hf2, Function.update_self] at hf3
        dsimp only at hrun ⊢
        rw [EStateM.run_bind] at hrun
        cases hemit : (emitPrepared env args unlockFps target p).run w3 with
        | error e w4 =>
          rw [hemit] at hrun
          obtain ⟨ho4, hf4⟩ := visible_eq (run_emit_error env hemit)
          rw [accounts_of_error env hrun (by rw [ho4, ho3, ho2, ho1, List.append_nil]) (.inl rfl)]
          have hsame : SameFiles target w w4 ↔ w.files target = some p.frame ∧
              w.files (sidecarOf target) = Utf8.encode (sidecarLine (env.sha256 p.frame) target) := by
            unfold SameFiles
            rw [hf4, hf3, hline3]
            simp only [eq_comm]
          rw [hsame]
          tauto
        | ok u w4 =>
          rw [hemit] at hrun
          obtain ⟨ho4, hf4⟩ := run_emit_ok env hemit
          dsimp only at hrun ⊢
          rw [EStateM.run_bind] at hrun
          have hadd := @keeps_addRecord γ Time hasMetadata args target p.keyCount
          cases ha : (addRecord hasMetadata args target p.keyCount).run w4 with
          | error e w5 =>
            rw [ha] at hrun
            obtain ⟨ho5, -⟩ := visible_eq (hadd.of_run_eq_error ha)
            rw [accounts_of_error env hrun (by rw [ho5, ho4, ho3, ho2, ho1]) (.inr rfl)]
            simp
          | ok u w5 =>
            rw [ha] at hrun
            obtain ⟨ho5, -⟩ := visible_eq (hadd.of_run_eq_ok ha)
            have hreturn : (underLock env hasMetadata args fps unlockFps target).run w =
                .ok (p.created env target) w5 := by
              rw [underLock, run_catching, hrun]
              rfl
            refine iff_of_true ⟨⟨lit "ok", ?_, iff_of_true rfl ⟨_, _, hreturn⟩⟩, ?_⟩ trivial
            · rw [after_of_run_eq_ok hreturn, ho5, ho4, ho3, ho2, ho1]
            · intro e w' h
              simp [hreturn] at h

/-! ### The whole call -/

theorem keeps_beforeLock (args : CreateArgs) : Keeps visible (beforeLock env args : Program (World γ Time) Exc _) := by
  apply (keeps_ofExcept _).bind
  intro fps
  split
  · exact keeps_raise _
  · apply (keeps_ofExcept _).bind
    intro unlockFps
    split
    · exact keeps_raise _
    · apply calm_visible.syscall.bind
      intro _
      apply calm_visible.syscall.bind
      intro _
      have hlock : Keeps visible (acquireWriteLock (env.resolve args.targetPath) : Program (World γ Time) Exc Unit) := by
        apply calm_visible.syscall.catching
        intro e
        split
        · exact keeps_raise _
        · exact keeps_raise _
      exact hlock.bind fun _ => keeps_pure _

/-- After the lock is held, one record is written, which says whether the call
returned; and if the call raised, both files are what they were. -/
structure Accountable (hasMetadata : Bool) (args : CreateArgs) (w : World γ Time) : Prop where
  record : ∀ r w1, (beforeLock env args).run w = .ok r w1 → ∃ outcome,
    createdOutcomes ((create env hasMetadata args).after w) = createdOutcomes w1 ++ [outcome] ∧
      (outcome = lit "ok" ↔ ∃ created w', (create env hasMetadata args).run w = .ok created w')
  files : ∀ e w', (create env hasMetadata args).run w = .error e w' →
    SameFiles (env.resolve args.targetPath) w w'

theorem target_of_beforeLock {args : CreateArgs} {w w1 : World γ Time} {r : List Str × List Str × Path}
    (h : (beforeLock env args).run w = .ok r w1) : r.2.2 = env.resolve args.targetPath := by
  obtain ⟨fps, w2, -, h⟩ := run_bind_eq_ok.mp h
  by_cases hf : fps = []
  · simp [if_pos hf] at h
  · rw [if_neg hf] at h
    obtain ⟨unlockFps, w3, -, h⟩ := run_bind_eq_ok.mp h
    by_cases hu : args.masterPassphrase = none ∧ unlockFps = []
    · simp [if_pos hu] at h
    · rw [if_neg hu] at h
      obtain ⟨_, w4, -, h⟩ := run_bind_eq_ok.mp h
      obtain ⟨_, w5, -, h⟩ := run_bind_eq_ok.mp h
      obtain ⟨_, w6, -, h⟩ := run_bind_eq_ok.mp h
      obtain ⟨rfl, -⟩ := run_pure_eq_ok.mp h
      rfl

/-- Without the lock there is nothing to account for. -/
theorem accountable_of_error {hasMetadata : Bool} {args : CreateArgs} {w w1 : World γ Time} {e : Exc}
    (h : (beforeLock env args).run w = .error e w1) : Accountable env hasMetadata args w := by
  obtain ⟨-, hf⟩ := visible_eq ((keeps_beforeLock env args).of_run_eq_error h)
  refine ⟨fun r w' hr => ?_, fun e' w' hr => ?_⟩
  · simp [h] at hr
  · rw [create_eq, EStateM.run_bind, h] at hr
    obtain ⟨rfl, rfl⟩ : e = e' ∧ w1 = w' := by simpa using hr
    simp [SameFiles, hf]

/-- With the lock the call is what is done under it. -/
theorem accountable_of_ok {hasMetadata : Bool} {args : CreateArgs} {w w1 : World γ Time} {r : List Str × List Str × Path}
    (h : (beforeLock env args).run w = .ok r w1) : Accountable env hasMetadata args w ↔
      Accounts r.2.2 (underLock env hasMetadata args r.1 r.2.1 r.2.2) w1 := by
  have hrun : (create env hasMetadata args).run w = (underLock env hasMetadata args r.1 r.2.1 r.2.2).run w1 := by
    rw [create_eq, EStateM.run_bind, h]
  have hafter : (create env hasMetadata args).after w = (underLock env hasMetadata args r.1 r.2.1 r.2.2).after w1 := by
    rw [after, after, hrun]
  obtain ⟨-, hf⟩ := visible_eq ((keeps_beforeLock env args).of_run_eq_ok h)
  have htarget := target_of_beforeLock env h
  constructor
  · intro ha
    refine ⟨?_, fun e w' hr => ?_⟩
    · have hrecord := ha.record r w1 h
      rw [hafter, hrun] at hrecord
      exact hrecord
    · have hfiles := ha.files e w' (hrun.trans hr)
      rw [← htarget] at hfiles
      unfold SameFiles at *
      rwa [hf]
  · intro ha
    refine ⟨fun r' w' hr => ?_, fun e w' hr => ?_⟩
    · obtain ⟨rfl, rfl⟩ : r = r' ∧ w1 = w' := by simpa [h] using hr
      rw [hafter, hrun]
      exact ha.record
    · have hfiles := ha.files e w' (hrun.symm.trans hr)
      rw [← htarget]
      unfold SameFiles at *
      rwa [hf] at hfiles

/-- **A call of `create` accounts for what it did** exactly if what it does
under the lock is orderly. -/
theorem accountable_iff (hasMetadata : Bool) (args : CreateArgs) (w : World γ Time) :
    Accountable env hasMetadata args w ↔
      ∀ fps unlockFps target w1, (beforeLock env args).run w = .ok (fps, unlockFps, target) w1 →
        Orderly env hasMetadata args fps unlockFps target w1 := by
  cases hb : (beforeLock env args).run w with
  | error e w1 => exact iff_of_true (accountable_of_error env hb) (by simp)
  | ok r w1 =>
    obtain ⟨fps, unlockFps, target⟩ := r
    rw [accountable_of_ok env hb, accounts_iff]
    constructor
    · intro h fps' unlockFps' target' w' hr
      obtain ⟨⟨rfl, rfl, rfl⟩, rfl⟩ : (fps = fps' ∧ unlockFps = unlockFps' ∧ target = target') ∧ w1 = w' := by
        simpa using hr
      exact h
    · intro h
      exact h fps unlockFps target w1 rfl

/-! ### A vault whose record contradicts the call -/

/-- A keyring with one public key. -/
def onePublicKey : GnuPG Unit Unit where
  baseCmd := [lit "gpg"]
  pipes _ := (lit "3", lit "4")
  popen _ _ _ g := (.ok { returncode := 0, stdout := ascii "armor" }, g)
  listKeys _ g :=
    (.ok [{ fingerprint := lit "0123456789ABCDEF0123456789ABCDEF01234567", userIds := [], createdAt := () }], g)

/-- Libraries that pack, derive and encrypt without fail. -/
def sealingPlatform : Platform Unit Unit :=
  { samplePlatform onePublicKey with
    msgpack :=
      { packb := fun _ => .ok [0xC0]
        unpackb := fun _ _ _ => .error { cls := .valueError, message := [] }
        unpackRaw := fun _ _ _ => .error { cls := .valueError, message := [] } }
    aead := { encrypt := fun _ _ _ _ _ => some (ascii "sealed"), decrypt := fun _ _ _ _ _ => none }
    argon2 := fun _ _ _ => .ok (List.replicate 32 0) }

def sampleArgs : CreateArgs where
  targetPath := { parent := [], name := lit "v" }
  masterPassphrase := some (ascii "secret")
  gpgPassphrases _ := none
  fingerprints := [lit "0123456789ABCDEF0123456789ABCDEF01234567"]

/-- The disk is full at the call of the operating system with this number. -/
def fullDisk (n : ℕ) : World Unit Unit :=
  { sampleWorld () fun _ => none with
    faults := fun i => if i = n then some { cls := .osError, message := lit "No space left on device" } else none }

/-- The checksum does not fit on the disk: the call raises, and the new vault
is there. -/
theorem not_accountable : ¬ ∀ (γ Time : Type) (env : Platform γ Time) hasMetadata args w,
    Accountable env hasMetadata args w := by
  intro h
  obtain ⟨w, hw⟩ : ∃ w, fullDisk 6 = w := ⟨_, rfl⟩
  have hrun : (match (create sealingPlatform true sampleArgs).run w with
      | .ok _ _ => false
      | .error _ w' => (w'.files sampleArgs.targetPath).isSome) = true := by
    rw [← hw]
    decide +kernel
  have hfile : w.files sampleArgs.targetPath = none := by rw [← hw]; rfl
  cases hr : (create sealingPlatform true sampleArgs).run w with
  | ok created w' => simp [hr] at hrun
  | error e w' =>
    have hsame : w'.files sampleArgs.targetPath = w.files sampleArgs.targetPath :=
      ((h Unit Unit sealingPlatform true sampleArgs w).files e w' hr).1
    rw [hr] at hrun
    dsimp only at hrun
    rw [hsame, hfile] at hrun
    cases hrun

end VaultService
end GpgMeister
