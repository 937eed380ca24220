/-
# The pipes of a run of GnuPG

`_run_gpg` once more, with the descriptors of its two pipes: `_GPGPipes` has
them until they are closed or handed to a thread, which closes its own.

* `cleanedUp_iff`: when every descriptor of a run is closed once, or handed to a
  thread that closes it once, and the copy of the passphrase is zeroed.
* `run_runGpgPipes`: apart from its descriptors the run is that of `runGpg`.
-/
import GpgMeister.Services.GpgService

namespace GpgMeister
namespace GPGService

open Gpg Program

/-! ### The threads -/

/-- A thread of a run: how often it has closed its descriptor, and the octets
it shares with the run. -/
structure ThreadState where
  closes : ℕ := 0
  octets : Bytes := []
  deriving DecidableEq

/-- `os.close(fd)`, whose errors are suppressed -/
def closeOwn : Program ThreadState Exc Unit := modify fun s => { s with closes := s.closes + 1 }

/-- The loop of `_drain_pipe`; no octets are the end of the stream. -/
def drainReads (limit : ℕ) : List (Except Exc Bytes) → Program ThreadState Exc Unit
  | [] => return
  | .error e :: _ => raise e
  | .ok chunk :: reads => do
    let s ← get
    if chunk = [] then return
    else if s.octets.length + chunk.length > limit then return
    else do
      modify fun s => { s with octets := s.octets ++ chunk }
      drainReads limit reads

/-- `except OSError: pass` -/
def ignoreOSError (e : Exc) : Program ThreadState Exc Unit := if e.isA [.osError] then return else raise e

/-- `_drain_pipe` -/
def drainThread (limit : ℕ) (reads : List (Except Exc Bytes)) : Program ThreadState Exc Unit :=
  Program.ensuring (Program.catching (drainReads limit reads) ignoreOSError) closeOwn

/-- `_write_all`, which fails as it is told -/
def writePipe : Option Exc → Program ThreadState Exc Unit
  | none => return
  | some e => raise e

/-- `_write_passphrase_pipe` -/
def writeThread (secretFault newlineFault : Option Exc) : Program ThreadState Exc Unit :=
  Program.ensuring
    (Program.catching
      (do
        writePipe secretFault
        writePipe newlineFault)
      ignoreOSError)
    (do
      closeOwn
      modify fun s => { s with octets := zeros s.octets })

inductive PipeThread
  | statusReader
  | passphraseWriter
  deriving DecidableEq

/-- However it ends, the thread has closed its descriptor once; the writer has
zeroed the passphrase. -/
def PipeThread.ClosesOnce : PipeThread → Prop
  | .statusReader => ∀ limit reads, ((drainThread limit reads).after {}).closes = 1
  | .passphraseWriter => ∀ secret secretFault newlineFault,
      (writeThread secretFault newlineFault).after { octets := secret } = { closes := 1, octets := zeros secret }

theorem keeps_ignoreOSError {τ : Type} {f : ThreadState → τ} (e : Exc) : Keeps f (ignoreOSError e) :=
  (keeps_pure ()).ite (keeps_raise e)

theorem keeps_drainReads (limit : ℕ) : ∀ reads, Keeps ThreadState.closes (drainReads limit reads)
  | [] => keeps_pure ()
  | .error e :: _ => keeps_raise e
  | .ok chunk :: reads => by
    unfold drainReads
    refine keeps_get.bind fun s => ?_
    split
    · exact keeps_pure ()
    · split
      · exact keeps_pure ()
      · have hmodify : Keeps ThreadState.closes
            (modify fun s => { s with octets := s.octets ++ chunk } : Program ThreadState Exc Unit) := fun _ => rfl
        exact hmodify.bind fun _ => keeps_drainReads limit reads

theorem closesOnce_statusReader : PipeThread.statusReader.ClosesOnce := by
  intro limit reads
  have hreads := ((keeps_drainReads limit reads).catching keeps_ignoreOSError) {}
  have hclose (s : ThreadState) : closeOwn.run s = .ok () { s with closes := s.closes + 1 } := rfl
  rw [drainThread, after_ensuring hclose, hreads]

theorem keeps_writePipe {τ : Type} {f : ThreadState → τ} (fault : Option Exc) : Keeps f (writePipe fault) := by
  cases fault with
  | none => exact keeps_pure ()
  | some e => exact keeps_raise e

theorem closesOnce_passphraseWriter : PipeThread.passphraseWriter.ClosesOnce := by
  intro secret secretFault newlineFault
  have hwrites : Keeps id (writePipe secretFault >>= fun _ => writePipe newlineFault) :=
    (keeps_writePipe secretFault).bind fun _ => keeps_writePipe newlineFault
  have hbody := (hwrites.catching keeps_ignoreOSError) { octets := secret }
  have hlast (s : ThreadState) : (do
      closeOwn
      modify fun s => { s with octets := zeros s.octets } : Program ThreadState Exc Unit).run s =
        .ok () { closes := s.closes + 1, octets := zeros s.octets } := rfl
  rw [id, id] at hbody
  rw [writeThread, after_ensuring hlast, hbody]

theorem closesOnce : ∀ thread : PipeThread, thread.ClosesOnce
  | .statusReader => closesOnce_statusReader
  | .passphraseWriter => closesOnce_passphraseWriter

/-! ### The descriptors -/

/-- A descriptor in the parent: how often it was closed there, and the thread
it was handed to. -/
structure Descriptor where
  closes : ℕ := 0
  takenBy : Option PipeThread := none
  deriving DecidableEq

/-- Closed once, or handed to a thread that closes it once. -/
def Descriptor.Settled (d : Descriptor) : Prop :=
  d.closes = 1 ∧ d.takenBy = none ∨ d.closes = 0 ∧ ∃ thread, d.takenBy = some thread ∧ thread.ClosesOnce

def Descriptor.close (d : Descriptor) : Descriptor := { d with closes := d.closes + 1 }

/-- The fields of `_GPGPipes`. -/
inductive PipeEnd
  | passRead
  | passWrite
  | statusRead
  | statusWrite
  deriving DecidableEq

/-- A run: its descriptors, its `_GPGPipes`, and the copy of the passphrase. -/
structure PipesState where
  descriptors : List Descriptor := []
  pipes : PipeEnd → Option ℕ := fun _ => none
  passBytes : Bytes := []

/-- Where a run may fail besides its own checks. -/
inductive FaultPoint
  | binary
  | statusPipe
  | passPipe
  | popen
  | statusThread
  | passThread
  deriving DecidableEq

abbrev PipesProgram := Program PipesState Exc

/-- A call that may fail. -/
def step (fault : Option Exc) : PipesProgram Unit :=
  match fault with
  | some e => raise e
  | none => return

/-- `os.pipe()`, to two fields -/
def openPipe (fault : Option Exc) (reading writing : PipeEnd) : PipesProgram Unit := do
  step fault
  modify fun s =>
    { s with
      descriptors := s.descriptors ++ [{}, {}]
      pipes := fun e =>
        if e = reading then some s.descriptors.length
        else if e = writing then some (s.descriptors.length + 1)
        else s.pipes e }

/-- The field is cleared, and something is done with its descriptor. -/
def PipesState.release (s : PipesState) (e : PipeEnd) (f : Descriptor → Descriptor) : PipesState :=
  match s.pipes e with
  | none => s
  | some i => { s with descriptors := s.descriptors.modify i f, pipes := Function.update s.pipes e none }

/-- `os.close(fd)` of a field that has one, and the field is cleared -/
def closeEnd (e : PipeEnd) : PipesProgram Unit := modify fun s => s.release e Descriptor.close

/-- `close_child_ends` -/
def closeChildEnds : PipesProgram Unit := do
  closeEnd .passRead
  closeEnd .statusWrite

/-- `close_owned` -/
def closeOwned : PipesProgram Unit := do
  closeEnd .passRead
  closeEnd .passWrite
  closeEnd .statusRead
  closeEnd .statusWrite

/-- A thread is started with the descriptor of a field that has one: the field
is cleared first. -/
def startThread (e : PipeEnd) (thread : PipeThread) (fault : Option Exc) : PipesProgram Unit := do
  if ((← get).pipes e).isSome then
    match fault with
    | some err => do
      modify fun s => s.release e id
      raise err
    | none => modify fun s => s.release e fun d => { d with takenBy := some thread }

/-! ### The run -/

section Run

variable {γ Time : Type} (env : Platform γ Time) (g : γ) (fails : FaultPoint → Option Exc)

def openIf (wanted : Bool) (fault : Option Exc) (reading writing : PipeEnd) : PipesProgram Unit :=
  if wanted then openPipe fault reading writing else return

/-- `_validated_passphrase_bytes`: the copy is zeroed before it raises. -/
def copyPassphrase (passphrase : Option Bytes) : PipesProgram Unit := do
  modify fun s => { s with passBytes := passphrase.getD [] }
  match validatedPassphraseBytes passphrase with
  | .ok _ => return
  | .error e => do
    modify fun s => { s with passBytes := zeros s.passBytes }
    raise e

/-- The command line is checked twice: before it has the number of the
passphrase pipe, and at its end. -/
def argvCheck (args : List Str) (passphrase : Option Bytes) (statusFd : Bool) : Except Exc Unit :=
  let cmd := env.gpg.baseCmd ++ if statusFd then [lit "--status-fd", (env.gpg.pipes g).1] else []
  (if passphrase.isSome then rejectPassphraseInArgv cmd (passphrase.getD []) else .ok ()).bind fun _ =>
    rejectPassphraseInArgv (commandLine env g args passphrase.isSome statusFd) (passphrase.getD [])

/-- What `_run_gpg` does in its `try`. -/
def startAndWait (args : List Str) (input passphrase : Option Bytes) (statusFd : Bool) : PipesProgram GPGRun := do
  step (fails .popen)
  closeChildEnds
  startThread .statusRead .statusReader (fails .statusThread)
  startThread .passWrite .passphraseWriter (fails .passThread)
  let out ← Program.ofExcept (env.gpg.popen args input passphrase g).1
  return statusRun out.returncode out.stdout out.stderr (if statusFd then out.reads else [])

/-- What `_run_gpg` does in its `finally`; the threads are waited for. -/
def cleanUp : PipesProgram Unit := do
  closeOwned
  modify fun s => { s with passBytes := zeros s.passBytes }

/-- `_run_gpg` -/
def runGpgPipes (args : List Str) (input passphrase : Option Bytes) (statusFd : Bool) : PipesProgram GPGRun := do
  step (fails .binary)
  copyPassphrase passphrase
  openIf statusFd (fails .statusPipe) .statusRead .statusWrite
  openIf passphrase.isSome (fails .passPipe) .passRead .passWrite
  Program.ofExcept (argvCheck env g args passphrase statusFd)
  Program.ensuring (startAndWait env g fails args input passphrase statusFd) cleanUp

end Run

/-- Every descriptor is settled, and nothing is left of the passphrase. -/
structure CleanedUp (s : PipesState) : Prop where
  descriptors : ∀ d ∈ s.descriptors, d.Settled
  passBytes : ∀ b ∈ s.passBytes, b = 0

/-! ### What the object has -/

/-- The object has its descriptors open, each in one field; the others are
settled. -/
structure Owned (s : PipesState) : Prop where
  unique : ∀ e e' i, s.pipes e = some i → s.pipes e' = some i → e = e'
  held : ∀ e i, s.pipes e = some i → s.descriptors[i]? = some {}
  settled : ∀ i d, s.descriptors[i]? = some d → (∀ e, s.pipes e ≠ some i) → d.Settled

/-- An open descriptor that nobody has. -/
def Leaked (s : PipesState) : Prop := ∃ i : ℕ, s.descriptors[i]? = some {} ∧ ∀ e, s.pipes e ≠ some i

theorem not_settled_fresh : ¬ ({} : Descriptor).Settled := by
  rintro (⟨h, -⟩ | ⟨-, thread, h, -⟩) <;> cases h

theorem Leaked.not_cleanedUp {s : PipesState} (h : Leaked s) : ¬ CleanedUp s := by
  intro hc
  obtain ⟨i, hi, -⟩ := h
  exact not_settled_fresh (hc.descriptors _ (List.mem_of_getElem? hi))

theorem release_of_none {s : PipesState} {e : PipeEnd} (h : s.pipes e = none) (f : Descriptor → Descriptor) :
    s.release e f = s := by
  rw [PipesState.release, h]

theorem release_of_some {s : PipesState} {e : PipeEnd} {i : ℕ} (h : s.pipes e = some i)
    (f : Descriptor → Descriptor) : s.release e f =
      { s with descriptors := s.descriptors.modify i f, pipes := Function.update s.pipes e none } := by
  rw [PipesState.release, h]

/-- A descriptor that is given up in the right way. -/
theorem Owned.release {s : PipesState} (h : Owned s) (e : PipeEnd) {f : Descriptor → Descriptor}
    (hf : (f {}).Settled) : Owned (s.release e f) := by
  cases he : s.pipes e with
  | none =>
    rw [release_of_none he]
    exact h
  | some i =>
    rw [release_of_some he]
    have hupdate : ∀ e' j, Function.update s.pipes e none e' = some j → e' ≠ e ∧ s.pipes e' = some j := by
      intro e' j hj
      by_cases hee : e' = e
      · subst hee
        simp at hj
      · exact ⟨hee, by rwa [Function.update_of_ne hee] at hj⟩
    have hother : ∀ e' j, Function.update s.pipes e none e' = some j → i ≠ j := by
      rintro e' j hj rfl
      obtain ⟨hne, hj⟩ := hupdate e' i hj
      exact hne (h.unique e' e i hj he)
    refine ⟨?_, ?_, ?_⟩
    · intro e1 e2 j h1 h2
      exact h.unique e1 e2 j (hupdate e1 j h1).2 (hupdate e2 j h2).2
    · intro e' j hj
      have hij := hother e' j hj
      simpa [List.getElem?_modify, hij] using h.held e' j (hupdate e' j hj).2
    · intro j d hd hnone
      by_cases hij : i = j
      · subst hij
        rw [List.getElem?_modify, h.held e i he] at hd
        obtain rfl : f {} = d := by simpa using hd
        exact hf
      · have hd : s.descriptors[j]? = some d := by simpa [List.getElem?_modify, hij] using hd
        refine h.settled j d hd fun e' he' => ?_
        by_cases hee : e' = e
        · subst hee
          exact hij (Option.some.inj (he.symm.trans he'))
        · exact hnone e' (by simpa [Function.update_of_ne hee] using he')

/-- What nobody has is not found again. -/
theorem Leaked.release {s : PipesState} (h : Leaked s) (e : PipeEnd) (f : Descriptor → Descriptor) :
    Leaked (s.release e f) := by
  cases he : s.pipes e with
  | none =>
    rw [release_of_none he]
    exact h
  | some j =>
    rw [release_of_some he]
    obtain ⟨i, hi, hnone⟩ := h
    have hij : j ≠ i := fun hij => hnone e (hij ▸ he)
    refine ⟨i, by simpa [List.getElem?_modify, hij] using hi, fun e' he' => ?_⟩
    by_cases hee : e' = e
    · subst hee
      simp at he'
    · exact hnone e' (by simpa [Function.update_of_ne hee] using he')

/-- A field whose descriptor is forgotten. -/
theorem Owned.leaked_release {s : PipesState} (h : Owned s) {e : PipeEnd} (he : (s.pipes e).isSome = true) :
    Leaked (s.release e id) := by
  obtain ⟨i, hi⟩ := Option.isSome_iff_exists.mp he
  rw [release_of_some hi]
  refine ⟨i, by simp [h.held e i hi], fun e' he' => ?_⟩
  by_cases hee : e' = e
  · subst hee
    simp at he'
  · exact hee (h.unique e' e i (by simpa [Function.update_of_ne hee] using he') hi)

@[simp] theorem passBytes_release (s : PipesState) (e : PipeEnd) (f : Descriptor → Descriptor) :
    (s.release e f).passBytes = s.passBytes := by
  unfold PipesState.release
  cases s.pipes e <;> rfl

theorem pipes_release_self (s : PipesState) (e : PipeEnd) (f : Descriptor → Descriptor) :
    (s.release e f).pipes e = none := by
  unfold PipesState.release
  cases he : s.pipes e with
  | none => exact he
  | some i => simp

theorem pipes_release_of_ne (s : PipesState) {e e' : PipeEnd} (hne : e' ≠ e) (f : Descriptor → Descriptor) :
    (s.release e f).pipes e' = s.pipes e' := by
  unfold PipesState.release
  cases s.pipes e with
  | none => rfl
  | some i => exact Function.update_of_ne hne _ _

theorem settled_close : Descriptor.Settled (Descriptor.close {}) := .inl ⟨rfl, rfl⟩

theorem settled_takenBy (thread : PipeThread) : Descriptor.Settled { takenBy := some thread } :=
  .inr ⟨rfl, thread, rfl, closesOnce thread⟩

/-! ### The end -/

/-- The state after `cleanUp`. -/
def PipesState.cleaned (s : PipesState) : PipesState :=
  let closed := (((s.release .passRead Descriptor.close).release .passWrite Descriptor.close).release .statusRead
    Descriptor.close).release .statusWrite Descriptor.close
  { closed with passBytes := zeros s.passBytes }

theorem run_cleanUp (s : PipesState) : cleanUp.run s = .ok () s.cleaned := by
  have hrun : cleanUp.run s = .ok ()
      { (((s.release .passRead Descriptor.close).release .passWrite Descriptor.close).release .statusRead
          Descriptor.close).release .statusWrite Descriptor.close with
        passBytes := zeros ((((s.release .passRead Descriptor.close).release .passWrite Descriptor.close).release
          .statusRead Descriptor.close).release .statusWrite Descriptor.close).passBytes } := rfl
  rw [hrun]
  simp [PipesState.cleaned]

theorem zeros_eq_zero {octets : Bytes} {b : UInt8} (h : b ∈ zeros octets) : b = 0 := List.eq_of_mem_replicate h

/-- What is owned is cleaned up. -/
theorem Owned.cleanedUp {s : PipesState} (h : Owned s) : CleanedUp s.cleaned := by
  have howned := (((h.release .passRead settled_close).release .passWrite settled_close).release .statusRead
    settled_close).release .statusWrite settled_close
  refine ⟨fun d hd => ?_, fun b hb => zeros_eq_zero hb⟩
  obtain ⟨i, hi⟩ := List.mem_iff_getElem?.mp hd
  refine howned.settled i d hi fun e => ?_
  cases e <;> simp [pipes_release_self, pipes_release_of_ne]

/-- What is lost stays lost. -/
theorem Leaked.cleaned {s : PipesState} (h : Leaked s) : ¬ CleanedUp s.cleaned := by
  obtain ⟨i, hi, -⟩ := (((h.release .passRead Descriptor.close).release .passWrite Descriptor.close).release
    .statusRead Descriptor.close).release .statusWrite Descriptor.close
  intro hc
  exact not_settled_fresh (hc.descriptors _ (List.mem_of_getElem? hi))

/-! ### From the pipes to the end -/

/-- The state after `os.pipe()`. -/
def PipesState.opened (s : PipesState) (reading writing : PipeEnd) : PipesState where
  descriptors := s.descriptors ++ [{}, {}]
  pipes e :=
    if e = reading then some s.descriptors.length
    else if e = writing then some (s.descriptors.length + 1)
    else s.pipes e
  passBytes := s.passBytes

theorem Owned.opened {s : PipesState} (h : Owned s) {reading writing : PipeEnd} (hne : writing ≠ reading)
    (hr : s.pipes reading = none) (hw : s.pipes writing = none) : Owned (s.opened reading writing) := by
  have hlt : ∀ e i, s.pipes e = some i → i < s.descriptors.length := fun e i hi =>
    (List.getElem?_eq_some_iff.mp (h.held e i hi)).1
  -- a field has one of the new descriptors, or one that it had
  have hfield : ∀ e i, (s.opened reading writing).pipes e = some i →
      e = reading ∧ i = s.descriptors.length ∨ e = writing ∧ i = s.descriptors.length + 1 ∨ s.pipes e = some i := by
    intro e i hi
    change (if e = reading then _ else if e = writing then _ else _) = some i at hi
    split_ifs at hi with h1 h2
    · exact .inl ⟨h1, (Option.some.inj hi).symm⟩
    · exact .inr (.inl ⟨h2, (Option.some.inj hi).symm⟩)
    · exact .inr (.inr hi)
  refine ⟨?_, ?_, ?_⟩
  · intro e e' i he he'
    rcases hfield e i he with ⟨h1, hi⟩ | ⟨h1, hi⟩ | h1 <;> rcases hfield e' i he' with ⟨h2, hi'⟩ | ⟨h2, hi'⟩ | h2
    · rw [h1, h2]
    · omega
    · exact absurd (hlt e' i h2) (by omega)
    · omega
    · rw [h1, h2]
    · exact absurd (hlt e' i h2) (by omega)
    · exact absurd (hlt e i h1) (by omega)
    · exact absurd (hlt e i h1) (by omega)
    · exact h.unique e e' i h1 h2
  · intro e i he
    change (s.descriptors ++ [({} : Descriptor), ({} : Descriptor)])[i]? = some {}
    rcases hfield e i he with ⟨-, rfl⟩ | ⟨-, rfl⟩ | he
    · simp
    · simp
    · rw [List.getElem?_append_left (hlt e i he), h.held e i he]
  · intro i d hd hnone
    change (s.descriptors ++ [({} : Descriptor), ({} : Descriptor)])[i]? = some d at hd
    rcases Nat.lt_or_ge i s.descriptors.length with hi | hi
    · rw [List.getElem?_append_left hi] at hd
      refine h.settled i d hd fun e he => ?_
      refine hnone e ?_
      change (if e = reading then _ else if e = writing then _ else _) = some i
      rw [if_neg (by rintro rfl; rw [hr] at he; cases he), if_neg (by rintro rfl; rw [hw] at he; cases he), he]
    · have hlen := (List.getElem?_eq_some_iff.mp hd).1
      rw [List.length_append] at hlen
      rcases Nat.eq_or_lt_of_le hi with rfl | hi
      · exact absurd (if_pos rfl) (hnone reading)
      · obtain rfl : i = s.descriptors.length + 1 := by simp at hlen; omega
        have hwriting : (s.opened reading writing).pipes writing = some (s.descriptors.length + 1) := by
          change (if writing = reading then _ else if writing = writing then _ else _) = _
          rw [if_neg hne, if_pos rfl]
        exact absurd hwriting (hnone writing)

/-- A thread does not start. -/
structure Lost (fails : FaultPoint → Option Exc) (s : PipesState) : Prop where
  started : fails .popen = none
  thread : (s.pipes .statusRead).isSome = true ∧ fails .statusThread ≠ none ∨
    (s.pipes .passWrite).isSome = true ∧ fails .passThread ≠ none

theorem meets_startThread {s : PipesState} (h : Owned s) (e : PipeEnd) (thread : PipeThread) (fault : Option Exc) :
    (startThread e thread fault).Meets s
      (fun _ s' => Owned s' ∧ ((s.pipes e).isSome = true → fault = none) ∧ ∀ e', e' ≠ e → s'.pipes e' = s.pipes e')
      fun _ s' => Leaked s' ∧ (s.pipes e).isSome = true ∧ fault ≠ none := by
  unfold startThread
  rw [meets_bind, meets_get]
  by_cases he : (s.pipes e).isSome = true
  · rw [if_pos he]
    cases fault with
    | none =>
      rw [meets_modify]
      exact ⟨h.release e (settled_takenBy thread), fun _ => rfl, fun e' hne => pipes_release_of_ne s hne _⟩
    | some err =>
      rw [meets_bind, meets_modify, meets_raise]
      exact ⟨h.leaked_release he, he, by simp⟩
  · rw [if_neg he]
    exact ⟨h, fun h' => absurd h' he, fun _ _ => rfl⟩

section Run

variable {γ Time : Type} {env : Platform γ Time} {g : γ} {fails : FaultPoint → Option Exc}

/-- The `try` of a run keeps what it has, or loses it. -/
theorem owned_startAndWait {s : PipesState} (h : Owned s) (args : List Str) (input passphrase : Option Bytes)
    (statusFd : Bool) : (startAndWait env g fails args input passphrase statusFd).Meets s
      (fun _ s' => Owned s' ∧ ¬ Lost fails s) fun _ s' => Owned s' ∧ ¬ Lost fails s ∨ Leaked s' ∧ Lost fails s := by
  unfold startAndWait
  rw [meets_bind]
  cases hpopen : fails .popen with
  | some e =>
    refine .inl ⟨h, fun hlost => ?_⟩
    rw [hlost.started] at hpopen
    cases hpopen
  | none =>
    rw [step, meets_pure, meets_bind]
    have hchild := (h.release .passRead settled_close).release .statusWrite settled_close
    change Meets _ ((s.release .passRead Descriptor.close).release .statusWrite Descriptor.close) _ _
    have hstatus : ((s.release .passRead Descriptor.close).release .statusWrite Descriptor.close).pipes .statusRead =
        s.pipes .statusRead := by simp [pipes_release_of_ne]
    have hpass : ((s.release .passRead Descriptor.close).release .statusWrite Descriptor.close).pipes .passWrite =
        s.pipes .passWrite := by simp [pipes_release_of_ne]
    rw [meets_bind]
    refine (meets_startThread hchild .statusRead .statusReader (fails .statusThread)).mono ?_ ?_
    · intro _ s1 h1
      obtain ⟨howned, hreader, hsame⟩ := h1
      rw [hstatus] at hreader
      have hpass1 := (hsame .passWrite (by decide)).trans hpass
      rw [meets_bind]
      refine (meets_startThread howned .passWrite .passphraseWriter (fails .passThread)).mono ?_ ?_
      · intro _ s2 h2
        obtain ⟨howned, hwriter, -⟩ := h2
        rw [hpass1] at hwriter
        have hnot : ¬ Lost fails s := fun hlost =>
          hlost.thread.elim (fun hr => hr.2 (hreader hr.1)) fun hw => hw.2 (hwriter hw.1)
        rw [meets_bind]
        cases (env.gpg.popen args input passphrase g).1 with
        | ok out => exact ⟨howned, hnot⟩
        | error e => exact .inl ⟨howned, hnot⟩
      · intro _ s2 h2
        obtain ⟨hleaked, hsome, hfault⟩ := h2
        rw [hpass1] at hsome
        exact .inr ⟨hleaked, hpopen, .inr ⟨hsome, hfault⟩⟩
    · intro _ s1 h1
      obtain ⟨hleaked, hsome, hfault⟩ := h1
      rw [hstatus] at hsome
      exact .inr ⟨hleaked, hpopen, .inl ⟨hsome, hfault⟩⟩

/-! ### The whole run -/

/-- What a run with GnuPG's executable in place, and with a passphrase that
fits on a line, needs to clean up. -/
structure Careful (env : Platform γ Time) (g : γ) (fails : FaultPoint → Option Exc) (args : List Str)
    (passphrase : Option Bytes) (statusFd : Bool) : Prop where
  /-- Without its first pipe a run leaves the passphrase. -/
  statusPipe : statusFd = true → fails .statusPipe ≠ none → passphrase.getD [] = []
  /-- Without its second, the first pipe too. -/
  passPipe : (statusFd = true → fails .statusPipe = none) → passphrase.isSome = true → fails .passPipe ≠ none →
    statusFd = false ∧ passphrase.getD [] = []
  argv : (statusFd = true → fails .statusPipe = none) → (passphrase.isSome = true → fails .passPipe = none) →
    rejectPassphraseInArgv (commandLine env g args passphrase.isSome statusFd) (passphrase.getD []) = .ok ()
  threads : (statusFd = true → fails .statusPipe = none) → (passphrase.isSome = true → fails .passPipe = none) →
    fails .popen = none →
      (statusFd = true → fails .statusThread = none) ∧ (passphrase.isSome = true → fails .passThread = none)

theorem rejectPassphraseInArgv_nil (argv : List Str) : rejectPassphraseInArgv argv [] = .ok () :=
  if_neg fun h => h.1 rfl

theorem rejectPassphraseInArgv_of_subset {argv argv' : List Str} (hsub : argv ⊆ argv') {passphrase : Bytes} {e : Exc}
    (h : rejectPassphraseInArgv argv passphrase = .error e) : rejectPassphraseInArgv argv' passphrase = .error e := by
  unfold rejectPassphraseInArgv at h ⊢
  split at h
  · rename_i hcond
    obtain ⟨item, hitem, hinfix⟩ := hcond.2
    rw [if_pos ⟨hcond.1, item, hsub hitem, hinfix⟩]
    exact h
  · cases h

/-- The first check finds nothing that the second does not. -/
theorem argvCheck_eq (args : List Str) (passphrase : Option Bytes) (statusFd : Bool) :
    argvCheck env g args passphrase statusFd =
      rejectPassphraseInArgv (commandLine env g args passphrase.isSome statusFd) (passphrase.getD []) := by
  cases passphrase with
  | none => rfl
  | some octets =>
    have hsub : env.gpg.baseCmd ++ (if statusFd then [lit "--status-fd", (env.gpg.pipes g).1] else []) ⊆
        commandLine env g args true statusFd := by
      intro item hitem
      exact List.mem_append_left _ (List.mem_append_left _ hitem)
    change Except.bind (rejectPassphraseInArgv _ octets) _ = rejectPassphraseInArgv _ octets
    cases hfirst : rejectPassphraseInArgv
        (env.gpg.baseCmd ++ if statusFd then [lit "--status-fd", (env.gpg.pipes g).1] else []) octets with
    | ok _ => rfl
    | error e => exact (rejectPassphraseInArgv_of_subset hsub hfirst).symm

/-- The pipe is made, if it is wanted. -/
def PipesState.openedIf (s : PipesState) (wanted : Bool) (reading writing : PipeEnd) : PipesState :=
  if wanted then s.opened reading writing else s

theorem run_openIf_none (wanted : Bool) {fault : Option Exc} (hfault : wanted = true → fault = none)
    (reading writing : PipeEnd) (s : PipesState) :
    (openIf wanted fault reading writing).run s = .ok () (s.openedIf wanted reading writing) := by
  cases wanted with
  | false => rfl
  | true =>
    rw [hfault rfl]
    rfl

theorem run_openIf_some {wanted : Bool} {fault : Option Exc} (hfault : ¬ (wanted = true → fault = none))
    (reading writing : PipeEnd) (s : PipesState) :
    ∃ e, (openIf wanted fault reading writing).run s = .error e s := by
  obtain ⟨rfl, hne⟩ := Classical.not_imp.mp hfault
  obtain ⟨e, rfl⟩ := Option.ne_none_iff_exists'.mp hne
  exact ⟨e, rfl⟩

/-- The state with its pipes. -/
def piped (passphrase : Option Bytes) (statusFd : Bool) : PipesState :=
  (PipesState.openedIf { passBytes := passphrase.getD [] } statusFd .statusRead .statusWrite).openedIf
    passphrase.isSome .passRead .passWrite

theorem owned_start (octets : Bytes) : Owned { passBytes := octets } :=
  ⟨fun _ _ _ h => by simp at h, fun _ _ h => by simp at h, fun _ _ h => by simp at h⟩

theorem owned_piped (passphrase : Option Bytes) (statusFd : Bool) : Owned (piped passphrase statusFd) := by
  have hfirst : Owned (PipesState.openedIf { passBytes := passphrase.getD [] } statusFd .statusRead .statusWrite) := by
    cases statusFd with
    | false => exact owned_start _
    | true => exact (owned_start _).opened (by decide) rfl rfl
  unfold piped
  cases passphrase.isSome with
  | false => exact hfirst
  | true => cases statusFd <;> exact hfirst.opened (by decide) rfl rfl

theorem passBytes_piped (passphrase : Option Bytes) (statusFd : Bool) :
    (piped passphrase statusFd).passBytes = passphrase.getD [] := by
  unfold piped PipesState.openedIf
  cases statusFd <;> cases passphrase.isSome <;> rfl

theorem lost_piped_iff (passphrase : Option Bytes) (statusFd : Bool) : Lost fails (piped passphrase statusFd) ↔
    fails .popen = none ∧
      (statusFd = true ∧ fails .statusThread ≠ none ∨ passphrase.isSome = true ∧ fails .passThread ≠ none) := by
  have hstatus : ((piped passphrase statusFd).pipes .statusRead).isSome = statusFd := by
    unfold piped PipesState.openedIf
    cases statusFd <;> cases passphrase.isSome <;> rfl
  have hpass : ((piped passphrase statusFd).pipes .passWrite).isSome = passphrase.isSome := by
    unfold piped PipesState.openedIf
    cases statusFd <;> cases passphrase.isSome <;> rfl
  constructor
  · intro h
    have hthread := h.thread
    rw [hstatus, hpass] at hthread
    exact ⟨h.started, hthread⟩
  · intro h
    refine ⟨h.1, ?_⟩
    rw [hstatus, hpass]
    exact h.2

/-- A passphrase without NUL is zeroed where it is empty. -/
theorem zeroed_iff {octets : Bytes} (h : octets.any (· ∈ framingBytes) = false) :
    (∀ b ∈ octets, b = 0) ↔ octets = [] := by
  constructor
  · intro hzero
    cases octets with
    | nil => rfl
    | cons b rest =>
      obtain rfl := hzero b List.mem_cons_self
      rw [List.any_cons] at h
      cases h
  · intro heq b hb
    rw [heq] at hb
    cases hb

theorem cleanedUp_ensuring {s : PipesState} (h : Owned s) (args : List Str) (input passphrase : Option Bytes)
    (statusFd : Bool) :
    CleanedUp ((Program.ensuring (startAndWait env g fails args input passphrase statusFd) cleanUp).after s) ↔
      ¬ Lost fails s := by
  rw [after_ensuring run_cleanUp]
  have hmeets : (startAndWait env g fails args input passphrase statusFd).Meets s _ _ :=
    owned_startAndWait h args input passphrase statusFd
  cases hrun : (startAndWait env g fails args input passphrase statusFd).run s with
  | ok a s' =>
    obtain ⟨howned, hnot⟩ := hmeets.of_run_eq_ok hrun
    rw [after_of_run_eq_ok hrun]
    exact iff_of_true howned.cleanedUp hnot
  | error e s' =>
    rw [after_of_run_eq_error hrun]
    rcases hmeets.of_run_eq_error hrun with ⟨howned, hnot⟩ | ⟨hleaked, hlost⟩
    · exact iff_of_true howned.cleanedUp hnot
    · exact iff_of_false hleaked.cleaned (not_not_intro hlost)

/-- From its pipes on, a run cleans up if it is not refused and loses nothing. -/
theorem cleanedUp_piped (args : List Str) (input : Option Bytes) {passphrase : Option Bytes} (statusFd : Bool)
    (hline : (passphrase.getD []).any (· ∈ framingBytes) = false) :
    CleanedUp ((do
      Program.ofExcept (argvCheck env g args passphrase statusFd)
      Program.ensuring (startAndWait env g fails args input passphrase statusFd) cleanUp).after
        (piped passphrase statusFd)) ↔
      rejectPassphraseInArgv (commandLine env g args passphrase.isSome statusFd) (passphrase.getD []) = .ok () ∧
        ¬ Lost fails (piped passphrase statusFd) := by
  have howned := owned_piped passphrase statusFd
  rw [argvCheck_eq]
  cases hcheck : rejectPassphraseInArgv (commandLine env g args passphrase.isSome statusFd) (passphrase.getD []) with
  | ok _ =>
    rw [after_bind_of_ok (run_ofExcept_ok () _), cleanedUp_ensuring howned]
    exact (and_iff_right rfl).symm
  | error e =>
    rw [after_bind_of_error (run_ofExcept_error e _)]
    refine iff_of_false (fun hclean => ?_) fun h => by cases h.1
    have hempty := (zeroed_iff hline).mp (passBytes_piped passphrase statusFd ▸ hclean.passBytes)
    rw [hempty, rejectPassphraseInArgv_nil] at hcheck
    cases hcheck

theorem cleanedUp_start {octets : Bytes} (h : ∀ b ∈ octets, b = 0) : CleanedUp { passBytes := octets } :=
  ⟨fun _ hd => by simp at hd, h⟩

/-- A run that ends with what `os.pipe()` has left it. -/
theorem cleanedUp_openedIf {octets : Bytes} (hline : octets.any (· ∈ framingBytes) = false) (wanted : Bool) :
    CleanedUp (PipesState.openedIf { passBytes := octets } wanted .statusRead .statusWrite) ↔
      wanted = false ∧ octets = [] := by
  rw [← zeroed_iff hline]
  cases wanted with
  | false =>
    constructor
    · intro h
      exact ⟨rfl, h.passBytes⟩
    · intro h
      exact cleanedUp_start h.2
  | true =>
    refine iff_of_false (fun h => ?_) fun h => by cases h.1
    exact not_settled_fresh (h.descriptors {} List.mem_cons_self)

/-- The run from its second pipe on. -/
theorem cleanedUp_second (args : List Str) (input : Option Bytes) {passphrase : Option Bytes} {statusFd : Bool}
    (hline : (passphrase.getD []).any (· ∈ framingBytes) = false)
    (hstatus : statusFd = true → fails .statusPipe = none) :
    CleanedUp ((do
      openIf passphrase.isSome (fails .passPipe) .passRead .passWrite
      Program.ofExcept (argvCheck env g args passphrase statusFd)
      Program.ensuring (startAndWait env g fails args input passphrase statusFd) cleanUp).after
        (PipesState.openedIf { passBytes := passphrase.getD [] } statusFd .statusRead .statusWrite)) ↔
      Careful env g fails args passphrase statusFd := by
  by_cases hpass : passphrase.isSome = true → fails .passPipe = none
  · rw [after_bind_of_ok (run_openIf_none _ hpass _ _ _)]
    refine (cleanedUp_piped args input statusFd hline).trans ?_
    rw [lost_piped_iff]
    constructor
    · intro h
      refine ⟨fun hs hne => absurd (hstatus hs) hne, fun _ hp hne => absurd (hpass hp) hne, fun _ _ => h.1, ?_⟩
      intro _ _ hpopen
      refine ⟨fun hs => ?_, fun hp => ?_⟩
      · exact by_contra fun hne => h.2 ⟨hpopen, .inl ⟨hs, hne⟩⟩
      · exact by_contra fun hne => h.2 ⟨hpopen, .inr ⟨hp, hne⟩⟩
    · intro h
      refine ⟨h.argv hstatus hpass, fun hlost => ?_⟩
      have hthreads := h.threads hstatus hpass hlost.1
      exact hlost.2.elim (fun hs => hs.2 (hthreads.1 hs.1)) fun hp => hp.2 (hthreads.2 hp.1)
  · obtain ⟨e, hopen⟩ := run_openIf_some hpass .passRead .passWrite
      (PipesState.openedIf { passBytes := passphrase.getD [] } statusFd .statusRead .statusWrite)
    rw [after_bind_of_error hopen, cleanedUp_openedIf hline]
    obtain ⟨hp, hne⟩ := Classical.not_imp.mp hpass
    constructor
    · intro h
      exact ⟨fun _ _ => h.2, fun _ _ _ => h, fun _ hpass' => absurd hpass' hpass, fun _ hpass' => absurd hpass' hpass⟩
    · intro h
      exact h.passPipe hstatus hp hne

/-- The run from its first pipe on. -/
theorem cleanedUp_first (args : List Str) (input : Option Bytes) {passphrase : Option Bytes} {statusFd : Bool}
    (hline : (passphrase.getD []).any (· ∈ framingBytes) = false) :
    CleanedUp ((do
      openIf statusFd (fails .statusPipe) .statusRead .statusWrite
      openIf passphrase.isSome (fails .passPipe) .passRead .passWrite
      Program.ofExcept (argvCheck env g args passphrase statusFd)
      Program.ensuring (startAndWait env g fails args input passphrase statusFd) cleanUp).after
        { passBytes := passphrase.getD [] }) ↔ Careful env g fails args passphrase statusFd := by
  by_cases hstatus : statusFd = true → fails .statusPipe = none
  · rw [after_bind_of_ok (run_openIf_none statusFd hstatus _ _ _)]
    exact cleanedUp_second args input hline hstatus
  · obtain ⟨e, hopen⟩ := run_openIf_some hstatus .statusRead .statusWrite { passBytes := passphrase.getD [] }
    obtain ⟨hs, hne⟩ := Classical.not_imp.mp hstatus
    have hleft := cleanedUp_openedIf hline false
    rw [PipesState.openedIf, if_neg Bool.false_ne_true] at hleft
    rw [after_bind_of_error hopen, hleft]
    constructor
    · intro h
      exact ⟨fun _ _ => h.2, fun hs' => absurd hs' hstatus, fun hs' => absurd hs' hstatus,
        fun hs' => absurd hs' hstatus⟩
    · intro h
      exact ⟨rfl, h.statusPipe hs hne⟩

/-- **When a run cleans up.** -/
theorem cleanedUp_iff (env : Platform γ Time) (g : γ) (fails : FaultPoint → Option Exc) (args : List Str)
    (input passphrase : Option Bytes) (statusFd : Bool) :
    CleanedUp ((runGpgPipes env g fails args input passphrase statusFd).after {}) ↔
      (fails .binary = none → validatedPassphraseBytes passphrase = .ok (passphrase.getD []) →
        Careful env g fails args passphrase statusFd) := by
  unfold runGpgPipes
  cases hbinary : fails .binary with
  | some e =>
    rw [after_bind_of_error (x := step (some e)) rfl]
    exact iff_of_true (cleanedUp_start fun b hb => by simp at hb) fun h => by cases h
  | none =>
    rw [after_bind_of_ok (x := step none) rfl]
    by_cases hframing : (passphrase.getD []).any (· ∈ framingBytes) = true
    · have hrefused : validatedPassphraseBytes passphrase =
          .error (validationError (lit "passphrase must not contain NUL or newline characters")) := if_pos hframing
      have hcopy : (copyPassphrase passphrase).run {} =
          .error (validationError (lit "passphrase must not contain NUL or newline characters"))
            { passBytes := zeros (passphrase.getD []) } := by
        unfold copyPassphrase
        rw [hrefused]
        rfl
      rw [after_bind_of_error hcopy]
      refine iff_of_true (cleanedUp_start fun b hb => zeros_eq_zero hb) fun _ h => ?_
      rw [hrefused] at h
      cases h
    · have haccepted : validatedPassphraseBytes passphrase = .ok (passphrase.getD []) := if_neg hframing
      have hcopy : (copyPassphrase passphrase).run {} = .ok () { passBytes := passphrase.getD [] } := by
        unfold copyPassphrase
        rw [haccepted]
        rfl
      rw [after_bind_of_ok hcopy, cleanedUp_first args input (Bool.eq_false_iff.mpr hframing)]
      constructor
      · intro h _ _
        exact h
      · intro h
        exact h rfl haccepted

/-- A passphrase that is also in the command line: its pipes are left, and its
copy. -/
theorem not_cleanedUp_runGpgPipes :
    ¬ CleanedUp ((runGpgPipes (samplePlatform noGnuPG) () (fun _ => none) [lit "--decrypt"] (some [])
      (some (ascii "decrypt")) true).after {}) := by
  intro h
  have hleft : ((runGpgPipes (samplePlatform noGnuPG) () (fun _ => none) [lit "--decrypt"] (some [])
      (some (ascii "decrypt")) true).after {}).passBytes = ascii "decrypt" := by decide +kernel
  have hzero := h.passBytes
  rw [hleft] at hzero
  exact absurd (hzero 100 (by decide)) (by decide)

/-! ### Against the run without pipes -/

/-- What a run comes to where nothing fails but GnuPG. -/
def runOutcome (env : Platform γ Time) (g : γ) (args : List Str) (input passphrase : Option Bytes)
    (statusFd : Bool) : Except Exc GPGRun := do
  let passBytes ← validatedPassphraseBytes passphrase
  rejectPassphraseInArgv (commandLine env g args passphrase.isSome statusFd) passBytes
  let out ← (env.gpg.popen args input passphrase g).1
  return statusRun out.returncode out.stdout out.stderr (if statusFd then out.reads else [])

theorem runOutcome_of_refused {args : List Str} {input passphrase : Option Bytes} {statusFd : Bool} {e : Exc}
    (h : validatedPassphraseBytes passphrase = .error e) : runOutcome env g args input passphrase statusFd = .error e := by
  unfold runOutcome
  rw [h]
  rfl

theorem runOutcome_of_accepted {args : List Str} {input passphrase : Option Bytes} {statusFd : Bool} {passBytes : Bytes}
    (h : validatedPassphraseBytes passphrase = .ok passBytes) : runOutcome env g args input passphrase statusFd =
      (rejectPassphraseInArgv (commandLine env g args passphrase.isSome statusFd) passBytes).bind fun _ =>
        (env.gpg.popen args input passphrase g).1.bind fun out =>
          .ok (statusRun out.returncode out.stdout out.stderr (if statusFd then out.reads else [])) := by
  unfold runOutcome
  rw [h]
  rfl

theorem meets_runGpg {w : World γ Time} (h0 : w.faults 0 = none) (h1 : w.faults 1 = none) (args : List Str)
    (input passphrase : Option Bytes) (statusFd : Bool) : (runGpg env args input passphrase statusFd).Meets w
      (fun proc _ => runOutcome env w.gnupg args input passphrase statusFd = .ok proc)
      fun e _ => runOutcome env w.gnupg args input passphrase statusFd = .error e := by
  unfold runGpg
  rw [meets_bind, Meets, run_syscall_of_none h0]
  change Meets _ _ _ _
  cases hvalid : validatedPassphraseBytes passphrase with
  | error e => exact runOutcome_of_refused hvalid
  | ok passBytes =>
    rw [meets_bind, meets_ofExcept_ok, meets_bind, Meets, run_syscall_of_none h1, runOutcome_of_accepted hvalid]
    change Meets (Program.ofExcept (rejectPassphraseInArgv
      (commandLine env w.gnupg args passphrase.isSome statusFd) passBytes) >>= _) _ _ _
    cases rejectPassphraseInArgv (commandLine env w.gnupg args passphrase.isSome statusFd) passBytes with
    | error e => rfl
    | ok _ =>
      rw [meets_bind, meets_ofExcept_ok, meets_bind]
      unfold Meets onGnupg
      simp only [EStateM.run]
      rcases env.gpg.popen args input passphrase w.gnupg with ⟨_ | _, g⟩
      · rfl
      · rfl

theorem meets_startThread_none {s : PipesState} (e : PipeEnd) (thread : PipeThread) :
    (startThread e thread none).Meets s (fun _ _ => True) fun _ _ => False := by
  unfold startThread
  rw [meets_bind, meets_get]
  split
  · trivial
  · trivial

theorem meets_startAndWait (g : γ) (args : List Str) (input passphrase : Option Bytes) (statusFd : Bool)
    (s : PipesState) : (startAndWait env g (fun _ => none) args input passphrase statusFd).Meets s
      (fun proc _ => (env.gpg.popen args input passphrase g).1.bind (fun out =>
        .ok (statusRun out.returncode out.stdout out.stderr (if statusFd then out.reads else []))) = .ok proc)
      fun e _ => (env.gpg.popen args input passphrase g).1.bind (fun out =>
        .ok (statusRun out.returncode out.stdout out.stderr (if statusFd then out.reads else []))) = .error e := by
  unfold startAndWait
  rw [step, meets_bind, meets_pure, meets_bind]
  change Meets (_ >>= _) ((s.release .passRead Descriptor.close).release .statusWrite Descriptor.close) _ _
  rw [meets_bind]
  refine (meets_startThread_none .statusRead .statusReader).mono (fun _ s1 _ => ?_) fun _ _ => False.elim
  rw [meets_bind]
  refine (meets_startThread_none .passWrite .passphraseWriter).mono (fun _ s2 _ => ?_) fun _ _ => False.elim
  rw [meets_bind]
  cases (env.gpg.popen args input passphrase g).1 with
  | ok out => rfl
  | error e => rfl

/-- **The pipes change nothing**: where only GnuPG fails, the run with pipes
ends as `runGpg` does. -/
theorem run_runGpgPipes {w : World γ Time} (h0 : w.faults 0 = none) (h1 : w.faults 1 = none) (args : List Str)
    (input passphrase : Option Bytes) (statusFd : Bool) : ∃ r : Except Exc GPGRun,
      (runGpg env args input passphrase statusFd).Meets w (fun proc _ => r = .ok proc) (fun e _ => r = .error e) ∧
      (runGpgPipes env w.gnupg (fun _ => none) args input passphrase statusFd).Meets {}
        (fun proc _ => r = .ok proc) fun e _ => r = .error e := by
  refine ⟨_, meets_runGpg h0 h1 args input passphrase statusFd, ?_⟩
  unfold runGpgPipes copyPassphrase
  rw [step, meets_bind, meets_pure, meets_bind, meets_bind, meets_modify]
  cases hvalid : validatedPassphraseBytes passphrase with
  | error e =>
    rw [meets_bind, meets_modify]
    exact runOutcome_of_refused hvalid
  | ok passBytes =>
    have hbytes : passphrase.getD [] = passBytes := by
      unfold validatedPassphraseBytes at hvalid
      split at hvalid
      · cases hvalid
      · exact Except.ok.inj hvalid
    rw [runOutcome_of_accepted hvalid, meets_pure, meets_bind, Meets, run_openIf_none _ fun _ => rfl]
    change Meets _ _ _ _
    rw [meets_bind, Meets, run_openIf_none _ fun _ => rfl]
    change Meets _ _ _ _
    rw [argvCheck_eq, hbytes]
    cases rejectPassphraseInArgv (commandLine env w.gnupg args passphrase.isSome statusFd) passBytes with
    | error e => rfl
    | ok _ =>
      rw [meets_bind, meets_ofExcept_ok, meets_ensuring]
      refine (meets_startAndWait w.gnupg args input passphrase statusFd _).mono ?_ ?_
      · intro proc s hproc
        exact hproc
      · intro e s he
        exact he

end Run

end GPGService
end GpgMeister
