/-
# The advisory file lock

`storage/file_lock.py` on POSIX: `FileLock.acquire` opens (or creates) the
lock file, takes `flock` on it without waiting, and then compares the inode
of its descriptor with the inode the path names, opening again if they
differ; `FileLock.release` unlocks, closes and unlinks the path. Each system
call is one step, and any number of locks on one target run at once.

* `step`: one system call of one lock.
* `MutualExclusion`: an exclusive holder is the only holder.
* The unlink of a release happens after its unlock, so it can remove the file
  another lock already holds; `UnlinkUnheld` is the condition that it does not.
-/
import GpgMeister.Lib.System

namespace GpgMeister
namespace FileLock

/-- `fcntl.LOCK_EX` or `fcntl.LOCK_SH`. -/
inductive Mode
  | exclusive
  | shared
  deriving DecidableEq, Repr

abbrev Inode := ℕ

/-- Where a lock stands between two system calls. -/
inductive Pc
  /-- No descriptor: before `acquire`, or after `release`. -/
  | idle
  /-- `acquire`, at the non-blocking `flock`. -/
  | flocking
  /-- `flock` was refused and the deadline is over: about to close and raise. -/
  | timingOut
  /-- `flock` was granted, at `os.fstat(fd)`. -/
  | fstatting
  /-- At `os.stat(path)`, with what `os.fstat` returned. -/
  | statting (fdStat : Inode)
  /-- The inodes differ or the path is gone: about to close. -/
  | closingStale
  /-- Closed, about to open the path again. -/
  | reopening
  /-- `acquire` has returned, `release` has not started. -/
  | holding
  /-- `release` has unlocked, about to close. -/
  | closing
  /-- `release` has closed, about to unlink the path. -/
  | unlinking
  deriving DecidableEq, Repr

/-- One `FileLock`: its place in the code, the inode its descriptor is open
on, and the mode in which that descriptor is locked. -/
structure Proc where
  pc : Pc := .idle
  fd : Option Inode := none
  flock : Option Mode := none
  deriving DecidableEq, Repr

/-- The system calls. -/
inductive Call
  /-- `os.open(lock_path, O_RDWR | O_CREAT)` of `acquire` or of its retry. -/
  | open
  /-- The `os.open` of the retry fails, which `acquire` does not catch. -/
  | openFails
  /-- `fcntl.flock(fd, op | LOCK_NB)`; `deadlineOver` is the test after a refusal. -/
  | flock (deadlineOver : Bool)
  | fstat
  | stat
  | close
  /-- `fcntl.flock(fd, LOCK_UN)`. -/
  | unlock
  | unlink
  deriving DecidableEq, Repr

/-- The file system and every lock. An inode number is not given out again, as
no file is removed for good while a descriptor is open on it. -/
structure State (Pid : Type) where
  path : Option Inode
  nextInode : Inode
  procs : Pid → Proc

def initial {Pid : Type} : State Pid where
  path := none
  nextInode := 0
  procs _ := {}

section Safety

variable {Pid : Type}

/-- `acquire` has returned and `release` has not started. -/
def Holds (s : State Pid) (p : Pid) : Prop := (s.procs p).pc = .holding

instance (s : State Pid) (p : Pid) : Decidable (Holds s p) := by unfold Holds; infer_instance

/-- Of two holders, neither is exclusive. -/
def MutualExclusion (mode : Pid → Mode) (s : State Pid) : Prop :=
  ∀ p q, p ≠ q → Holds s p → Holds s q → mode p = .shared ∧ mode q = .shared

/-! ### Holders hold the file the path names

As long as no unlink removes the file under a holder, the descriptor of every
holder is open on the inode the path names, so two holders lock one inode and
`flock` keeps them apart. -/

/-- What a lock's descriptor is, at each place in the code. -/
def ProcOk (m : Mode) (path : Option Inode) (x : Proc) : Prop :=
  match x.pc with
  | .fstatting => x.flock = some m
  | .statting i => x.fd = some i ∧ x.flock = some m
  | .closingStale => x.flock = some m
  | .holding => x.flock = some m ∧ x.fd = path ∧ path ≠ none
  | _ => x.flock = none

/-- Two descriptors locked on one inode are locked in shared mode. -/
def Compatible (mode : Pid → Mode) (p q : Pid) (x y : Proc) : Prop :=
  x.fd = y.fd → x.fd ≠ none → x.flock ≠ none → y.flock ≠ none → mode p = .shared ∧ mode q = .shared

structure Inv (mode : Pid → Mode) (s : State Pid) : Prop where
  proc : ∀ p, ProcOk (mode p) s.path (s.procs p)
  compat : ∀ p q, p ≠ q → Compatible mode p q (s.procs p) (s.procs q)

theorem inv_initial (mode : Pid → Mode) : Inv mode initial where
  proc _ := rfl
  compat _ _ _ _ _ h := absurd rfl h

/-- A locked descriptor is locked in its own lock's mode. -/
theorem ProcOk.flock_eq {m : Mode} {path : Option Inode} {x : Proc} (h : ProcOk m path x)
    (hx : x.flock ≠ none) : x.flock = some m := by
  unfold ProcOk at h
  split at h
  · exact h
  · exact h.2
  · exact h
  · exact h.1
  · exact absurd h hx

theorem Compatible.symm {mode : Pid → Mode} {p q : Pid} {x y : Proc} (h : Compatible mode p q x y) :
    Compatible mode q p y x := fun he hn hy hx => (h he.symm (he ▸ hn) hx hy).symm

/-- While nobody holds the lock, the path may change. -/
theorem Inv.setPath {mode : Pid → Mode} {s : State Pid} (h : Inv mode s) (hn : ∀ p, ¬ Holds s p)
    (path : Option Inode) (next : Inode) :
    Inv mode { s with path := path, nextInode := next } where
  proc p := by
    have hp := h.proc p
    have hne : (s.procs p).pc ≠ .holding := hn p
    unfold ProcOk at hp ⊢
    split at hp <;> simp_all
  compat := h.compat

/-- Two holders lock one inode. -/
theorem Inv.mutualExclusion {mode : Pid → Mode} {s : State Pid} (h : Inv mode s) :
    MutualExclusion mode s := by
  intro p q hpq hp hq
  have h1 := h.proc p
  have h2 := h.proc q
  rw [ProcOk, show (s.procs p).pc = .holding from hp] at h1
  rw [ProcOk, show (s.procs q).pc = .holding from hq] at h2
  refine h.compat p q hpq (h1.2.1.trans h2.2.1.symm) ?_ ?_ ?_
  · rw [h1.2.1]; exact h1.2.2
  · rw [h1.1]; exact Option.some_ne_none _
  · rw [h2.1]; exact Option.some_ne_none _

end Safety

section Steps

variable {Pid : Type} [DecidableEq Pid]

/-- `p` does what it does next; nothing else changes. -/
def State.set (s : State Pid) (p : Pid) (x : Proc) : State Pid :=
  { s with procs := Function.update s.procs p x }

@[simp] theorem State.set_path (s : State Pid) (p : Pid) (x : Proc) : (s.set p x).path = s.path := rfl

theorem State.set_self (s : State Pid) (p : Pid) (x : Proc) : (s.set p x).procs p = x :=
  Function.update_self ..

theorem State.set_of_ne (s : State Pid) {p q : Pid} (x : Proc) (h : q ≠ p) :
    (s.set p x).procs q = s.procs q :=
  Function.update_of_ne h ..

/-- Lock `p` moves to `x`, which fits its place and conflicts with no other
lock. -/
theorem Inv.set {mode : Pid → Mode} {s : State Pid} (h : Inv mode s) {p : Pid} {x : Proc}
    (hx : ProcOk (mode p) s.path x) (hc : ∀ q, q ≠ p → Compatible mode p q x (s.procs q)) :
    Inv mode (s.set p x) where
  proc q := by
    by_cases hq : q = p
    · subst hq
      rw [s.set_self]
      exact hx
    · rw [s.set_of_ne x hq]
      exact h.proc q
  compat q r hqr := by
    by_cases hq : q = p
    · subst hq
      rw [s.set_self, s.set_of_ne x hqr.symm]
      exact hc r hqr.symm
    · by_cases hr : r = p
      · subst hr
        rw [s.set_self, s.set_of_ne x hq]
        exact (hc q hq).symm
      · rw [s.set_of_ne x hq, s.set_of_ne x hr]
        exact h.compat q r hqr

/-- Lock `p` moves to a place where its descriptor is not locked. -/
theorem Inv.setFree {mode : Pid → Mode} {s : State Pid} (h : Inv mode s) {p : Pid} {x : Proc}
    (hx : ProcOk (mode p) s.path x) (hf : x.flock = none) : Inv mode (s.set p x) :=
  h.set hx fun _ _ _ _ hn => absurd hf hn

/-- Lock `p` moves on with the same descriptor. -/
theorem Inv.setPc {mode : Pid → Mode} {s : State Pid} (h : Inv mode s) {p : Pid} {pc : Pc}
    (hx : ProcOk (mode p) s.path { s.procs p with pc := pc }) :
    Inv mode (s.set p { s.procs p with pc := pc }) :=
  h.set hx fun q hq => h.compat p q hq.symm

/-- `O_CREAT`: the inode the path names, or a new one. -/
def openPath (s : State Pid) (p : Pid) : State Pid :=
  match s.path with
  | some i => s.set p { pc := .flocking, fd := some i }
  | none =>
    { s.set p { pc := .flocking, fd := some s.nextInode } with
      path := some s.nextInode, nextInode := s.nextInode + 1 }

theorem Inv.openPath {mode : Pid → Mode} {s : State Pid} (h : Inv mode s) (p : Pid) :
    Inv mode (openPath s p) := by
  unfold FileLock.openPath
  split
  · exact h.setFree rfl rfl
  · rename_i hpath
    -- without a file there is no holder, so a new one may be created
    have hn : ∀ q, ¬ Holds s q := fun q hq => by
      have := h.proc q
      rw [ProcOk, show (s.procs q).pc = .holding from hq] at this
      exact this.2.2 hpath
    exact (h.setPath hn (some s.nextInode) (s.nextInode + 1)).setFree rfl rfl

variable [Fintype Pid]

/-- `flock` in mode `m` on inode `i` conflicts with no other descriptor's lock. -/
def Grantable (s : State Pid) (p : Pid) (i : Inode) (m : Mode) : Prop :=
  ∀ q, q ≠ p → (s.procs q).fd = some i → (s.procs q).flock ≠ none →
    m = .shared ∧ (s.procs q).flock = some .shared

instance (s : State Pid) (p : Pid) (i : Inode) (m : Mode) : Decidable (Grantable s p i m) := by
  unfold Grantable; infer_instance

/-- One system call of lock `p`, which asks for mode `mode p`. A call that is
not the next one of `acquire` or `release` is not allowed. -/
def step (mode : Pid → Mode) (s : State Pid) (l : Pid × Call) : Option (State Pid) :=
  let p := l.1
  match (s.procs p).pc, (s.procs p).fd, l.2 with
  | .idle, _, .open => some (openPath s p)
  | .flocking, some i, .flock deadlineOver =>
    if Grantable s p i (mode p) then
      some (s.set p { pc := .fstatting, fd := some i, flock := some (mode p) })
    else if deadlineOver then some (s.set p { pc := .timingOut, fd := some i })
    else some s
  | .timingOut, _, .close => some (s.set p {})
  | .fstatting, some i, .fstat =>
    some (s.set p { s.procs p with pc := .statting i })
  | .statting i, _, .stat =>
    if s.path = some i then some (s.set p { s.procs p with pc := .holding })
    else some (s.set p { s.procs p with pc := .closingStale })
  | .closingStale, _, .close => some (s.set p { pc := .reopening })
  | .reopening, _, .open => some (openPath s p)
  | .reopening, _, .openFails => some (s.set p {})
  | .holding, fd, .unlock => some (s.set p { pc := .closing, fd := fd })
  | .closing, _, .close => some (s.set p { pc := .unlinking })
  | .unlinking, _, .unlink => some { s.set p {} with path := none }
  | _, _, _ => none

/-- Any number of locks on one target, in any interleaving of their calls. -/
def system (mode : Pid → Mode) : System (State Pid) (Pid × Call) :=
  .ofStep (· = initial) (step mode)

/-- An unlink happens while nobody holds the lock. -/
def UnlinkUnheld (s : State Pid) (l : Pid × Call) : Prop := l.2 = .unlink → ∀ q, ¬ Holds s q

instance (s : State Pid) (l : Pid × Call) : Decidable (UnlinkUnheld s l) := by
  unfold UnlinkUnheld; infer_instance

theorem inv_step {mode : Pid → Mode} {s s' : State Pid} {l : Pid × Call} (hI : Inv mode s)
    (hg : UnlinkUnheld s l) (h : step mode s l = some s') : Inv mode s' := by
  obtain ⟨p, c⟩ := l
  have hp := hI.proc p
  unfold step at h
  simp only at h
  split at h
  case h_1 => cases h; exact hI.openPath p
  case h_2 =>
    -- `flock`: granted, refused at the deadline, or to be tried again
    split_ifs at h with hgr
    · cases h
      refine hI.set rfl fun q hq he _ _ hn => ?_
      obtain ⟨hm, hs⟩ := hgr q hq he.symm hn
      have := (hI.proc q).flock_eq hn
      rw [hs] at this
      exact ⟨hm, (Option.some.inj this).symm⟩
    · cases h; exact hI.setFree rfl rfl
    · cases h; exact hI
  case h_3 => cases h; exact hI.setFree rfl rfl
  case h_4 _ _ _ hpc hfd =>
    cases h
    rw [ProcOk, hpc] at hp
    exact hI.setPc ⟨hfd, hp⟩
  case h_5 _ _ _ hpc =>
    rw [ProcOk, hpc] at hp
    split_ifs at h with hst
    · cases h
      refine hI.setPc ⟨hp.2, ?_, ?_⟩
      · exact hp.1.trans hst.symm
      · rw [hst]; exact Option.some_ne_none _
    · cases h; exact hI.setPc hp.2
  case h_6 => cases h; exact hI.setFree rfl rfl
  case h_7 => cases h; exact hI.openPath p
  case h_8 => cases h; exact hI.setFree rfl rfl
  case h_9 => cases h; exact hI.setFree rfl rfl
  case h_10 => cases h; exact hI.setFree rfl rfl
  case h_11 =>
    cases h
    exact (hI.setPath (hg rfl) none s.nextInode).setFree rfl rfl
  case h_12 => cases h

/-- **An exclusive holder is alone** in every state of every run in which no
unlink happens while another lock is held. -/
theorem mutualExclusion_of_unlinkUnheld (mode : Pid → Mode) {s : State Pid}
    (h : ((system mode).restrict UnlinkUnheld).Reachable s) : MutualExclusion mode s := by
  refine Inv.mutualExclusion (h.inv ?_ ?_)
  · rintro s rfl
    exact inv_initial mode
  · exact fun s l s' hI hst => inv_step hI hst.1 hst.2

end Steps

/-- Lock 0 is taken and released, then lock 1 is taken. -/
def oneAfterTheOther : List (Fin 2 × Call) :=
  [(0, .open), (0, .flock false), (0, .fstat), (0, .stat), (1, .open), (1, .flock false), (0, .unlock),
    (0, .close), (0, .unlink), (1, .flock false), (1, .fstat), (1, .stat), (1, .close),
    (1, .open), (1, .flock false), (1, .fstat), (1, .stat)]

theorem mutualExclusion_oneAfterTheOther : ∃ s : State (Fin 2),
    System.runLabels (step fun _ => .exclusive) initial oneAfterTheOther = some s ∧ Holds s 1 ∧
      MutualExclusion (fun _ => .exclusive) s :=
  ⟨_, rfl, by decide, mutualExclusion_of_unlinkUnheld _
    (System.reachable_restrict_of_runLabels oneAfterTheOther (.init rfl) rfl)⟩

/-! ### Without the condition

Lock 0 unlocks and closes; lock 1, which had opened the same file, takes it
and finds its inode at the path; lock 0 unlinks the path; lock 2 creates a new
file and takes that. -/

/-- The interleaving. -/
def unlinkUnderHolder : List (Fin 3 × Call) :=
  [(0, .open), (0, .flock false), (0, .fstat), (0, .stat), (1, .open), (0, .unlock), (0, .close),
    (1, .flock false), (1, .fstat), (1, .stat), (0, .unlink),
    (2, .open), (2, .flock false), (2, .fstat), (2, .stat)]

/-- Locks 1 and 2 are both held at its end. -/
theorem not_mutualExclusion : ¬ ∀ s : State (Fin 3),
    (system fun _ => .exclusive).Reachable s → MutualExclusion (fun _ => .exclusive) s := by
  intro h
  obtain ⟨s, hs, h1, h2⟩ : ∃ s, System.runLabels (step fun _ => .exclusive) initial unlinkUnderHolder = some s ∧
      Holds s 1 ∧ Holds s 2 := ⟨_, rfl, by decide, by decide⟩
  have := h s (System.reachable_of_runLabels unlinkUnderHolder (.init rfl) hs) 1 2 (by decide) h1 h2
  exact absurd this.1 (by decide)

end FileLock
end GpgMeister
