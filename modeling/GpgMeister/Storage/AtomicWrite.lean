/-
# Atomic writes

`storage/atomic_write.py`, call by call, so that any number of writers of one
target may run in between each other's calls. A name stands for an inode, and a
writer keeps the inode that it has made.

* `atomic_of_reachable`: what a reader of the target sees, and what becomes of
  the temporary files, in every state that the writers reach.
* `run_atomicWriteBytes`: a lone writer is the `atomicWriteBytes` of the
  services.
-/
import GpgMeister.Lib.Threads
import GpgMeister.World

namespace GpgMeister
namespace AtomicWrite

/-! ### The directory -/

/-- The directory of the target, and what the inodes hold; `nextInode` and
those after it are not in use. -/
structure Directory where
  names : Str → Option ℕ
  data : ℕ → Bytes
  nextInode : ℕ
  used : ∀ n k, names n = some k → k < nextInode

/-- What a reader of the name sees. -/
def Directory.read (d : Directory) (n : Str) : Option Bytes := (d.names n).map d.data

def Directory.create (d : Directory) (n : Str) : Directory where
  names := Function.update d.names n (some d.nextInode)
  data := Function.update d.data d.nextInode []
  nextInode := d.nextInode + 1
  used m k hm := by
    by_cases hmn : m = n
    · subst hmn
      rw [Function.update_self] at hm
      obtain rfl := Option.some.inj hm
      exact Nat.lt_succ_self _
    · rw [Function.update_of_ne hmn] at hm
      exact Nat.lt_succ_of_lt (d.used m k hm)

def Directory.append (d : Directory) (k : ℕ) (octets : Bytes) : Directory :=
  { d with data := Function.update d.data k (d.data k ++ octets) }

/-- `os.unlink(n)`, of a name that is there -/
def Directory.unlink (d : Directory) (n : Str) : Directory :=
  { d with
    names := Function.update d.names n none
    used := fun m k hm => by
      by_cases hmn : m = n
      · subst hmn
        simp at hm
      · rw [Function.update_of_ne hmn] at hm
        exact d.used m k hm }

/-- `os.replace(src, dst)`, of a `src` that is there -/
def Directory.replace (d : Directory) (src dst : Str) : Directory :=
  { d with
    names := Function.update (Function.update d.names src none) dst (d.names src)
    used := fun m k hm => by
      by_cases hmd : m = dst
      · subst hmd
        rw [Function.update_self] at hm
        exact d.used src k hm
      · rw [Function.update_of_ne hmd] at hm
        by_cases hms : m = src
        · subst hms
          simp at hm
        · rw [Function.update_of_ne hms] at hm
          exact d.used m k hm }

/-! ### The calls -/

/-- The calls that a writer makes; `self._fh` is its file. -/
inductive FileCall
  /-- `self._target.parent.exists()` -/
  | parentExists
  /-- `os.open(…, O_WRONLY | O_CREAT | O_EXCL)` -/
  | openNew (name : Str)
  | fchmod
  | fdopen
  | write (data : Bytes)
  | flush
  | fsync
  | close
  | replace (src dst : Str)
  /-- The calls of `_dir_fsync` -/
  | openDirectory
  | fsyncDirectory
  | closeDirectory
  | exists (name : Str)
  | unlink (name : Str)

/-- What a call returns. -/
def FileCall.Value : FileCall → Type
  | .parentExists => Bool
  | .write _ => ℕ
  | .exists _ => Bool
  | _ => Unit

abbrev WriterScript := Script FileCall FileCall.Value Exc

def call (c : FileCall) : WriterScript c.Value := Script.perform c

/-- `path.exists()` -/
def pathExists (name : Str) : WriterScript Bool := call (.exists name)

def parentExists : WriterScript Bool := call .parentExists

def suppressOSError (x : WriterScript Unit) : WriterScript Unit := x.suppressing (·.isA [.osError])

/-- `_dir_fsync` -/
def dirFsync (win32 : Bool) : WriterScript Unit :=
  if win32 then .ret (.ok ())
  else do
    call .openDirectory
    Script.ensuring (call .fsyncDirectory) fun _ => call .closeDirectory

/-- `_tmp_path`, with the text of `secrets.token_hex(4)` -/
def tmpPath (target suffix : Str) : Str := lit "." ++ target ++ lit "." ++ suffix ++ lit ".tmp"

/-- `os.fchmod`, where there is one -/
def fchmod (win32 : Bool) : WriterScript Unit :=
  if win32 then .ret (.ok ()) else suppressOSError (call .fchmod)

/-- `AtomicWriter.__enter__` -/
def enter (win32 : Bool) (tmp : Str) : WriterScript Unit := do
  call (.openNew tmp)
  fchmod win32
  call .fdopen

/-- The inner `try` of `AtomicWriter.__exit__` -/
def flushAndClose (raised : Option Exc) : WriterScript Unit :=
  Script.ensuring
    (do
      call .flush
      if raised.isNone then call .fsync else .ret (.ok ()))
    fun _ => call .close

/-- Its outer `try`, which returns `self._committed`. -/
def commit (win32 : Bool) (tmp target : Str) (raised : Option Exc) : WriterScript Bool := do
  flushAndClose raised
  if raised.isNone then do
    call (.replace tmp target)
    suppressOSError (dirFsync win32)
    return true
  else return false

/-- The `finally` of the outer `try`. -/
def removeTmp (tmp : Str) (committed : Bool) : WriterScript Unit :=
  if committed then .ret (.ok ())
  else do
    if ← pathExists tmp then suppressOSError (call (.unlink tmp)) else .ret (.ok ())

/-- `AtomicWriter.__exit__`, with the exception of the body -/
def exit (win32 : Bool) (tmp target : Str) (raised : Option Exc) : WriterScript Unit := do
  let _ ← Script.ensuring (commit win32 tmp target raised) fun r => removeTmp tmp (r.toOption = some true)
  return ()

/-- The body of a `with`: its writes, each with what the body does next, and
the exception that it ends with. -/
inductive Body
  | done (raised : Option Exc)
  | write (data : Bytes) (rest : Except Exc ℕ → Body)

def Body.script : Body → WriterScript (Option Exc)
  | .done raised => .ret (.ok raised)
  | .write data rest => .call (.write data) fun r => (rest r).script

/-- The error of `AtomicWriter.__init__` -/
def parentMissing (parent : Str) : Exc where
  cls := .fileNotFoundError
  message := lit "parent directory does not exist: " ++ parent

/-- `with AtomicWriter(target) as fh: body`, with a target of this name in the
directory `parent` -/
def atomicWriter (win32 : Bool) (parent tmp target : Str) (body : Body) : WriterScript Unit := do
  if ← parentExists then do
    enter win32 tmp
    let raised ← body.script
    exit win32 tmp target raised
    match raised with
    | some e => Script.raise e
    | none => return ()
  else Script.raise (parentMissing parent)

/-- The body of `atomic_write_bytes` -/
def bytesBody (data : Bytes) : Body :=
  .write data fun
    | .ok _ => .done none
    | .error e => .done (some e)

/-- `atomic_write_bytes` -/
def atomicWriteBytes (win32 : Bool) (parent tmp target : Str) (data : Bytes) : WriterScript Unit :=
  atomicWriter win32 parent tmp target (bytesBody data)

/-- The body ends with `raised` after its file has taken `octets`: all that
each write gave it, or a part where the write failed. -/
inductive Body.Ends : Body → Bytes → Option Exc → Prop
  | done (raised : Option Exc) : Ends (.done raised) [] raised
  | write {data : Bytes} {rest : Except Exc ℕ → Body} {octets : Bytes} {raised : Option Exc} :
      Ends (rest (.ok data.length)) octets raised → Ends (.write data rest) (data ++ octets) raised
  | failed {data part : Bytes} {rest : Except Exc ℕ → Body} {e : Exc} {octets : Bytes} {raised : Option Exc} :
      part <+: data → Ends (rest (.error e)) octets raised → Ends (.write data rest) (part ++ octets) raised

/-! ### What the calls do -/

/-- A writer: the inode of its file, and what its buffer has kept back of what
it has taken; and what has happened to it. -/
structure Writer where
  file : Option ℕ := none
  buffer : Bytes := []
  taken : Bytes := []
  entered : Bool := false
  /-- A flush, an fsync, a close or a replace has raised. -/
  failed : Bool := false
  replaced : Bool := false
  removed : Bool := false
  unlinkFailed : Bool := false

/-- The directory, and the writers whose replace has succeeded, in order. -/
structure Store (ι : Type) where
  dir : Directory
  log : List ι := []

section Effects

variable {ι : Type}

/-- The file takes `new`, and some of what it has in its buffer goes to the
inode. -/
def Moves (s : Store ι) (l : Writer) (new : Bytes) (s' : Store ι) (l' : Writer) : Prop :=
  ∃ k out rest, l.file = some k ∧ l.buffer ++ new = out ++ rest ∧
    s' = { s with dir := s.dir.append k out } ∧ l' = { l with buffer := rest, taken := l.taken ++ new }

def IsOSError (e : Exc) : Prop := e.isA [.osError] = true

/-- What a call of the writer `i` does, by what came of it. What fails, fails
with an `OSError`. -/
def Effect (i : ι) (s : Store ι) (l : Writer) : (c : FileCall) → Except Exc c.Value → Store ι → Writer → Prop
  | .parentExists, r, s', l' => (∃ b, r = .ok b) ∧ s' = s ∧ l' = l
  | .openNew n, .ok _, s', l' =>
    s.dir.names n = none ∧ s' = { s with dir := s.dir.create n } ∧ l' = { l with file := some s.dir.nextInode }
  | .openNew _, .error e, s', l' => IsOSError e ∧ s' = s ∧ l' = l
  | .fchmod, .ok _, s', l' => s' = s ∧ l' = l
  | .fchmod, .error e, s', l' => IsOSError e ∧ s' = s ∧ l' = l
  | .fdopen, .ok _, s', l' => s' = s ∧ l' = { l with entered := true }
  | .fdopen, .error e, s', l' => IsOSError e ∧ s' = s ∧ l' = l
  | .write data, .ok n, s', l' => n = data.length ∧ Moves s l data s' l'
  | .write data, .error e, s', l' => IsOSError e ∧ ∃ part, part <+: data ∧ Moves s l part s' l'
  | .flush, .ok _, s', l' => Moves s l [] s' l' ∧ l'.buffer = []
  | .flush, .error e, s', l' => IsOSError e ∧ Moves s { l with failed := true } [] s' l'
  | .fsync, .ok _, s', l' => s' = s ∧ l' = l
  | .fsync, .error e, s', l' => IsOSError e ∧ s' = s ∧ l' = { l with failed := true }
  -- a file is flushed again when it is closed
  | .close, .ok _, s', l' => Moves s l [] s' l' ∧ l'.buffer = []
  | .close, .error e, s', l' => IsOSError e ∧ Moves s { l with failed := true } [] s' l'
  | .replace src dst, .ok _, s', l' =>
    s.dir.names src ≠ none ∧ s' = { dir := s.dir.replace src dst, log := s.log ++ [i] } ∧
      l' = { l with replaced := true }
  | .replace _ _, .error e, s', l' => IsOSError e ∧ s' = s ∧ l' = { l with failed := true }
  | .openDirectory, .ok _, s', l' => s' = s ∧ l' = l
  | .openDirectory, .error e, s', l' => IsOSError e ∧ s' = s ∧ l' = l
  | .fsyncDirectory, .ok _, s', l' => s' = s ∧ l' = l
  | .fsyncDirectory, .error e, s', l' => IsOSError e ∧ s' = s ∧ l' = l
  | .closeDirectory, .ok _, s', l' => s' = s ∧ l' = l
  | .closeDirectory, .error e, s', l' => IsOSError e ∧ s' = s ∧ l' = l
  | .exists n, r, s', l' => r = .ok (s.dir.names n).isSome ∧ s' = s ∧ l' = l
  | .unlink n, .ok _, s', l' =>
    s.dir.names n ≠ none ∧ s' = { s with dir := s.dir.unlink n } ∧ l' = { l with removed := true }
  | .unlink _, .error e, s', l' => IsOSError e ∧ s' = s ∧ l' = { l with unlinkFailed := true }

end Effects

/-! ### The directory, name by name -/

section Names

variable {d : Directory}

theorem names_create (n m : Str) : (d.create n).names m = if m = n then some d.nextInode else d.names m := by
  by_cases h : m = n
  · subst h
    simp [Directory.create]
  · simp [Directory.create, h]

theorem data_create {k : ℕ} (hk : k < d.nextInode) (n : Str) : (d.create n).data k = d.data k :=
  Function.update_of_ne (Nat.ne_of_lt hk) _ _

theorem data_create_self (n : Str) : (d.create n).data d.nextInode = [] := Function.update_self ..

theorem data_append_self (k : ℕ) (octets : Bytes) : (d.append k octets).data k = d.data k ++ octets :=
  Function.update_self ..

theorem data_append_of_ne {k j : ℕ} (h : j ≠ k) (octets : Bytes) : (d.append k octets).data j = d.data j :=
  Function.update_of_ne h _ _

theorem names_unlink (n m : Str) : (d.unlink n).names m = if m = n then none else d.names m := by
  by_cases h : m = n
  · subst h
    simp [Directory.unlink]
  · simp [Directory.unlink, h]

theorem names_replace_dst (src dst : Str) : (d.replace src dst).names dst = d.names src := Function.update_self ..

theorem names_replace_of_ne {src dst m : Str} (h : m ≠ dst) :
    (d.replace src dst).names m = if m = src then none else d.names m := by
  unfold Directory.replace
  simp only [Function.update_of_ne h]
  by_cases hm : m = src
  · subst hm
    simp
  · simp [hm]

end Names

/-! ### The invariant -/

section Runs

variable {ι : Type} {d0 : Directory} {target : Str} {tmp : ι → Str} {body : ι → Body}

/-- Where a writer is, with the store as it is. -/
structure Kept (d0 : Directory) (tmp : ι → Str) (body : ι → Body) (s : Store ι) (i : ι) (l : Writer) : Prop where
  new : ∀ k, l.file = some k → d0.nextInode ≤ k ∧ k < s.dir.nextInode
  held : ∀ k, l.file = some k → l.replaced = false → l.removed = false → s.dir.names (tmp i) = some k
  gone : ∀ k, l.file = some k → l.replaced = true ∨ l.removed = true → s.dir.names (tmp i) ≠ some k
  content : ∀ k, l.file = some k → s.dir.data k ++ l.buffer = l.taken
  log : i ∈ s.log ↔ l.replaced = true
  done : l.replaced = true → l.file ≠ none ∧ l.buffer = [] ∧ l.failed = false ∧ (body i).Ends l.taken none

/-- How the store has come from `d0`, by these writers. -/
structure Inv (d0 : Directory) (target : Str) (tmp : ι → Str) (body : ι → Body) (s : Store ι) (m : ι → Writer) :
    Prop where
  grown : d0.nextInode ≤ s.dir.nextInode
  kept : ∀ i, Kept d0 tmp body s i (m i)
  owner : ∀ i j k, (m i).file = some k → (m j).file = some k → i = j
  named : ∀ n k, n ≠ target → s.dir.names n = some k → d0.names n = some k ∨ ∃ i, tmp i = n ∧ (m i).file = some k
  old : ∀ k, k < d0.nextInode → s.dir.data k = d0.data k
  atTarget : s.dir.names target = match s.log.getLast? with
    | none => d0.names target
    | some i => (m i).file
  nodup : s.log.Nodup

theorem inv_start (d0 : Directory) (target : Str) (tmp : ι → Str) (body : ι → Body) :
    Inv d0 target tmp body { dir := d0 } fun _ => {} where
  grown := Nat.le_refl _
  kept i := ⟨fun _ h => by simp at h, fun _ h => by simp at h, fun _ h => by simp at h, fun _ h => by simp at h,
    by simp, fun h => by simp at h⟩
  owner _ _ _ h := by simp at h
  named _ _ _ h := .inl h
  old _ _ := rfl
  atTarget := rfl
  nodup := List.nodup_nil

variable {s : Store ι} {m : ι → Writer} {i : ι} {l : Writer}

/-- The writer whose file is there under its name. -/
theorem Inv.eq_of_held {j k : _} (h : Inv d0 target tmp body s m) (hi : s.dir.names (tmp i) = (m i).file)
    (hj : (m j).file = some k) (hheld : s.dir.names (tmp j) = some k) (hname : tmp j = tmp i) : j = i := by
  rw [hname, hi] at hheld
  exact h.owner j i k hj hheld

/-! ### A writer learns how a call ended -/

structure SameFile (l l' : Writer) : Prop where
  file : l'.file = l.file
  buffer : l'.buffer = l.buffer
  taken : l'.taken = l.taken
  replaced : l'.replaced = l.replaced
  removed : l'.removed = l.removed
  failed : l.replaced = true → l'.failed = l.failed

theorem Kept.same {l' : Writer} (h : Kept d0 tmp body s i l) (hl : SameFile l l') : Kept d0 tmp body s i l' := by
  obtain ⟨hfile, hbuffer, htaken, hreplaced, hremoved, hfailed⟩ := hl
  refine ⟨?_, ?_, ?_, ?_, ?_, ?_⟩
  · rw [hfile]
    exact h.new
  · rw [hfile, hreplaced, hremoved]
    exact h.held
  · rw [hfile, hreplaced, hremoved]
    exact h.gone
  · rw [hfile, hbuffer, htaken]
    exact h.content
  · rw [hreplaced]
    exact h.log
  · intro hr
    rw [hreplaced] at hr
    rw [hfile, hbuffer, htaken, hfailed hr]
    exact h.done hr

variable [DecidableEq ι]

/-- A property of every writer, when one has changed. -/
theorem forall_update {p : ι → Writer → Prop} (hi : p i l) (h : ∀ j, j ≠ i → p j (m j)) (j : ι) :
    p j (Function.update m i l j) := by
  by_cases hj : j = i
  · subst hj
    rwa [Function.update_self]
  · rw [Function.update_of_ne hj]
    exact h j hj

theorem file_update (hsame : l.file = (m i).file) (j : ι) : (Function.update m i l j).file = (m j).file := by
  by_cases hj : j = i
  · subst hj
    rw [Function.update_self, hsame]
  · rw [Function.update_of_ne hj]

/-- What is known of the writers' files does not depend on the rest. -/
theorem Inv.of_kept {s' : Store ι} (h : Inv d0 target tmp body s m) (hfile : l.file = (m i).file)
    (hkept : ∀ j, Kept d0 tmp body s' j (Function.update m i l j)) (hnext : s'.dir.nextInode = s.dir.nextInode)
    (hnames : s'.dir.names = s.dir.names) (hlog : s'.log = s.log)
    (hold : ∀ k, k < d0.nextInode → s'.dir.data k = s.dir.data k) :
    Inv d0 target tmp body s' (Function.update m i l) := by
  have hfiles := file_update hfile
  refine ⟨hnext ▸ h.grown, hkept, ?_, ?_, fun k hk => (hold k hk).trans (h.old k hk), ?_, hlog ▸ h.nodup⟩
  · intro j j' k hj hj'
    rw [hfiles] at hj hj'
    exact h.owner j j' k hj hj'
  · intro n k hn hk
    rw [hnames] at hk
    exact (h.named n k hn hk).imp_right fun ⟨j, hj, hjk⟩ => ⟨j, hj, (hfiles j).trans hjk⟩
  · rw [hnames, hlog, h.atTarget]
    cases s.log.getLast? with
    | none => rfl
    | some j => exact (hfiles j).symm

theorem Inv.same (h : Inv d0 target tmp body s m) (hl : SameFile (m i) l) :
    Inv d0 target tmp body s (Function.update m i l) :=
  h.of_kept hl.file (forall_update (p := Kept d0 tmp body s) ((h.kept i).same hl) fun j _ => h.kept j) rfl rfl rfl
    fun _ _ => rfl

/-! ### A writer writes -/

theorem Inv.moves {new : Bytes} {s' : Store ι} (h : Inv d0 target tmp body s m) (hopen : (m i).replaced = false)
    (hmoves : Moves s (m i) new s' l) : Inv d0 target tmp body s' (Function.update m i l) := by
  obtain ⟨k, out, rest, hfile, hsplit, rfl, rfl⟩ := hmoves
  have hi := h.kept i
  have hbound := hi.new k hfile
  refine h.of_kept rfl ?_ rfl rfl rfl ?_
  · refine forall_update (p := Kept d0 tmp body _) ?_ fun j hj => ?_
    · refine ⟨hi.new, hi.held, hi.gone, ?_, hi.log, fun hr => ?_⟩
      · intro k' hk'
        obtain rfl : k = k' := Option.some.inj (hfile.symm.trans hk')
        change (s.dir.append k out).data k ++ rest = (m i).taken ++ new
        rw [data_append_self, List.append_assoc, ← hsplit, ← List.append_assoc, hi.content k hfile]
      · exact absurd (hopen.symm.trans hr) (by simp)
    · have hjkept := h.kept j
      refine ⟨hjkept.new, hjkept.held, hjkept.gone, fun k' hk' => ?_, hjkept.log, hjkept.done⟩
      have hne : k' ≠ k := fun he => hj (h.owner j i k (he ▸ hk') hfile)
      change (s.dir.append k out).data k' ++ _ = _
      rw [data_append_of_ne hne]
      exact hjkept.content k' hk'
  · intro k' hk'
    exact data_append_of_ne (by omega) out

/-- A flush that fails may still have written something. -/
theorem Inv.movesFailed {s' : Store ι} (h : Inv d0 target tmp body s m) (hopen : (m i).replaced = false)
    (hmoves : Moves s { m i with failed := true } [] s' l) : Inv d0 target tmp body s' (Function.update m i l) := by
  have hfailed : Inv d0 target tmp body s (Function.update m i { m i with failed := true }) :=
    h.same ⟨rfl, rfl, rfl, rfl, rfl, fun hr => absurd (hopen.symm.trans hr) (by simp)⟩
  have hi : Function.update m i { m i with failed := true } i = { m i with failed := true } := Function.update_self ..
  have hmoved := hfailed.moves (i := i) (by rw [hi]; exact hopen) (by rw [hi]; exact hmoves)
  rwa [Function.update_idem] at hmoved

/-! ### A file is made, moved or removed -/

theorem Inv.create (h : Inv d0 target tmp body s m) (htmp : tmp i ≠ target) (hfresh : m i = {})
    (hnone : s.dir.names (tmp i) = none) :
    Inv d0 target tmp body { s with dir := s.dir.create (tmp i) }
      (Function.update m i { file := some s.dir.nextInode }) := by
  have hbelow : ∀ j k, (m j).file = some k → k < s.dir.nextInode := fun j k hj => ((h.kept j).new k hj).2
  refine ⟨Nat.le_succ_of_le h.grown, ?_, ?_, ?_, ?_, ?_, h.nodup⟩
  · refine forall_update (p := Kept d0 tmp body _) ?_ fun j hj => ?_
    · refine ⟨?_, ?_, fun k _ hr => ?_, ?_, ?_, fun hr => ?_⟩
      · intro k hk
        obtain rfl := Option.some.inj hk
        exact ⟨h.grown, Nat.lt_succ_self _⟩
      · intro k hk _ _
        rw [← hk]
        exact (names_create _ _).trans (if_pos rfl)
      · rcases hr with hr | hr <;> cases hr
      · intro k hk
        obtain rfl := Option.some.inj hk
        change (s.dir.create (tmp i)).data s.dir.nextInode ++ [] = []
        rw [data_create_self, List.append_nil]
      · have hlog := (h.kept i).log
        rw [hfresh] at hlog
        exact hlog
      · cases hr
    · have hjkept := h.kept j
      refine ⟨?_, ?_, ?_, ?_, hjkept.log, hjkept.done⟩
      · intro k hk
        exact ⟨(hjkept.new k hk).1, Nat.lt_succ_of_lt (hbelow j k hk)⟩
      · intro k hk hr hm
        have hheld := hjkept.held k hk hr hm
        refine (names_create _ _).trans ?_
        rw [if_neg, hheld]
        intro hname
        rw [hname, hnone] at hheld
        cases hheld
      · intro k hk hr
        rw [show (s.dir.create (tmp i)).names (tmp j) = _ from names_create _ _]
        split_ifs
        · intro he
          have hlt := hbelow j k hk
          rw [Option.some.inj he] at hlt
          exact Nat.lt_irrefl _ hlt
        · exact hjkept.gone k hk hr
      · intro k hk
        rw [show (s.dir.create (tmp i)).data k = _ from data_create (hbelow j k hk) _]
        exact hjkept.content k hk
  · -- nobody has the new inode yet
    have hnew : ∀ j k, (Function.update m i { file := some s.dir.nextInode } j).file = some k →
        j = i ∧ k = s.dir.nextInode ∨ j ≠ i ∧ (m j).file = some k := by
      intro j k hk
      by_cases hj : j = i
      · subst hj
        rw [Function.update_self] at hk
        exact .inl ⟨rfl, (Option.some.inj hk).symm⟩
      · rw [Function.update_of_ne hj] at hk
        exact .inr ⟨hj, hk⟩
    intro j j' k hj hj'
    rcases hnew j k hj with ⟨rfl, hk⟩ | ⟨-, hk⟩ <;> rcases hnew j' k hj' with ⟨rfl, hk'⟩ | ⟨-, hk'⟩
    · rfl
    · exact absurd (hbelow j' k hk') (by omega)
    · exact absurd (hbelow j k hk) (by omega)
    · exact h.owner j j' k hk hk'
  · intro n k hn hk
    rw [show (s.dir.create (tmp i)).names n = _ from names_create _ _] at hk
    split_ifs at hk with hname
    · exact .inr ⟨i, hname.symm, by rw [Function.update_self, ← hk]⟩
    · refine (h.named n k hn hk).imp_right fun ⟨j, hj, hjk⟩ => ⟨j, hj, ?_⟩
      have hne : j ≠ i := by
        rintro rfl
        rw [hfresh] at hjk
        cases hjk
      rwa [Function.update_of_ne hne]
  · intro k hk
    exact (data_create (Nat.lt_of_lt_of_le hk h.grown) _).trans (h.old k hk)
  · refine (names_create _ _).trans ?_
    rw [if_neg htmp.symm, h.atTarget]
    cases hlast : s.log.getLast? with
    | none => rfl
    | some j =>
      have hne : j ≠ i := by
        rintro rfl
        have hlog := (h.kept j).log.mp (List.mem_of_getLast? hlast)
        rw [hfresh] at hlog
        cases hlog
      exact congrArg Writer.file (Function.update_of_ne hne _ _).symm

omit [DecidableEq ι] in
/-- A name that is taken away is only the writer's own. -/
theorem Kept.of_names {j : ι} {l' : Writer} {s' : Store ι} (h : Inv d0 target tmp body s m)
    (hi : s.dir.names (tmp i) = (m i).file) (hj : j ≠ i) (hl : l' = m j)
    (hnext : s'.dir.nextInode = s.dir.nextInode) (hdata : s'.dir.data = s.dir.data)
    (hnames : s'.dir.names (tmp j) = if tmp j = tmp i then none else s.dir.names (tmp j))
    (hlog : j ∈ s'.log ↔ j ∈ s.log) : Kept d0 tmp body s' j l' := by
  subst hl
  have hjkept := h.kept j
  refine ⟨hnext ▸ hjkept.new, ?_, ?_, hdata ▸ hjkept.content, hlog.trans hjkept.log, hjkept.done⟩
  · intro k hk hr hm
    have hheld := hjkept.held k hk hr hm
    rw [hnames, if_neg fun hname => hj (h.eq_of_held hi hk hheld hname)]
    exact hheld
  · intro k hk hr
    rw [hnames]
    split_ifs
    · simp
    · exact hjkept.gone k hk hr

theorem Inv.replace (h : Inv d0 target tmp body s m) (htmp : ∀ j, tmp j ≠ target) {k : ℕ} (hfile : (m i).file = some k)
    (hreplaced : (m i).replaced = false) (hremoved : (m i).removed = false) (hbuffer : (m i).buffer = [])
    (hfailed : (m i).failed = false) (hends : (body i).Ends (m i).taken none) :
    Inv d0 target tmp body { dir := s.dir.replace (tmp i) target, log := s.log ++ [i] }
      (Function.update m i { m i with replaced := true }) := by
  have hi := h.kept i
  have hheld := (hi.held k hfile hreplaced hremoved).trans hfile.symm
  have hfiles := file_update (m := m) (i := i) (l := { m i with replaced := true }) rfl
  have hnames (n : Str) (hn : n ≠ target) : (s.dir.replace (tmp i) target).names n =
      if n = tmp i then none else s.dir.names n := names_replace_of_ne hn
  refine ⟨h.grown, ?_, ?_, ?_, h.old, ?_, ?_⟩
  · refine forall_update (p := Kept d0 tmp body _) ?_ fun j hj => ?_
    · refine ⟨hi.new, fun _ _ hr => (nomatch hr), fun k' _ _ => ?_, hi.content, by simp, fun _ => ?_⟩
      · change (s.dir.replace (tmp i) target).names (tmp i) ≠ some k'
        rw [hnames _ (htmp i), if_pos rfl]
        simp
      · exact ⟨by rw [hfile]; simp, hbuffer, hfailed, hends⟩
    · exact Kept.of_names h hheld hj rfl rfl rfl (hnames _ (htmp j)) (by simp [hj])
  · intro j j' k' hj hj'
    rw [hfiles] at hj hj'
    exact h.owner j j' k' hj hj'
  · intro n k' hn hk'
    rw [show (s.dir.replace (tmp i) target).names n = _ from hnames n hn] at hk'
    split_ifs at hk'
    exact (h.named n k' hn hk').imp_right fun ⟨j, hj, hjk⟩ => ⟨j, hj, (hfiles j).trans hjk⟩
  · rw [List.getLast?_append]
    refine (names_replace_dst _ _).trans (hheld.trans (hfiles i).symm)
  · have hnot : i ∉ s.log := fun hmem => by
      rw [hi.log.mp hmem] at hreplaced
      cases hreplaced
    rw [List.nodup_append]
    refine ⟨h.nodup, List.nodup_singleton i, fun a ha b hb => ?_⟩
    rw [List.mem_singleton] at hb
    subst hb
    exact fun he => hnot (he ▸ ha)

theorem Inv.unlink (h : Inv d0 target tmp body s m) (htmp : ∀ j, tmp j ≠ target) {k : ℕ} (hfile : (m i).file = some k)
    (hreplaced : (m i).replaced = false) (hremoved : (m i).removed = false) :
    Inv d0 target tmp body { s with dir := s.dir.unlink (tmp i) }
      (Function.update m i { m i with removed := true }) := by
  have hi := h.kept i
  have hheld := (hi.held k hfile hreplaced hremoved).trans hfile.symm
  have hfiles := file_update (m := m) (i := i) (l := { m i with removed := true }) rfl
  refine ⟨h.grown, ?_, ?_, ?_, h.old, ?_, h.nodup⟩
  · refine forall_update (p := Kept d0 tmp body _) ?_ fun j hj => ?_
    · refine ⟨hi.new, fun _ _ _ hr => (nomatch hr), fun k' _ _ => ?_, hi.content, hi.log, hi.done⟩
      change (s.dir.unlink (tmp i)).names (tmp i) ≠ some k'
      rw [names_unlink, if_pos rfl]
      simp
    · exact Kept.of_names h hheld hj rfl rfl rfl (names_unlink _ _) Iff.rfl
  · intro j j' k' hj hj'
    rw [hfiles] at hj hj'
    exact h.owner j j' k' hj hj'
  · intro n k' hn hk'
    rw [show (s.dir.unlink (tmp i)).names n = _ from names_unlink _ _] at hk'
    split_ifs at hk'
    exact (h.named n k' hn hk').imp_right fun ⟨j, hj, hjk⟩ => ⟨j, hj, (hfiles j).trans hjk⟩
  · refine (names_unlink _ _).trans ?_
    rw [if_neg (htmp i).symm, h.atTarget]
    cases s.log.getLast? with
    | none => rfl
    | some j => exact (hfiles j).symm

/-! ### The protocol of a writer -/

/-- What the writer `i` may call. -/
def Allowed (target : Str) (tmp : ι → Str) (body : ι → Body) (i : ι) (l : Writer) : FileCall → Prop
  | .openNew n => n = tmp i ∧ l = {}
  | .write _ => l.replaced = false
  | .flush => l.replaced = false
  | .fsync => l.replaced = false
  | .close => l.replaced = false
  | .replace src dst =>
    src = tmp i ∧ dst = target ∧ l.file ≠ none ∧ l.replaced = false ∧ l.removed = false ∧ l.buffer = [] ∧
      l.failed = false ∧ (body i).Ends l.taken none
  | .exists n => n = tmp i ∧ l.file ≠ none ∧ l.replaced = false ∧ l.removed = false
  | .unlink n => n = tmp i ∧ l.file ≠ none ∧ l.replaced = false ∧ l.removed = false
  | _ => True

/-- A writer finds its file where it has made it. -/
def protocol (target : Str) (tmp : ι → Str) (body : ι → Body) (i : ι) :
    Script.Protocol FileCall FileCall.Value Exc Writer where
  allowed := Allowed target tmp body i
  next l c r l' := ∃ s s',
    (∀ k, l.file = some k → l.replaced = false → l.removed = false → s.dir.names (tmp i) = some k) ∧
      Effect i s l c r s' l'

theorem sameFile_refl (l : Writer) : SameFile l l := ⟨rfl, rfl, rfl, rfl, rfl, fun _ => rfl⟩

/-- A call that has at most told the writer something. -/
theorem Inv.told {s' : Store ι} (h : Inv d0 target tmp body s m) (heffect : s' = s ∧ SameFile (m i) l) :
    Inv d0 target tmp body s' (Function.update m i l) := by
  obtain ⟨rfl, hsame⟩ := heffect
  exact h.same hsame

/-- **Whatever a writer may call keeps the invariant.** -/
theorem inv_effect (htmp : ∀ j, tmp j ≠ target) {c : FileCall} {r : Except Exc c.Value} {s' : Store ι}
    (h : Inv d0 target tmp body s m) (hallowed : Allowed target tmp body i (m i) c)
    (heffect : Effect i s (m i) c r s' l) : Inv d0 target tmp body s' (Function.update m i l) := by
  have hsame (hs : s' = s) (hl : l = m i) : Inv d0 target tmp body s' (Function.update m i l) :=
    h.told ⟨hs, hl ▸ sameFile_refl _⟩
  -- a writer that has replaced nothing yet may learn that a call has failed
  have hlearns (hr : (m i).replaced = false) (hreplaced : (m i).replaced = true) : true = (m i).failed :=
    absurd (hr.symm.trans hreplaced) (by simp)
  cases c with
  | parentExists =>
    obtain ⟨-, hs, hl⟩ := heffect
    exact hsame hs hl
  | openNew n =>
    cases r with
    | ok _ =>
      obtain ⟨rfl, hfresh⟩ := hallowed
      obtain ⟨hnone, rfl, rfl⟩ := heffect
      rw [show ({ m i with file := some s.dir.nextInode } : Writer) = { file := some s.dir.nextInode } by rw [hfresh]]
      exact h.create (htmp i) hfresh hnone
    | error e => exact hsame heffect.2.1 heffect.2.2
  | fchmod =>
    cases r with
    | ok _ => exact hsame heffect.1 heffect.2
    | error e => exact hsame heffect.2.1 heffect.2.2
  | fdopen =>
    cases r with
    | ok _ =>
      obtain ⟨rfl, rfl⟩ := heffect
      exact h.same ⟨rfl, rfl, rfl, rfl, rfl, fun _ => rfl⟩
    | error e => exact hsame heffect.2.1 heffect.2.2
  | write data =>
    cases r with
    | ok n => exact h.moves hallowed heffect.2
    | error e =>
      obtain ⟨-, part, -, hmoves⟩ := heffect
      exact h.moves hallowed hmoves
  | flush =>
    cases r with
    | ok _ => exact h.moves hallowed heffect.1
    | error e => exact h.movesFailed hallowed heffect.2
  | fsync =>
    cases r with
    | ok _ => exact hsame heffect.1 heffect.2
    | error e =>
      obtain ⟨-, rfl, rfl⟩ := heffect
      exact h.same ⟨rfl, rfl, rfl, rfl, rfl, hlearns hallowed⟩
  | close =>
    cases r with
    | ok _ => exact h.moves hallowed heffect.1
    | error e => exact h.movesFailed hallowed heffect.2
  | replace src dst =>
    obtain ⟨rfl, rfl, hfile, hreplaced, hremoved, hbuffer, hfailed, hends⟩ := hallowed
    cases r with
    | ok _ =>
      obtain ⟨-, rfl, rfl⟩ := heffect
      obtain ⟨k, hk⟩ := Option.ne_none_iff_exists'.mp hfile
      exact h.replace htmp hk hreplaced hremoved hbuffer hfailed hends
    | error e =>
      obtain ⟨-, rfl, rfl⟩ := heffect
      exact h.same ⟨rfl, rfl, rfl, rfl, rfl, hlearns hreplaced⟩
  | openDirectory =>
    cases r with
    | ok _ => exact hsame heffect.1 heffect.2
    | error e => exact hsame heffect.2.1 heffect.2.2
  | fsyncDirectory =>
    cases r with
    | ok _ => exact hsame heffect.1 heffect.2
    | error e => exact hsame heffect.2.1 heffect.2.2
  | closeDirectory =>
    cases r with
    | ok _ => exact hsame heffect.1 heffect.2
    | error e => exact hsame heffect.2.1 heffect.2.2
  | «exists» n => exact hsame heffect.2.1 heffect.2.2
  | unlink n =>
    obtain ⟨rfl, hfile, hreplaced, hremoved⟩ := hallowed
    cases r with
    | ok _ =>
      obtain ⟨-, rfl, rfl⟩ := heffect
      obtain ⟨k, hk⟩ := Option.ne_none_iff_exists'.mp hfile
      exact h.unlink htmp hk hreplaced hremoved
    | error e =>
      obtain ⟨-, rfl, rfl⟩ := heffect
      exact h.same ⟨rfl, rfl, rfl, rfl, rfl, fun _ => rfl⟩

end Runs

/-! ### The script of a writer -/

section Scripts

variable {ι : Type} {target : Str} {tmp : ι → Str} {body : ι → Body} {i : ι} {l : Writer}

/-- The context is entered, and its file is there. -/
structure Entered (l : Writer) : Prop where
  file : l.file ≠ none
  entered : l.entered = true
  replaced : l.replaced = false
  removed : l.removed = false

/-- The context is left, and its file too. -/
structure Discarded (l : Writer) : Prop where
  replaced : l.replaced = false
  gone : l.removed = true ∨ l.unlinkFailed = true

/-- How a writer ends. -/
def Ended : Except Exc Unit → Writer → Prop
  | .ok _, l => l.replaced = true ∧ l.failed = false
  | .error _, l => l.replaced = false ∧ (l.entered = true → l.removed = true ∨ l.unlinkFailed = true)

theorem safe_call {c : FileCall} {Q : Except Exc c.Value → Writer → Prop} (hallowed : Allowed target tmp body i l c)
    (h : ∀ r l' s s', (∀ k, l.file = some k → l.replaced = false → l.removed = false → s.dir.names (tmp i) = some k) →
      Effect i s l c r s' l' → Q r l') : Script.Safe (protocol target tmp body i) Q (call c) l :=
  .perform hallowed fun r l' ⟨s, s', hheld, heffect⟩ => h r l' s s' hheld heffect

theorem Entered.moves {new : Bytes} {s s' : Store ι} {l' : Writer} (h : Entered l) (hmoves : Moves s l new s' l') :
    Entered l' ∧ l'.taken = l.taken ++ new ∧ l'.failed = l.failed := by
  obtain ⟨k, out, rest, -, -, -, rfl⟩ := hmoves
  exact ⟨⟨h.file, h.entered, h.replaced, h.removed⟩, rfl, rfl⟩

/-- A call that flushes. -/
theorem Entered.flushed {s s' : Store ι} {l' : Writer} (h : Entered l)
    (heffect : Moves s l [] s' l' ∧ l'.buffer = []) :
    Entered l' ∧ l'.taken = l.taken ∧ l'.buffer = [] ∧ l'.failed = l.failed := by
  obtain ⟨hmoves, hbuffer⟩ := heffect
  obtain ⟨hentered, htaken, hfailed⟩ := h.moves hmoves
  rw [List.append_nil] at htaken
  exact ⟨hentered, htaken, hbuffer, hfailed⟩

theorem Entered.flushFailed {s s' : Store ι} {l' : Writer} (h : Entered l)
    (hmoves : Moves s { l with failed := true } [] s' l') : Entered l' := by
  have hfailed : Entered { l with failed := true } := ⟨h.file, h.entered, h.replaced, h.removed⟩
  exact (hfailed.moves hmoves).1

theorem safe_body : ∀ (b : Body) (l : Writer), Entered l → l.failed = false →
    (∀ rest raised, b.Ends rest raised → (body i).Ends (l.taken ++ rest) raised) →
      Script.Safe (protocol target tmp body i)
        (fun r l => ∃ raised, r = .ok raised ∧ Entered l ∧ l.failed = false ∧ (body i).Ends l.taken raised) b.script l
  | .done raised, l, hl, hfailed, hends => by
    refine ⟨raised, rfl, hl, hfailed, ?_⟩
    have h := hends [] raised (.done raised)
    rwa [List.append_nil] at h
  | .write data rest, l, hl, hfailed, hends => by
    refine ⟨hl.replaced, ?_⟩
    rintro r l' ⟨s, s', -, heffect⟩
    cases r with
    | ok n =>
      obtain ⟨rfl, hmoves⟩ := heffect
      obtain ⟨hl', htaken, hfailed'⟩ := hl.moves hmoves
      refine safe_body _ l' hl' (hfailed'.trans hfailed) fun octets raised h => ?_
      rw [htaken, List.append_assoc]
      exact hends _ _ (.write h)
    | error e =>
      obtain ⟨-, part, hpart, hmoves⟩ := heffect
      obtain ⟨hl', htaken, hfailed'⟩ := hl.moves hmoves
      refine safe_body _ l' hl' (hfailed'.trans hfailed) fun octets raised h => ?_
      rw [htaken, List.append_assoc]
      exact hends _ _ (.failed hpart h)

/-- What comes of a flush or a close. -/
def Flushed (l : Writer) {α : Type} (r : Except Exc α) (l' : Writer) : Prop :=
  Entered l' ∧ (r.isOk = true → l'.taken = l.taken ∧ l'.buffer = [] ∧ l'.failed = l.failed)

theorem safe_flush {l : Writer} (hl : Entered l) :
    Script.Safe (protocol target tmp body i) (Flushed l) (call .flush) l := by
  refine safe_call hl.replaced fun r l' s s' _ heffect => ?_
  cases r with
  | ok _ => exact ⟨(hl.flushed heffect).1, fun _ => (hl.flushed heffect).2⟩
  | error e => exact ⟨hl.flushFailed heffect.2, fun hr => nomatch hr⟩

theorem safe_close {l : Writer} (hl : Entered l) :
    Script.Safe (protocol target tmp body i) (Flushed l) (call .close) l := by
  refine safe_call hl.replaced fun r l' s s' _ heffect => ?_
  cases r with
  | ok _ => exact ⟨(hl.flushed heffect).1, fun _ => (hl.flushed heffect).2⟩
  | error e => exact ⟨hl.flushFailed heffect.2, fun hr => nomatch hr⟩

theorem safe_fsync {l : Writer} (hl : Entered l) (hbuffer : l.buffer = []) :
    Script.Safe (protocol target tmp body i) (Flushed l) (call .fsync) l := by
  refine safe_call hl.replaced fun r l' s s' _ heffect => ?_
  cases r with
  | ok _ =>
    obtain ⟨-, rfl⟩ := heffect
    exact ⟨hl, fun _ => ⟨rfl, hbuffer, rfl⟩⟩
  | error e =>
    obtain ⟨-, -, rfl⟩ := heffect
    exact ⟨⟨hl.file, hl.entered, hl.replaced, hl.removed⟩, fun hr => nomatch hr⟩

theorem Flushed.trans {l l1 l2 : Writer} {α β : Type} {r : Except Exc α} {r' : Except Exc β} (h : Flushed l r l1)
    (hr : r.isOk = true) (h' : Flushed l1 r' l2) : Flushed l r' l2 := by
  obtain ⟨htaken, -, hfailed⟩ := h.2 hr
  refine ⟨h'.1, fun hr' => ?_⟩
  obtain ⟨htaken', hbuffer', hfailed'⟩ := h'.2 hr'
  exact ⟨htaken'.trans htaken, hbuffer', hfailed'.trans hfailed⟩

/-- The file is closed, and everything is in it unless something has raised. -/
theorem safe_flushAndClose (raised : Option Exc) {l : Writer} (hl : Entered l) :
    Script.Safe (protocol target tmp body i) (Flushed l) (flushAndClose raised) l := by
  refine Script.Safe.ensuring (Q := Flushed l)
    (L := fun r r' l' => Entered l' ∧ (r.isOk = true → Flushed l r' l')) ?_ ?_ ?_ ?_
  · refine (safe_flush hl).bind (fun _ l1 h1 => ?_) fun e l1 h1 => ⟨h1.1, fun hr => nomatch hr⟩
    cases raised with
    | none => exact (safe_fsync h1.1 (h1.2 rfl).2.1).mono fun r l2 h2 => h1.trans rfl h2
    | some e => exact ⟨h1.1, fun _ => h1.2 rfl⟩
  · intro r l1 h1
    exact (safe_close h1.1).mono fun r' l2 h2 => ⟨h2.1, fun hr => h1.trans hr h2⟩
  · intro r u l1 h1
    exact ⟨h1.1, fun hr => (h1.2 hr).2 rfl⟩
  · intro r e l1 h1
    exact ⟨h1.1, fun hr => nomatch hr⟩

/-- A call that leaves the writer as it is, and fails with an `OSError`. -/
def Plain (l : Writer) {α : Type} (r : Except Exc α) (l' : Writer) : Prop := l' = l ∧ ∀ e, r = .error e → IsOSError e

theorem Plain.of_effect {l' : Writer} {α : Type} {r : Except Exc α} (hok : ∀ a, r = .ok a → l' = l)
    (herror : ∀ e, r = .error e → IsOSError e ∧ l' = l) : Plain l r l' := by
  refine ⟨?_, fun e he => (herror e he).1⟩
  cases r with
  | ok a => exact hok a rfl
  | error e => exact (herror e rfl).2

/-- Nothing is left of a plain script that is suppressed. -/
theorem safe_suppressOSError {x : WriterScript Unit} (hx : Script.Safe (protocol target tmp body i) (Plain l) x l) :
    Script.Safe (protocol target tmp body i) (fun r l' => r = .ok () ∧ l' = l) (suppressOSError x) l :=
  hx.suppressing (fun _ _ h => ⟨rfl, h.1⟩) fun e _ h => .inl ⟨h.2 e rfl, rfl, h.1⟩

theorem safe_dirFsync (win32 : Bool) :
    Script.Safe (protocol target tmp body i) (Plain l) (dirFsync win32) l := by
  cases win32 with
  | true => exact ⟨rfl, fun e he => nomatch he⟩
  | false =>
    have hopen : Script.Safe (protocol target tmp body i) (Plain l) (call .openDirectory) l :=
      safe_call trivial fun r l' s s' _ heffect =>
        Plain.of_effect (by rintro a rfl; exact heffect.2) (by rintro e rfl; exact ⟨heffect.1, heffect.2.2⟩)
    refine hopen.bind (fun _ l1 h1 => ?_) fun e l1 h1 => ⟨h1.1, fun e' he => Except.error.inj he ▸ h1.2 e rfl⟩
    obtain ⟨rfl, -⟩ := h1
    have hfsync : Script.Safe (protocol target tmp body i) (Plain l1) (call .fsyncDirectory) l1 :=
      safe_call trivial fun r l' s s' _ heffect =>
        Plain.of_effect (by rintro a rfl; exact heffect.2) (by rintro e rfl; exact ⟨heffect.1, heffect.2.2⟩)
    refine hfsync.ensuring (L := fun r r' l' => Plain l1 r l' ∧ Plain l1 r' l') (fun r l2 h2 => ?_)
      (fun r u l2 h2 => h2.1) fun r e l2 h2 => ⟨h2.2.1, fun e' he => Except.error.inj he ▸ h2.2.2 e rfl⟩
    obtain ⟨rfl, hr⟩ := h2
    refine safe_call trivial fun r' l' s s' _ heffect => ?_
    have hclose : Plain l2 r' l' := Plain.of_effect (by rintro a rfl; exact heffect.2)
      (by rintro e rfl; exact ⟨heffect.1, heffect.2.2⟩)
    exact ⟨⟨hclose.1, hr⟩, hclose⟩

/-- What comes of `commit`. -/
def Committed (raised : Option Exc) (r : Except Exc Bool) (l : Writer) : Prop :=
  r = .ok true ∧ raised = none ∧ l.replaced = true ∧ l.failed = false ∨
    r.toOption ≠ some true ∧ (r.isOk = true → raised ≠ none) ∧ Entered l

theorem safe_commit (win32 : Bool) {raised : Option Exc} (hl : Entered l) (hfailed : l.failed = false)
    (hends : raised = none → (body i).Ends l.taken none) :
    Script.Safe (protocol target tmp body i) (Committed raised) (commit win32 (tmp i) target raised) l := by
  refine (safe_flushAndClose raised hl).bind (fun _ l1 h1 => ?_) fun e l1 h1 =>
    .inr ⟨by simp [Except.toOption], (fun hr => by cases hr), h1.1⟩
  obtain ⟨htaken, hbuffer, hfailed1⟩ := h1.2 rfl
  cases raised with
  | some e => exact .inr ⟨by simp [Except.toOption], fun _ => by simp, h1.1⟩
  | none =>
    have hreplace : Script.Safe (protocol target tmp body i)
        (fun r l' => r.isOk = true ∧ l'.replaced = true ∧ l'.failed = false ∨ r.isOk = false ∧ Entered l')
        (call (.replace (tmp i) target)) l1 := by
      refine safe_call ⟨rfl, rfl, h1.1.file, h1.1.replaced, h1.1.removed, hbuffer, hfailed1.trans hfailed,
        htaken ▸ hends rfl⟩
        fun r l' s s' _ heffect => ?_
      cases r with
      | ok _ =>
        obtain ⟨-, -, rfl⟩ := heffect
        exact .inl ⟨rfl, rfl, hfailed1.trans hfailed⟩
      | error e =>
        obtain ⟨-, -, rfl⟩ := heffect
        exact .inr ⟨rfl, h1.1.file, h1.1.entered, h1.1.replaced, h1.1.removed⟩
    refine hreplace.bind (fun _ l2 h2 => ?_) fun e l2 h2 => ?_
    · obtain ⟨-, hreplaced, hnot⟩ := h2.resolve_right fun h => by cases h.1
      refine (safe_suppressOSError (safe_dirFsync win32)).bind (fun _ l3 h3 => ?_) fun e l3 h3 => by cases h3.1
      obtain ⟨-, rfl⟩ := h3
      exact .inl ⟨rfl, rfl, hreplaced, hnot⟩
    · obtain ⟨-, hentered⟩ := h2.resolve_left fun h => by cases h.1
      exact .inr ⟨by simp [Except.toOption], (fun hr => by cases hr), hentered⟩

/-- The temporary file is there, so it is unlinked if it can be. -/
theorem safe_removeTmp (hl : Entered l) : Script.Safe (protocol target tmp body i)
    (fun r l' => r = .ok () ∧ Discarded l') (removeTmp (tmp i) false) l := by
  have hexists : Script.Safe (protocol target tmp body i) (fun r l' => r = .ok true ∧ l' = l) (pathExists (tmp i)) l := by
    refine safe_call ⟨rfl, hl.file, hl.replaced, hl.removed⟩ fun r l' s s' hheld heffect => ?_
    obtain ⟨rfl, -, rfl⟩ := heffect
    obtain ⟨k, hk⟩ := Option.ne_none_iff_exists'.mp hl.file
    rw [hheld k hk hl.replaced hl.removed]
    exact ⟨rfl, rfl⟩
  refine hexists.bind (fun found l1 h1 => ?_) fun e l1 h1 => nomatch h1.1
  obtain ⟨hfound, rfl⟩ := h1
  obtain rfl := Except.ok.inj hfound
  have hunlink : Script.Safe (protocol target tmp body i)
      (fun r l' => Discarded l' ∧ ∀ e, r = .error e → IsOSError e) (call (.unlink (tmp i))) l1 := by
    refine safe_call ⟨rfl, hl.file, hl.replaced, hl.removed⟩ fun r l' s s' _ heffect => ?_
    cases r with
    | ok _ =>
      obtain ⟨-, -, rfl⟩ := heffect
      exact ⟨⟨hl.replaced, .inl rfl⟩, fun e he => nomatch he⟩
    | error e =>
      obtain ⟨herror, -, rfl⟩ := heffect
      exact ⟨⟨hl.replaced, .inr rfl⟩, fun e' he => Except.error.inj he ▸ herror⟩
  exact hunlink.suppressing (fun _ _ h => ⟨rfl, h.1⟩) fun e _ h => .inl ⟨h.2 e rfl, rfl, h.1⟩

/-- What comes of `__exit__`. -/
def Exited (raised : Option Exc) (r : Except Exc Unit) (l : Writer) : Prop :=
  raised = none ∧ l.replaced = true ∧ l.failed = false ∧ r.isOk = true ∨ Discarded l ∧ (r.isOk = true → raised ≠ none)

theorem safe_exit (win32 : Bool) {raised : Option Exc} (hl : Entered l) (hfailed : l.failed = false)
    (hends : raised = none → (body i).Ends l.taken none) :
    Script.Safe (protocol target tmp body i) (Exited raised) (exit win32 (tmp i) target raised) l := by
  have hboth : Script.Safe (protocol target tmp body i)
      (fun r l' => raised = none ∧ l'.replaced = true ∧ l'.failed = false ∧ r.isOk = true ∨
        Discarded l' ∧ (r.isOk = true → raised ≠ none))
      (Script.ensuring (commit win32 (tmp i) target raised) fun r => removeTmp (tmp i) (r.toOption = some true)) l := by
    refine (safe_commit win32 hl hfailed hends).ensuring (L := fun r r' l' => r' = .ok () ∧
      (raised = none ∧ l'.replaced = true ∧ l'.failed = false ∧ r.isOk = true ∨
        Discarded l' ∧ (r.isOk = true → raised ≠ none))) (fun r l1 h1 => ?_) (fun r u l1 h1 => h1.2)
      fun r e l1 h1 => nomatch h1.1
    rcases h1 with ⟨rfl, hraised, hreplaced, hnot⟩ | ⟨hr, hraised, hentered⟩
    · exact ⟨rfl, .inl ⟨hraised, hreplaced, hnot, rfl⟩⟩
    · rw [decide_eq_false hr]
      exact (safe_removeTmp hentered).mono fun r' l2 h2 => ⟨h2.1, .inr ⟨h2.2, hraised⟩⟩
  exact hboth.bind (fun committed l1 h1 => h1) fun e l1 h1 => h1

theorem safe_enter (win32 : Bool) : Script.Safe (protocol target tmp body i)
    (fun r l' => r.isOk = true ∧ Entered l' ∧ l'.failed = false ∧ l'.taken = [] ∨
      r.isOk = false ∧ l'.replaced = false ∧ l'.entered = false) (enter win32 (tmp i)) {} := by
  have hopen : Script.Safe (protocol target tmp body i)
      (fun r l' => r.isOk = true ∧ (∃ k, l' = { file := some k }) ∨ r.isOk = false ∧ l' = {})
      (call (.openNew (tmp i))) {} := by
    refine safe_call ⟨rfl, rfl⟩ fun r l' s s' _ heffect => ?_
    cases r with
    | ok _ =>
      obtain ⟨-, -, rfl⟩ := heffect
      exact .inl ⟨rfl, _, rfl⟩
    | error e =>
      obtain ⟨-, -, rfl⟩ := heffect
      exact .inr ⟨rfl, rfl⟩
  refine hopen.bind (fun _ l1 h1 => ?_) fun e l1 h1 => ?_
  · obtain ⟨-, k, rfl⟩ := h1.resolve_right fun h => nomatch h.1
    have hmode : Script.Safe (protocol target tmp body i) (fun r l' => r = .ok () ∧ l' = { file := some k })
        (fchmod win32) { file := some k } := by
      cases win32 with
      | true => exact ⟨rfl, rfl⟩
      | false =>
        refine safe_suppressOSError (safe_call trivial fun r l' s s' _ heffect => ?_)
        exact Plain.of_effect (by rintro a rfl; exact heffect.2)
          (by rintro e rfl; exact ⟨heffect.1, heffect.2.2⟩)
    refine hmode.bind (fun _ l2 h2 => ?_) fun e l2 h2 => nomatch h2.1
    obtain ⟨-, rfl⟩ := h2
    refine safe_call trivial fun r l' s s' _ heffect => ?_
    cases r with
    | ok _ =>
      obtain ⟨-, rfl⟩ := heffect
      exact .inl ⟨rfl, ⟨by simp, rfl, rfl, rfl⟩, rfl, rfl⟩
    | error e =>
      obtain ⟨-, -, rfl⟩ := heffect
      exact .inr ⟨rfl, rfl, rfl⟩
  · obtain ⟨-, rfl⟩ := h1.resolve_left fun h => nomatch h.1
    exact .inr ⟨rfl, rfl, rfl⟩

/-- **A writer keeps to its protocol.** -/
theorem safe_atomicWriter (win32 : Bool) (parent : Str) :
    Script.Safe (protocol target tmp body i) Ended (atomicWriter win32 parent (tmp i) target (body i)) {} := by
  have hparent : Script.Safe (protocol target tmp body i) (fun r l' => (∃ b, r = .ok b) ∧ l' = {}) parentExists {} :=
    safe_call trivial fun r l' s s' _ heffect => ⟨heffect.1, heffect.2.2⟩
  refine hparent.bind (fun found l0 h0 => ?_) fun e l0 h0 => nomatch h0.1
  obtain ⟨-, rfl⟩ := h0
  cases found with
  | false => exact ⟨rfl, fun h => nomatch h⟩
  | true =>
    refine (safe_enter win32).bind (fun _ l1 h1 => ?_) fun e l1 h1 => ?_
    · obtain ⟨-, hl, hfailed, htaken⟩ := h1.resolve_right fun h => nomatch h.1
      have hends (rest : Bytes) (raised : Option Exc) (h : (body i).Ends rest raised) :
          (body i).Ends (l1.taken ++ rest) raised := by rwa [htaken]
      refine (safe_body (body i) l1 hl hfailed hends).bind (fun raised l2 h2 => ?_) fun e l2 ⟨raised, hr, _⟩ => nomatch hr
      obtain ⟨raised', hr, hl2, hfailed2, hends⟩ := h2
      obtain rfl := Except.ok.inj hr
      refine (safe_exit win32 hl2 hfailed2 fun hnone => hnone ▸ hends).bind (fun _ l3 h3 => ?_) fun e l3 h3 => ?_
      · cases raised with
        | none =>
          obtain ⟨-, hreplaced, hnot, -⟩ := h3.resolve_right fun h => h.2 rfl rfl
          exact ⟨hreplaced, hnot⟩
        | some e =>
          obtain ⟨hdiscarded, -⟩ := h3.resolve_left fun h => nomatch h.1
          exact ⟨hdiscarded.replaced, fun _ => hdiscarded.gone⟩
      · obtain ⟨hdiscarded, -⟩ := h3.resolve_left fun h => nomatch h.2.2.2
        exact ⟨hdiscarded.replaced, fun _ => hdiscarded.gone⟩
    · obtain ⟨-, hreplaced, hentered⟩ := h1.resolve_left fun h => nomatch h.1
      exact ⟨hreplaced, fun h => absurd (hentered.symm.trans h) (by simp)⟩

end Scripts

/-! ### Any number of writers -/

section Writers

variable {ι : Type} {d0 : Directory} {target : Str} {body : ι → Body}

theorem tmpPath_ne (target suffix : Str) : tmpPath target suffix ≠ target := by
  intro h
  have hlen := congrArg List.length h
  unfold tmpPath at hlen
  have hdot : (lit ".").length = 1 := by decide
  simp only [List.length_append] at hlen
  omega

/-- The writers of one target, each with its suffix and its body. -/
abbrev Writers (ι : Type) := Threads ι (Store ι) FileCall FileCall.Value Exc Unit Writer

def start (d0 : Directory) (win32 : Bool) (parent target : Str) (suffix : ι → Str) (body : ι → Body) : Writers ι where
  shared := { dir := d0 }
  threads i := { mem := {}, script := atomicWriter win32 parent (tmpPath target (suffix i)) target (body i) }

theorem ends_bytesBody {data octets : Bytes} (h : (bytesBody data).Ends octets none) : octets = data := by
  cases h with
  | write h =>
    cases h
    exact List.append_nil data
  | failed _ h => cases h

/-- What atomic writes promise. -/
structure Atomic (d0 : Directory) (target : Str) (suffix : ι → Str) (body : ι → Body) (s : Writers ι) : Prop where
  /-- A reader sees what was there, or all that the last writer to replace it
  has written. -/
  reader : s.shared.dir.read target = match s.shared.log.getLast? with
    | none => d0.read target
    | some i => some (s.mems i).taken
  /-- What a reader that came before a replace has open stays as it is. -/
  stable : (∀ k, d0.names target = some k → s.shared.dir.data k = d0.data k) ∧
    ∀ i, i ∈ s.shared.log → ∃ k, (s.mems i).file = some k ∧ s.shared.dir.data k = (s.mems i).taken
  complete : ∀ i, i ∈ s.shared.log → (body i).Ends (s.mems i).taken none
  /-- What `atomic_write_bytes` writes is its data. -/
  bytes : ∀ i data, body i = bytesBody data → i ∈ s.shared.log → (s.mems i).taken = data
  once : s.shared.log.Nodup
  /-- A writer one of whose calls has failed leaves the target alone. -/
  failed : ∀ i, (s.mems i).failed = true → i ∉ s.shared.log
  raised : ∀ i e, (s.threads i).script = .ret (.error e) → i ∉ s.shared.log
  returned : ∀ i u, (s.threads i).script = .ret (.ok u) → i ∈ s.shared.log ∧ (s.mems i).failed = false
  /-- A writer that has left its context has left no file there, unless it
  could not unlink it. -/
  gone : ∀ i r, (s.threads i).script = .ret r → (s.mems i).entered = true → (s.mems i).unlinkFailed = true ∨
    ∀ k, (s.mems i).file = some k → s.shared.dir.names (tmpPath target (suffix i)) ≠ some k
  /-- Until a writer replaces the target by its file, or unlinks it, it is
  there. -/
  held : ∀ i k, (s.mems i).file = some k → i ∉ s.shared.log → (s.mems i).removed = false →
    s.shared.dir.names (tmpPath target (suffix i)) = some k
  /-- A file that was not there before is one writer's. -/
  owner : ∀ n k, n ≠ target → s.shared.dir.names n = some k → d0.names n ≠ some k →
    ∃! i, (s.mems i).file = some k ∧ tmpPath target (suffix i) = n

theorem Inv.reader {tmp : ι → Str} {m : ι → Writer} {s : Store ι} (h : Inv d0 target tmp body s m) :
    s.dir.read target = match s.log.getLast? with
    | none => d0.read target
    | some i => some (m i).taken := by
  unfold Directory.read
  rw [h.atTarget]
  cases hlast : s.log.getLast? with
  | none =>
    dsimp only
    cases hk : d0.names target with
    | none => rfl
    | some k => exact congrArg some (h.old k (d0.used target k hk))
  | some i =>
    have hkept := h.kept i
    obtain ⟨hfile, hbuffer, -, -⟩ := hkept.done (hkept.log.mp (List.mem_of_getLast? hlast))
    obtain ⟨k, hk⟩ := Option.ne_none_iff_exists'.mp hfile
    have hcontent := hkept.content k hk
    rw [hbuffer, List.append_nil] at hcontent
    dsimp only
    rw [hk, ← hcontent]
    rfl

/-- **Writes are atomic**: whatever the writers do, in whatever order, and
whatever fails. -/
theorem atomic_of_reachable [DecidableEq ι] {win32 : Bool} {parent : Str} {suffix : ι → Str} {s : Writers ι}
    (h : (Threads.system Effect (start d0 win32 parent target suffix body)).Reachable s) :
    Atomic d0 target suffix body s := by
  obtain ⟨hinv, hsafe⟩ := Threads.inv (I := Inv d0 target (fun i => tmpPath target (suffix i)) body)
    (P := protocol target (fun i => tmpPath target (suffix i)) body) (Q := fun _ => Ended)
    (inv_start d0 target _ body) (fun i => safe_atomicWriter (i := i) win32 parent)
    (fun i s m c r s' l hI hallowed heffect =>
      ⟨⟨s, s', (hI.kept i).held, heffect⟩, inv_effect (fun j => tmpPath_ne target (suffix j)) hI hallowed heffect⟩) h
  have hended (i : ι) (r : Except Exc Unit) (hr : (s.threads i).script = .ret r) : Ended r (s.mems i) := by
    have hi := hsafe i
    rw [hr] at hi
    exact hi
  have hnot (i : ι) (hi : (s.mems i).replaced = false) : i ∉ s.shared.log := fun hmem => by
    rw [(hinv.kept i).log.mp hmem] at hi
    cases hi
  have hends (i : ι) (hi : i ∈ s.shared.log) : (body i).Ends (s.mems i).taken none :=
    ((hinv.kept i).done ((hinv.kept i).log.mp hi)).2.2.2
  refine ⟨hinv.reader, ⟨fun k hk => hinv.old k (d0.used target k hk), ?_⟩, hends, ?_, hinv.nodup, ?_, ?_, ?_, ?_, ?_, ?_⟩
  · intro i hi
    have hkept := hinv.kept i
    obtain ⟨hfile, hbuffer, -, -⟩ := hkept.done (hkept.log.mp hi)
    obtain ⟨k, hk⟩ := Option.ne_none_iff_exists'.mp hfile
    have hcontent := hkept.content k hk
    rw [hbuffer, List.append_nil] at hcontent
    exact ⟨k, hk, hcontent⟩
  · intro i data hbody hi
    exact ends_bytesBody (hbody ▸ hends i hi)
  · intro i hfailed hi
    rw [((hinv.kept i).done ((hinv.kept i).log.mp hi)).2.2.1] at hfailed
    cases hfailed
  · intro i e hr
    exact hnot i (hended i _ hr).1
  · intro i u hr
    obtain ⟨hreplaced, hfailed⟩ := hended i _ hr
    exact ⟨(hinv.kept i).log.mpr hreplaced, hfailed⟩
  · intro i r hr hentered
    cases r with
    | ok u => exact .inr fun k hk => (hinv.kept i).gone k hk (.inl (hended i _ hr).1)
    | error e =>
      rcases (hended i _ hr).2 hentered with hremoved | hfailed
      · exact .inr fun k hk => (hinv.kept i).gone k hk (.inr hremoved)
      · exact .inl hfailed
  · intro i k hk hi hremoved
    refine (hinv.kept i).held k hk ?_ hremoved
    exact Bool.eq_false_iff.mpr fun hreplaced => hi ((hinv.kept i).log.mpr hreplaced)
  · intro n k hn hk hnew
    obtain ⟨i, hi, hik⟩ := (hinv.named n k hn hk).resolve_left hnew
    exact ⟨i, ⟨hik, hi⟩, fun j hj => hinv.owner j i k hj.1 hik⟩

/-- The file `t` is there, and holds one octet. -/
def sampleDirectory : Directory where
  names n := if n = lit "t" then some 0 else none
  data _ := [9]
  nextInode := 1
  used n k h := by
    split_ifs at h
    obtain rfl := Option.some.inj h
    exact Nat.one_pos

def sampleSuffix (i : Bool) : Str := if i then lit "00000001" else lit "00000000"

/-- Two writers of the file `t` get in each other's way: both have their files
when the flush of the one fails, half done, and it removes its file; the other
comes to its replace. -/
theorem atomic_of_replaced : ∃ s : Writers Bool,
    (s.shared.log = [false] ∧ s.shared.dir.read (lit "t") = some [1] ∧
      (∃ e, (s.threads true).script = .ret (.error e)) ∧
      s.shared.dir.names (tmpPath (lit "t") (sampleSuffix true)) = none) ∧
    Atomic sampleDirectory (lit "t") sampleSuffix (fun i => bytesBody (if i then [2, 3] else [1])) s := by
  have h0 : (Threads.system Effect (start sampleDirectory true (lit "/") (lit "t") sampleSuffix
      fun i => bytesBody (if i then [2, 3] else [1]))).Reachable _ := .init rfl
  have h1 := h0.step true ⟨.parentExists, _, .ok true, _, _, rfl, ⟨⟨true, rfl⟩, rfl, rfl⟩, rfl⟩
  have h2 := h1.step false ⟨.parentExists, _, .ok true, _, _, rfl, ⟨⟨true, rfl⟩, rfl, rfl⟩, rfl⟩
  have h3 := h2.step false ⟨.openNew _, _, .ok (), _, _, rfl, ⟨rfl, rfl, rfl⟩, rfl⟩
  have h4 := h3.step true ⟨.openNew _, _, .ok (), _, _, rfl, ⟨rfl, rfl, rfl⟩, rfl⟩
  have h5 := h4.step true ⟨.fdopen, _, .ok (), _, _, rfl, ⟨rfl, rfl⟩, rfl⟩
  have h6 := h5.step false ⟨.fdopen, _, .ok (), _, _, rfl, ⟨rfl, rfl⟩, rfl⟩
  have h7 := h6.step true ⟨.write _, _, .ok (2 : ℕ), _, _, rfl, ⟨rfl, 2, [], [2, 3], rfl, rfl, rfl, rfl⟩, rfl⟩
  have h8 := h7.step false ⟨.write _, _, .ok (1 : ℕ), _, _, rfl, ⟨rfl, 1, [], [1], rfl, rfl, rfl, rfl⟩, rfl⟩
  have h9 := h8.step true ⟨.flush, _, .error { cls := .osError, message := lit "no space" }, _, _, rfl,
    ⟨rfl, 2, [2], [3], rfl, rfl, rfl, rfl⟩, rfl⟩
  have h10 := h9.step false ⟨.flush, _, .ok (), _, _, rfl, ⟨⟨1, [1], [], rfl, rfl, rfl, rfl⟩, rfl⟩, rfl⟩
  have h11 := h10.step true ⟨.close, _, .ok (), _, _, rfl, ⟨⟨2, [3], [], rfl, rfl, rfl, rfl⟩, rfl⟩, rfl⟩
  have h12 := h11.step false ⟨.fsync, _, .ok (), _, _, rfl, ⟨rfl, rfl⟩, rfl⟩
  have h13 := h12.step true ⟨.exists _, _, .ok true, _, _, rfl, ⟨rfl, rfl, rfl⟩, rfl⟩
  have h14 := h13.step false ⟨.close, _, .ok (), _, _, rfl, ⟨⟨1, [], [], rfl, rfl, rfl, rfl⟩, rfl⟩, rfl⟩
  have h15 := h14.step true ⟨.unlink _, _, .ok (), _, _, rfl, ⟨by decide, rfl, rfl⟩, rfl⟩
  have h16 := h15.step false ⟨.replace _ _, _, .ok (), _, _, rfl, ⟨by decide, rfl, rfl⟩, rfl⟩
  exact ⟨_, ⟨rfl, rfl, ⟨_, rfl⟩, rfl⟩, atomic_of_reachable h16⟩

/-- **A lone writer** does what is taken of `atomic_write_bytes` elsewhere: the
target holds the data once it has returned, and is as it was if it has
raised. -/
theorem run_atomicWriteBytes {γ Time : Type} {win32 : Bool} {parent suffix : Str} {path : Path} {data : Bytes}
    {s : Writers Unit} {r : Except Exc Unit} {w : World γ Time}
    (h : (Threads.system Effect (start d0 win32 parent path.name (fun _ => suffix) fun _ => bytesBody data)).Reachable s)
    (hr : (s.threads ()).script = .ret r) (hfile : w.files path = d0.read path.name)
    (hfault : w.faults 0 = match r with
      | .ok _ => none
      | .error e => some e) :
    (GpgMeister.atomicWriteBytes path data).Meets w
      (fun _ w' => r.isOk = true ∧ w'.files path = s.shared.dir.read path.name)
      fun e w' => r = .error e ∧ w'.files path = s.shared.dir.read path.name := by
  have hatomic := atomic_of_reachable h
  unfold GpgMeister.atomicWriteBytes
  rw [Program.meets_bind]
  cases r with
  | ok u =>
    rw [Program.Meets, run_syscall_of_none hfault]
    obtain ⟨hlog, -⟩ := hatomic.returned () u hr
    obtain ⟨i, hlast⟩ : ∃ i, s.shared.log.getLast? = some i := by
      rw [List.getLast?_eq_some_getLast (List.ne_nil_of_mem hlog)]
      exact ⟨_, rfl⟩
    refine ⟨rfl, ?_⟩
    rw [hatomic.reader, hlast]
    exact (Function.update_self ..).trans (congrArg some (hatomic.bytes i data rfl (List.mem_of_getLast? hlast)).symm)
  | error e =>
    rw [Program.Meets, run_syscall_of_some hfault]
    have hlog : s.shared.log = [] := List.eq_nil_iff_forall_not_mem.mpr fun i => hatomic.raised i e hr
    refine ⟨rfl, ?_⟩
    rw [hatomic.reader, hlog]
    exact hfile

end Writers

end AtomicWrite
end GpgMeister
