/-
# The world of the services

The services run in a world: GnuPG with its keyring, its agent and the cards;
the files; the store; the audit log; and what the operating system, the clock
and the random generator have in store for the calls to come. `Platform` is
what does not change: the libraries the services call, and the executable of
GnuPG.

A call of the operating system (`syscall`) fails as the world says. Some calls
are written down in a history that the code does not read.
-/
import GpgMeister.Lib.Program
import GpgMeister.Models.Smartcard
import GpgMeister.Models.Vault
import GpgMeister.Services.PromptResponder
import GpgMeister.Storage.AuditLog

namespace GpgMeister

/-! ### The libraries -/

/-- The two ciphers of `cryptography`: `encrypt` gives the ciphertext with its
tag, or `OverflowError`; `decrypt` gives the plaintext, or `InvalidTag`. -/
structure Aead where
  encrypt : CipherAlgorithm → (key nonce associatedData plaintext : Bytes) → Option Bytes
  decrypt : CipherAlgorithm → (key nonce associatedData ciphertext : Bytes) → Option Bytes

/-- What a run of GnuPG gives back; its status stream arrives in reads. -/
structure Gpg.Output where
  returncode : ℤ
  stdout : Bytes := []
  stderr : Bytes := []
  reads : List Gpg.Chunk := []

/-- What a run of an editor of GnuPG gives back: also what arrives on its status
stream, and which of the writes to its command pipe fail. Its end may be
waited for in vain. -/
structure Gpg.EditorRun extends Gpg.Output where
  faults : ℕ → Option ℕ := fun _ => none
  raised : Option Exc := none

/-- GnuPG, on states `γ` of its home, its agent and the cards. -/
structure GnuPG (γ Time : Type) where
  /-- `_base_cmd` -/
  baseCmd : List Str
  /-- The numbers that the status pipe and the passphrase pipe get. -/
  pipes : γ → Str × Str
  /-- A run with these arguments after the command, this input, and this
  passphrase in its pipe. It may time out, or not start. -/
  popen : List Str → (input passphrase : Option Bytes) → γ → Except Exc Gpg.Output × γ
  /-- `list_keys(secret=…)` -/
  listKeys : (secret : Bool) → γ → Except Exc (List (KeyInfo Time)) × γ
  /-- A run of an editor with these arguments, which asks what it asks. It may
  not start. -/
  editor : List Str → γ → Except Exc Gpg.EditorRun × γ :=
    fun _ g => (.error { cls := .fileNotFoundError, message := [] }, g)

/-- A path: the directory and the name. -/
structure Path where
  parent : Str
  name : Str
  deriving DecidableEq

/-- `str(path)` -/
def Path.text (p : Path) : Str := p.parent ++ lit "/" ++ p.name

/-- `path.with_name(path.name + suffix)` -/
def Path.appendName (p : Path) (suffix : Str) : Path := { p with name := p.name ++ suffix }

/-- What stays the same around the services. -/
structure Platform (γ Time : Type) extends AuditLog.Env where
  upper : Str → Str
  digits : DigitTable
  /-- Whether `date.fromisoformat` accepts the text. -/
  isoDate : Str → Bool
  pydantic : Pydantic Time
  msgpack : Msgpack Exc
  aead : Aead
  /-- `hash_secret_raw`, or the text of its `Argon2Error` -/
  argon2 : (secret salt : Bytes) → KDFParams → Except Str Bytes
  gpg : GnuPG γ Time
  fromTimestamp : Str → Option Time
  /-- `now >= expires_at` -/
  isOver : (now expiresAt : Time) → Bool
  /-- `Path.resolve` -/
  resolve : Path → Path
  /-- The order in which a `set` of the items of a list is walked. -/
  setOrder : List Str → List Str
  setOrder_perm : ∀ l, (setOrder l).Perm l.dedup

/-! ### The world -/

/-- The audit log, and what its calls to come are given from outside. -/
structure AuditSink where
  handle : AuditLog.Handle
  disk : AuditLog.Disk
  calls : ℕ → AuditLog.Call
  locks : ℕ → Option Exc

structure VaultRecord where
  filename : Str
  keyCount : ℕ
  description : Str

structure UnlockSlotRow where
  id : ℕ
  fingerprint : Str
  slotType : Str
  slotJson : Str

/-- The tables of `storage/metadata_store.py` that the services use. -/
structure MetadataStore where
  vaultRecords : List VaultRecord := []
  unlockSlots : List UnlockSlotRow := []
  nextSlotId : ℕ := 1

/-- A call that is written down, with how it ended. -/
inductive Call
  /-- `derive_key`, with a salt of so many octets -/
  | deriveKey (params : KDFParams) (saltLength : ℕ) (raised : Option Exc)
  /-- `GPGService.decrypt` -/
  | decrypt (raised : Option Exc)
  /-- `GPGService.delete_key` -/
  | deleteKey (fingerprint : Str) (raised : Option Exc)
  /-- `AuditLog.emit` -/
  | emit (event outcome : Str) (raised : Option Exc)
  /-- An editor of GnuPG that was started, with the script for it, what arrived
  from it, and what happened to its command pipe -/
  | editor (args : List Str) (script : PromptScript) (reads : List Gpg.Chunk) (pipe : List Gpg.PipeEvent)
  deriving DecidableEq

/-- Octets of a plaintext in memory: a `bytes` object, or a `bytearray`. -/
structure Buffer where
  isMutable : Bool
  octets : Bytes

structure World (γ Time : Type) where
  gnupg : γ
  files : Path → Option Bytes
  store : MetadataStore
  audit : AuditSink
  faults : ℕ → Option Exc
  random : ℕ → UInt8
  clock : ℕ → Time
  buffers : List Buffer
  history : List Call

section Programs

variable {γ Time α : Type}

/-- A call of the operating system that is not modelled further. -/
def syscall : Program (World γ Time) Exc Unit := fun w =>
  let w' := { w with faults := fun n => w.faults (n + 1) }
  match w.faults 0 with
  | none => .ok () w'
  | some e => .error e w'

theorem run_syscall_of_none {w : World γ Time} (h : w.faults 0 = none) :
    (syscall : Program (World γ Time) Exc Unit).run w = .ok () { w with faults := fun n => w.faults (n + 1) } := by
  simp only [EStateM.run, syscall, h]

theorem run_syscall_of_some {w : World γ Time} {e : Exc} (h : w.faults 0 = some e) :
    (syscall : Program (World γ Time) Exc Unit).run w = .error e { w with faults := fun n => w.faults (n + 1) } := by
  simp only [EStateM.run, syscall, h]

/-- `secrets.token_bytes(n)` -/
def tokenBytes (n : ℕ) : Program (World γ Time) Exc Bytes := fun w =>
  .ok ((List.range n).map w.random) { w with random := fun i => w.random (n + i) }

/-- `datetime.now(UTC)` -/
def utcNow : Program (World γ Time) Exc Time := fun w =>
  .ok (w.clock 0) { w with clock := fun n => w.clock (n + 1) }

/-- What the file holds, for a file that can be opened. -/
def readFile (path : Path) : Program (World γ Time) Exc Bytes := do
  syscall
  match (← get).files path with
  | some data => return data
  | none => Program.raise { cls := .fileNotFoundError, message := path.text }

/-- `path.exists()` -/
def fileExists (path : Path) : Program (World γ Time) Exc Bool := do
  syscall
  return ((← get).files path).isSome

/-- `atomic_write_bytes(path, data)`: the file holds the data once the call
returns, and is as it was if it raises. -/
def atomicWriteBytes (path : Path) (data : Bytes) : Program (World γ Time) Exc Unit := do
  syscall
  modify fun w => { w with files := Function.update w.files path (some data) }

/-- `text.encode("utf-8")` -/
def encodeUtf8 (text : Str) : Except Exc Bytes :=
  match Utf8.encode text with
  | some data => .ok data
  | none => .error { cls := .unicodeEncodeError, message := lit "surrogates not allowed" }

theorem encodeUtf8_eq_ok {text : Str} {data : Bytes} (h : encodeUtf8 text = .ok data) : Utf8.encode text = some data := by
  unfold encodeUtf8 at h
  cases hd : Utf8.encode text with
  | none =>
    rw [hd] at h
    cases h
  | some data' =>
    rw [hd] at h
    rw [Except.ok.inj h]

theorem encodeUtf8_isOk {text : Str} : (∃ data, encodeUtf8 text = .ok data) ↔ text.any Utf8.isSurrogate = false := by
  rw [← Utf8.encode_isSome]
  unfold encodeUtf8
  cases Utf8.encode text <;> simp

/-- `try: x except classes`, with what was caught. -/
def attempt (classes : List ErrorClass) (x : Program (World γ Time) Exc α) :
    Program (World γ Time) Exc (Except Exc α) :=
  Program.catching (Except.ok <$> x) fun e => if e.isA classes then return .error e else Program.raise e

/-- What a model makes of its fields. -/
def validated : Option α → Program (World γ Time) Exc α
  | some a => pure a
  | none => Program.raise { cls := .validationError, message := [] }

/-- A call is written down. -/
def World.note (w : World γ Time) (call : Call) : World γ Time := { w with history := w.history ++ [call] }

/-- The call is written down with how it ended. -/
def recorded (call : Option Exc → Call) (x : Program (World γ Time) Exc α) : Program (World γ Time) Exc α := fun w =>
  match x.run w with
  | .ok a w => .ok a (w.note (call none))
  | .error e w => .error e (w.note (call (some e)))

/-- `AuditLog.emit`: it takes the lock of the log, and writes the record. -/
def AuditSink.emit (env : AuditLog.Env) (event outcome : Str) (payload : Dict) : Program AuditSink Exc Unit := fun s =>
  let s' := { s with calls := fun n => s.calls (n + 1), locks := fun n => s.locks (n + 1) }
  match s.locks 0 with
  | some e => .error e s'
  | none =>
    match AuditLog.emit env s.handle s.disk event outcome payload (s.calls 0) with
    | ((h, d), none) => .ok () { s' with handle := h, disk := d }
    | ((h, d), some e) => .error e { s' with handle := h, disk := d }

/-- `self._audit.emit(event, outcome=…, …)` -/
def emit (env : AuditLog.Env) (event outcome : Str) (payload : Dict) : Program (World γ Time) Exc Unit :=
  recorded (.emit event outcome)
    ((AuditSink.emit env event outcome payload).onPart World.audit fun audit w => { w with audit := audit })

/-- A new object with these octets. -/
def allocate (isMutable : Bool) (octets : Bytes) : Program (World γ Time) Exc ℕ := fun w =>
  .ok w.buffers.length { w with buffers := w.buffers ++ [{ isMutable, octets }] }

def modifyBuffer (buffer : ℕ) (f : Bytes → Bytes) : Program (World γ Time) Exc Unit :=
  modify fun w => { w with buffers := w.buffers.modify buffer fun b => { b with octets := f b.octets } }

def zeros (octets : Bytes) : Bytes := List.replicate octets.length 0

/-- `zero_mutable_buffer` -/
def zeroMutableBuffer (buffer : ℕ) : Program (World γ Time) Exc Unit := modifyBuffer buffer zeros

/-- `_zero_bytes_object`, in CPython: an object of one octet is shared by the
interpreter and is left alone. -/
def zeroBytesObject (buffer : ℕ) : Program (World γ Time) Exc Unit :=
  modifyBuffer buffer fun octets => if octets.length ≤ 1 then octets else zeros octets

/-! ### Runs of the primitives -/

section Runs

variable {x : Program (World γ Time) Exc α} {w w' : World γ Time}

theorem run_recorded_eq_ok {call : Option Exc → Call} {a : α} :
    (recorded call x).run w = .ok a w' ↔ ∃ w1, x.run w = .ok a w1 ∧ w1.note (call none) = w' := by
  unfold recorded
  simp only [EStateM.run]
  cases x w <;> simp

theorem run_recorded_eq_error {call : Option Exc → Call} {e : Exc} :
    (recorded call x).run w = .error e w' ↔ ∃ w1, x.run w = .error e w1 ∧ w1.note (call (some e)) = w' := by
  unfold recorded
  simp only [EStateM.run]
  cases x w with
  | ok a w1 => simp
  | error e' w1 =>
    simp only [EStateM.Result.error.injEq]
    constructor
    · intro h
      obtain ⟨rfl, rfl⟩ := h
      exact ⟨w1, ⟨rfl, rfl⟩, rfl⟩
    · intro h
      obtain ⟨w2, ⟨rfl, rfl⟩, rfl⟩ := h
      exact ⟨rfl, rfl⟩

theorem meets_recorded {call : Option Exc → Call} {Q : α → World γ Time → Prop} {E : Exc → World γ Time → Prop} :
    (recorded call x).Meets w Q E ↔
      x.Meets w (fun a w' => Q a (w'.note (call none))) fun e w' => E e (w'.note (call (some e))) := by
  unfold Program.Meets recorded
  simp only [EStateM.run]
  cases x w <;> exact Iff.rfl

theorem run_validated_eq_ok {o : Option α} {a : α} (h : (validated o).run w = .ok a w') : o = some a ∧ w = w' := by
  cases o with
  | none => cases h
  | some a' =>
    obtain ⟨rfl, rfl⟩ := Program.run_pure_eq_ok.mp h
    exact ⟨rfl, rfl⟩

theorem run_tokenBytes_eq_ok {n : ℕ} {data : Bytes} (h : (tokenBytes n).run w = .ok data w') : data.length = n := by
  obtain ⟨rfl, -⟩ := (EStateM.Result.ok.injEq ..).mp h
  simp

theorem run_attempt_of_ok {a : α} (h : x.run w = .ok a w') (classes : List ErrorClass) :
    (attempt classes x).run w = .ok (.ok a) w' := by
  rw [attempt, Program.run_catching, Program.run_map_eq, h]

theorem run_attempt_of_caught {e : Exc} (h : x.run w = .error e w') {classes : List ErrorClass}
    (hc : e.isA classes = true) : (attempt classes x).run w = .ok (.error e) w' := by
  rw [attempt, Program.run_catching, Program.run_map_eq, h]
  dsimp only
  rw [if_pos hc]
  rfl

theorem run_attempt_of_not_caught {e : Exc} (h : x.run w = .error e w') {classes : List ErrorClass}
    (hc : ¬ e.isA classes = true) : (attempt classes x).run w = .error e w' := by
  rw [attempt, Program.run_catching, Program.run_map_eq, h]
  dsimp only
  rw [if_neg hc]
  rfl

/-- What is not caught is what returned. -/
theorem run_of_attempt_ok {classes : List ErrorClass} {a : α} (h : (attempt classes x).run w = .ok (.ok a) w') :
    x.run w = .ok a w' := by
  cases hx : x.run w with
  | ok b w1 =>
    rw [run_attempt_of_ok hx] at h
    obtain ⟨hb, rfl⟩ := (EStateM.Result.ok.injEq ..).mp h
    rw [Except.ok.inj hb]
  | error e w1 =>
    by_cases hc : e.isA classes = true
    · rw [run_attempt_of_caught hx hc] at h
      cases h
    · rw [run_attempt_of_not_caught hx hc] at h
      cases h

end Runs

/-! ### What the primitives leave alone -/

variable {β : Type} {f : World γ Time → β}

/-- `f` looks neither at the audit log, nor at the buffers, nor at what is in
store for the calls to come. -/
structure Calm (f : World γ Time → β) : Prop where
  audit : ∀ w audit, f { w with audit := audit } = f w
  faults : ∀ w faults, f { w with faults := faults } = f w
  random : ∀ w random, f { w with random := random } = f w
  clock : ∀ w clock, f { w with clock := clock } = f w
  buffers : ∀ w buffers, f { w with buffers := buffers } = f w

/-- `f` does not look at the records of the event in the history. -/
def PastEvent (f : World γ Time → β) (event : Str) : Prop :=
  ∀ w outcome raised, f (w.note (.emit event outcome raised)) = f w

/-- `f` does not look at the records in the history. -/
def PastEmits (f : World γ Time → β) : Prop := ∀ event, PastEvent f event

/-- `f` does not look at the derived keys in the history. -/
def PastDerivations (f : World γ Time → β) : Prop :=
  ∀ w params n raised, f (w.note (.deriveKey params n raised)) = f w

/-- `f` looks at neither. -/
structure Steady (f : World γ Time → β) : Prop extends Calm f where
  emitted : PastEmits f
  derived : PastDerivations f

open Program

theorem Calm.syscall (h : Calm f) : Keeps f syscall := by
  intro w
  unfold after GpgMeister.syscall
  simp only [EStateM.run]
  cases w.faults 0 with
  | none => exact h.faults w _
  | some e => exact h.faults w _

theorem Calm.tokenBytes (h : Calm f) (n : ℕ) : Keeps f (tokenBytes n) := fun w => h.random w _

theorem Calm.utcNow (h : Calm f) : Keeps f utcNow := fun w => h.clock w _

theorem Calm.readFile (h : Calm f) (path : Path) : Keeps f (readFile path) := by
  apply h.syscall.bind
  intro _
  apply keeps_get.bind
  intro w
  cases w.files path with
  | none => exact keeps_raise _
  | some data => exact keeps_pure data

theorem Calm.fileExists (h : Calm f) (path : Path) : Keeps f (fileExists path) :=
  h.syscall.bind fun _ => keeps_get.bind fun _ => keeps_pure _

theorem Calm.modifyBuffer (h : Calm f) (buffer : ℕ) (g : Bytes → Bytes) : Keeps f (modifyBuffer buffer g) :=
  fun w => h.buffers w _

theorem Calm.allocate (h : Calm f) (isMutable : Bool) (octets : Bytes) : Keeps f (allocate isMutable octets) :=
  fun w => h.buffers w _

theorem keeps_validated (o : Option α) : Keeps f (validated o) := by
  cases o with
  | none => exact keeps_raise _
  | some a => exact keeps_pure a

theorem Program.Keeps.attempt {x : Program (World γ Time) Exc α} (hx : Keeps f x) (classes : List ErrorClass) :
    Keeps f (GpgMeister.attempt classes x) := by
  apply (hx.map Except.ok).catching
  intro e
  by_cases h : e.isA classes = true
  · rw [if_pos h]
    exact keeps_pure _
  · rw [if_neg h]
    exact keeps_raise e

theorem Program.Stays.attempt {I : World γ Time → Prop} {E : Exc → Prop} {x : Program (World γ Time) Exc α}
    (hx : Stays I E x) (classes : List ErrorClass) : Stays I E (GpgMeister.attempt classes x) := by
  apply (hx.map Except.ok).catching
  intro e he
  by_cases h : e.isA classes = true
  · rw [if_pos h]
    exact .pure _
  · rw [if_neg h]
    exact .raise he

theorem Program.Stays.recorded {I : World γ Time → Prop} {E : Exc → Prop} {x : Program (World γ Time) Exc α}
    {call : Option Exc → Call} (hx : Stays I E x) (h : ∀ w raised, I w → I (w.note (call raised))) :
    Stays I E (GpgMeister.recorded call x) := by
  intro w hw
  rw [meets_recorded]
  exact (hx w hw).mono (fun a w' h' => h w' none h') fun e w' h' => ⟨h w' (some e) h'.1, h'.2⟩

theorem Program.Adds.attempt {κ : Type} {log : World γ Time → List κ} {p : κ → Prop} {n : ℕ}
    {x : Program (World γ Time) Exc α} (hx : Adds log p n x) (classes : List ErrorClass) :
    Adds log p n (GpgMeister.attempt classes x) := by
  apply Adds.catching (n := 0)
  · exact hx.bind (n := 0) fun a => .of_keeps (keeps_pure _)
  · intro e
    apply Adds.of_keeps
    by_cases h : e.isA classes = true
    · rw [if_pos h]
      exact keeps_pure _
    · rw [if_neg h]
      exact keeps_raise e

theorem Program.Keeps.recorded {x : Program (World γ Time) Exc α} {call : Option Exc → Call} (hx : Keeps f x)
    (h : ∀ w raised, f (w.note (call raised)) = f w) : Keeps f (GpgMeister.recorded call x) := by
  intro w
  have hw := hx w
  unfold Program.after GpgMeister.recorded at *
  simp only [EStateM.run] at hw ⊢
  cases hx' : x w with
  | ok a w' =>
    rw [hx'] at hw
    exact (h w' _).trans hw
  | error e w' =>
    rw [hx'] at hw
    exact (h w' _).trans hw

theorem Calm.emit {event : Str} (h : Calm f) (he : PastEvent f event) (env : AuditLog.Env) (outcome : Str)
    (payload : Dict) : Keeps f (emit env event outcome payload) :=
  (keeps_onPart World.audit (fun audit w => { w with audit := audit }) (fun audit w => h.audit w audit) _).recorded
    fun w raised => he w outcome raised

theorem Steady.emit (h : Steady f) (env : AuditLog.Env) (event outcome : Str) (payload : Dict) :
    Keeps f (GpgMeister.emit env event outcome payload) := h.toCalm.emit (h.emitted event) env outcome payload

theorem calm_files : Calm (World.files : World γ Time → Path → Option Bytes) where
  audit _ _ := rfl
  faults _ _ := rfl
  random _ _ := rfl
  clock _ _ := rfl
  buffers _ _ := rfl

/-- What was read is in the file. -/
theorem readFile_eq_ok {path : Path} {data : Bytes} {w w' : World γ Time} (h : (readFile path).run w = .ok data w') :
    w.files path = some data := by
  obtain ⟨u, w1, hs, h⟩ := run_bind_eq_ok.mp h
  rw [← calm_files.syscall.of_run_eq_ok hs]
  obtain ⟨w2, w3, hg, h⟩ := run_bind_eq_ok.mp h
  obtain ⟨rfl, rfl⟩ : w1 = w2 ∧ w1 = w3 := by simpa using hg
  cases hf : w1.files path with
  | none => simp [hf] at h
  | some data' =>
    rw [hf] at h
    obtain ⟨rfl, -⟩ := run_pure_eq_ok.mp h
    rfl

/-! ### What holds at either end, whatever happens -/

/-- GnuPG and the store: what lasts. -/
structure Stores (γ : Type) where
  gnupg : γ
  store : MetadataStore

def World.stores (w : World γ Time) : Stores γ := { gnupg := w.gnupg, store := w.store }

theorem steady_stores : Steady (World.stores : World γ Time → Stores γ) where
  audit _ _ := rfl
  faults _ _ := rfl
  random _ _ := rfl
  clock _ _ := rfl
  buffers _ _ := rfl
  emitted _ _ _ _ := rfl
  derived _ _ _ _ := rfl

/-- Whatever the rest of the world has in store, the program returns with `Q`
or raises with `E` from here. -/
def Ensures (x : Program (World γ Time) Exc α) (s : Stores γ) (Q : α → Stores γ → Prop)
    (E : Exc → Stores γ → Prop) : Prop :=
  ∀ w : World γ Time, w.stores = s → x.Meets w (fun a w' => Q a w'.stores) fun e w' => E e w'.stores

namespace Ensures

variable {x : Program (World γ Time) Exc α} {s : Stores γ} {Q Q' : α → Stores γ → Prop}
  {E E' : Exc → Stores γ → Prop}

theorem mono (h : Ensures x s Q E) (hQ : ∀ a s', Q a s' → Q' a s') (hE : ∀ e s', E e s' → E' e s') :
    Ensures x s Q' E' := fun w hw =>
  (h w hw).mono (fun a w' => hQ a w'.stores) fun e w' => hE e w'.stores

theorem pure {a : α} (h : Q a s) : Ensures (Pure.pure a : Program (World γ Time) Exc α) s Q E := by
  intro w hw
  subst hw
  exact h

theorem raise {e : Exc} (h : E e s) : Ensures (Program.raise e : Program (World γ Time) Exc α) s Q E := by
  intro w hw
  subst hw
  exact h

theorem ofExcept {r : Except Exc α} (hQ : ∀ a, r = .ok a → Q a s) (hE : ∀ e, r = .error e → E e s) :
    Ensures (Program.ofExcept r : Program (World γ Time) Exc α) s Q E := by
  cases r with
  | ok a => exact pure (hQ a rfl)
  | error e => exact raise (hE e rfl)

theorem bind {R : β → Stores γ → Prop} {f : α → Program (World γ Time) Exc β}
    (hx : Ensures x s Q E) (hf : ∀ a s', Q a s' → Ensures (f a) s' R E) : Ensures (x >>= f) s R E := by
  intro w hw
  rw [Program.meets_bind]
  exact (hx w hw).mono (fun a w' h => hf a w'.stores h w' rfl) fun e w' h => h

theorem catching {handler : Exc → Program (World γ Time) Exc α} (hx : Ensures x s Q E)
    (hh : ∀ e s', E e s' → Ensures (handler e) s' Q E') : Ensures (x.catching handler) s Q E' := by
  intro w hw
  rw [Program.meets_catching]
  exact (hx w hw).mono (fun a w' h => h) fun e w' h => hh e w'.stores h w' rfl

/-- A program that touches neither. -/
theorem of_keeps (hx : Keeps World.stores x) (hQ : ∀ a, Q a s) (hE : ∀ e, E e s) : Ensures x s Q E := by
  intro w hw
  subst hw
  exact hx.meets (fun a w' h => h ▸ hQ a) fun e w' h => h ▸ hE e

theorem of_run_eq_ok {w w' : World γ Time} {a : α} (h : Ensures x w.stores Q E) (hr : x.run w = .ok a w') :
    Q a w'.stores := (h w rfl).of_run_eq_ok hr

theorem of_run_eq_error {w w' : World γ Time} {e : Exc} (h : Ensures x w.stores Q E)
    (hr : x.run w = .error e w') : E e w'.stores := (h w rfl).of_run_eq_error hr

theorem recorded {call : Option Exc → Call} (hx : Ensures x s Q E) : Ensures (recorded call x) s Q E := by
  intro w hw
  rw [meets_recorded]
  exact hx w hw

end Ensures

end Programs

/-! ### A small world

Libraries that do next to nothing, for runs on fixed inputs. -/

/-- `str.lower`, of ASCII text. -/
def lowerAscii (s : Str) : Str :=
  s.map fun c => if 0x41 ≤ c.val ∧ c.val ≤ 0x5A then Fin.ofNat _ (c.val + 0x20) else c

theorem sampleDigest_hex (c : CodePoint) (h : c ∈ List.replicate 64 (0x30 : CodePoint)) :
    c ∈ (List.range 16).map Json.hexDigit := by
  rw [List.eq_of_mem_replicate h]
  decide

def samplePydantic : Pydantic Unit where
  int
    | .int i => some i
    | _ => none
  str
    | .str s => if s.any Utf8.isSurrogate then none else some s
    | _ => none
  bool
    | .bool b => some b
    | _ => none
  datetime _ := some ()
  jsonBool
    | .bool b => some b
    | _ => none
  isoformat _ := lit "2026-01-01T00:00:00Z"
  int_int _ := rfl
  str_str _ := rfl
  bool_bool _ := rfl
  jsonBool_bool _ := rfl
  datetime_isoformat _ := rfl
  isoformat_ascii _ := by
    have hall : (lit "2026-01-01T00:00:00Z").all (fun c => c.val < 0x80) = true := by decide
    exact ⟨by decide, by simpa using List.all_eq_true.mp hall⟩

/-- The digits of ASCII. -/
def sampleDigits : DigitTable where
  isDigit := Json.isDigit
  decimal c := if Json.isDigit c then some (Json.digitVal c) else none

/-- The platform with this GnuPG. Nothing is packed, encrypted or derived. -/
def samplePlatform {γ : Type} (gpg : GnuPG γ Unit) : Platform γ Unit where
  lower := lowerAscii
  repr := id
  recursionLimit := 1000
  sha256 _ := List.replicate 64 0x30
  sha256_length _ := List.length_replicate
  sha256_hex _ := sampleDigest_hex
  upper := id
  digits := sampleDigits
  isoDate _ := false
  pydantic := samplePydantic
  msgpack :=
    { packb := fun _ => .error { cls := .typeError, message := [] }
      unpackb := fun _ _ _ => .error { cls := .valueError, message := [] }
      unpackRaw := fun _ _ _ => .error { cls := .valueError, message := [] } }
  aead := { encrypt := fun _ _ _ _ _ => none, decrypt := fun _ _ _ _ _ => none }
  argon2 _ _ _ := .error []
  gpg := gpg
  fromTimestamp _ := none
  isOver _ _ := false
  resolve := id
  setOrder := List.dedup
  setOrder_perm _ := List.Perm.refl _

/-- No executable, and no keys. -/
def noGnuPG : GnuPG Unit Unit where
  baseCmd := [lit "gpg"]
  pipes _ := (lit "3", lit "4")
  popen _ _ _ g := (.error { cls := .fileNotFoundError, message := [] }, g)
  listKeys _ g := (.ok [], g)

/-- A calm world with these files: nothing fails. -/
def sampleWorld {γ : Type} (gnupg : γ) (files : Path → Option Bytes) : World γ Unit where
  gnupg := gnupg
  files := files
  store := {}
  audit :=
    { handle := { hashChain := false }
      disk := {}
      calls := fun _ => { ts := lit "2026-01-01T00:00:00Z", actor := lit "u" }
      locks := fun _ => none }
  faults _ := none
  random i := .ofNat i
  clock _ := ()
  buffers := []
  history := []

end GpgMeister
