/-
# The metadata store

The table of unlock slots in `storage/metadata_store.py`. Every operation runs
under the lock of the store, and each statement of it is one step, which SQLite
may refuse; what a transaction writes is in the table of its connection at
once, and in the database once it is committed.

`MetadataStore.call` runs an operation where no other thread does.
-/
import GpgMeister.Lib.Monitor
import GpgMeister.Models.KeyUnlock
import GpgMeister.World

namespace GpgMeister

/-- The connection: what has been committed, and what its statements see. -/
structure Connection where
  committed : MetadataStore
  working : MetadataStore

/-- Statements; the input of one is the error of SQLite, if there is one. -/
abbrev Sql (α : Type) := Monitor.Steps Connection (Option Exc) Exc α

namespace MetadataStore

open Monitor

/-! ### Statements -/

section Statements

variable {α : Type}

/-- `conn.execute(…)` -/
def execute (f : MetadataStore → α × MetadataStore) : Sql α :=
  Steps.atomic fun fault c =>
    match fault with
    | some e => (.error e, c)
    | none => (.ok (f c.working).1, { c with working := (f c.working).2 })

/-- A commit that fails is rolled back. -/
def commit : Sql Unit :=
  Steps.atomic fun fault c =>
    match fault with
    | some e => (.error e, { c with working := c.committed })
    | none => (.ok (), { c with committed := c.working })

def rollback : Sql Unit := Steps.atomic fun _ c => (.ok (), { c with working := c.committed })

/-- `with self._conn` -/
def transaction (body : Sql α) : Sql α :=
  body.andThen fun
    | .ok a => do
      commit
      return a
    | .error e => do
      rollback
      Steps.raise e

end Statements

/-- `SELECT COUNT(*) … WHERE fingerprint = ?` -/
def countSlots (m : MetadataStore) (fpr : Str) : ℕ := (m.unlockSlots.filter (·.fingerprint = fpr)).length

/-- `INSERT INTO key_unlock_slot …`, with the row id -/
def insertSlot (fpr : Str) (slot : KeyUnlockSlot) (m : MetadataStore) : ℕ × MetadataStore :=
  (m.nextSlotId,
    { m with
      unlockSlots :=
        m.unlockSlots ++
          [{ id := m.nextSlotId, fingerprint := fpr, slotType := slot.type.value, slotJson := slot.modelDumpJson }]
      nextSlotId := m.nextSlotId + 1 })

/-- `SELECT … WHERE fingerprint = ? ORDER BY id` -/
def selectSlots (m : MetadataStore) (fpr : Str) : List UnlockSlotRow :=
  (m.unlockSlots.filter (·.fingerprint = fpr)).insertionSort fun a b => a.id ≤ b.id

/-- `DELETE FROM key_unlock_slot WHERE …` -/
def deleteRows (p : UnlockSlotRow → Bool) (m : MetadataStore) : MetadataStore :=
  { m with unlockSlots := m.unlockSlots.filter fun row => ! p row }

/-! ### Operations -/

/-- `normalise_fingerprint` -/
def normalise (fingerprint : Str) : Except Exc Str :=
  match normaliseFingerprint fingerprint with
  | some fpr => .ok fpr
  | none => .error { cls := .valueError, message := lit "fingerprint must be 40 uppercase hex characters" }

def tooManySlots : Exc where
  cls := .metadataStoreError
  message := lit "a key cannot have more than " ++ Json.decimal maxKeyUnlockSlots ++ lit " unlock methods"

/-- `add_unlock_slot`, under the lock -/
def addUnlockSlot (fpr : Str) (slot : KeyUnlockSlot) : Sql ℕ :=
  transaction do
    let existing ← execute fun m => (m.countSlots fpr, m)
    if maxKeyUnlockSlots ≤ existing then Steps.raise tooManySlots else execute (insertSlot fpr slot)

/-- `delete_unlock_slot` -/
def deleteUnlockSlot (slotId : ℤ) : Sql Unit :=
  transaction (execute fun m => ((), m.deleteRows fun row => (row.id : ℤ) = slotId))

/-- `delete_unlock_slots`, which looks at the fingerprint in the transaction -/
def deleteUnlockSlots (fingerprint : Str) : Sql Unit :=
  transaction
    (match normalise fingerprint with
    | .ok fpr => execute fun m => ((), m.deleteRows fun row => row.fingerprint = fpr)
    | .error e => Steps.raise e)

/-- `has_unlock_slots`, which looks at the fingerprint under the lock -/
def hasUnlockSlots (fingerprint : Str) : Sql Bool :=
  match normalise fingerprint with
  | .ok fpr => execute fun m => (m.unlockSlots.any (·.fingerprint = fpr), m)
  | .error e => Steps.raise e

section Parse

variable {Time : Type} (pydantic : Pydantic Time)

/-- The slots of rows; a row that is no slot is skipped. -/
def parseRows (rows : List UnlockSlotRow) : List (ℕ × KeyUnlockSlot) :=
  rows.filterMap fun row => (KeyUnlockSlot.modelValidateJson pydantic row.slotJson).map fun slot => (row.id, slot)

/-- `unlock_slots`, from the lock on -/
def unlockSlotsOf (fpr : Str) : Sql (List (ℕ × KeyUnlockSlot)) := do
  let rows ← execute fun m => (m.selectSlots fpr, m)
  return parseRows pydantic rows

/-- The operations. -/
inductive Op
  | addUnlockSlot (fingerprint : Str) (slot : KeyUnlockSlot)
  | unlockSlots (fingerprint : Str)
  | hasUnlockSlots (fingerprint : Str)
  | deleteUnlockSlot (slotId : ℤ)
  | deleteUnlockSlots (fingerprint : Str)

/-- What they return. -/
inductive Answer
  | slotId (id : ℕ)
  | slots (slots : List (ℕ × KeyUnlockSlot))
  | present (any : Bool)
  | none
  deriving DecidableEq

/-- What an operation does before it waits for the lock, and then under it. -/
def enter : Op → Except Exc (Sql Answer)
  | .addUnlockSlot fingerprint slot => do
    let fpr ← normalise fingerprint
    return do return .slotId (← addUnlockSlot fpr slot)
  | .unlockSlots fingerprint => do
    let fpr ← normalise fingerprint
    return do return .slots (← unlockSlotsOf pydantic fpr)
  | .hasUnlockSlots fingerprint => .ok do return .present (← hasUnlockSlots fingerprint)
  | .deleteUnlockSlot slotId => .ok do
    deleteUnlockSlot slotId
    return .none
  | .deleteUnlockSlots fingerprint => .ok do
    deleteUnlockSlots fingerprint
    return .none

/-- The store of a new installation. -/
def object : Object Connection (Option Exc) Exc Op Answer where
  init := { committed := {}, working := {} }
  enter := enter pydantic

end Parse

/-! ### Without other threads -/

section Programs

variable {γ Time α : Type}

/-- The statements one after the other. -/
def runSql : Sql α → Connection → Program (World γ Time) Exc α
  | .done r, c => do
    modify fun w => { w with store := c.committed }
    Program.ofExcept r
  | .step next set, c => fun w =>
    (runSql (next (w.faults 0) c) (set (w.faults 0) c)).run { w with faults := fun n => w.faults (n + 1) }

/-- An operation under the lock. -/
def call (x : Sql α) : Program (World γ Time) Exc α := do
  let w ← get
  runSql x { committed := w.store, working := w.store }

end Programs

end MetadataStore
end GpgMeister
