/-
# The table of unlock slots, without other threads

What the operations do to the rows where no other thread runs: an addition that
returns has added one row, a deletion that returns has taken away the rows it
names, and an operation that raises has changed nothing.

The table grows by the slots of one key only (`Extended`), which additions for
that key and deletions of what they have added keep so.
-/
import GpgMeister.Storage.UnlockSlots

namespace GpgMeister
namespace MetadataStore

open Monitor Program

/-! ### Operations -/

section Calls

variable {γ Time α : Type}

/-- What holds at the end of an operation holds of the table after its run. -/
theorem meets_runSql {Q : Except Exc α → Connection → Prop} : ∀ {x : Sql α} {c : Connection} {w : World γ Time},
    x.Holds (fun _ => True) Q c → (runSql x c).Meets w
      (fun a w' => ∃ c' faults, Q (.ok a) c' ∧ w' = { w with store := c'.committed, faults := faults })
      fun e w' => ∃ c' faults, Q (.error e) c' ∧ w' = { w with store := c'.committed, faults := faults }
  | .done (.ok _), c, w, h => ⟨c, w.faults, h.2, rfl⟩
  | .done (.error _), c, w, h => ⟨c, w.faults, h.2, rfl⟩
  | .step _ _, c, w, h => by
    have ih := meets_runSql (w := { w with faults := fun n => w.faults (n + 1) }) (h.2 (w.faults 0))
    exact ih.mono (fun a w' h' => h') fun e w' h' => h'

theorem meets_call {x : Sql α} {Q : Except Exc α → MetadataStore → Prop} {w : World γ Time}
    (h : x.Holds (fun _ => True) (fun r c => Q r c.committed) ⟨w.store, w.store⟩) :
    (call x).Meets w (fun a w' => ∃ m faults, Q (.ok a) m ∧ w' = { w with store := m, faults := faults })
      fun e w' => ∃ m faults, Q (.error e) m ∧ w' = { w with store := m, faults := faults } := by
  rw [call, meets_bind, meets_get]
  refine (meets_runSql h).mono ?_ ?_
  · rintro a w' ⟨c, faults, hq, rfl⟩
    exact ⟨c.committed, faults, hq, rfl⟩
  · rintro e w' ⟨c, faults, hq, rfl⟩
    exact ⟨c.committed, faults, hq, rfl⟩

/-- An operation touches nothing but the table. -/
theorem keeps_call {τ : Type} {f : World γ Time → τ} (hstore : ∀ w m, f { w with store := m } = f w)
    (hfaults : ∀ w faults, f { w with faults := faults } = f w) (x : Sql α) : Keeps f (call x) := by
  have hrun : ∀ (x : Sql α) (c : Connection), Keeps f (runSql x c : Program (World γ Time) Exc α) := by
    intro x
    induction x with
    | done r => exact fun c => Keeps.bind (fun w => hstore w c.committed) fun _ => keeps_ofExcept r
    | step next set ih => exact fun c w => (ih (w.faults 0) c (set (w.faults 0) c) _).trans (hfaults w _)
  exact keeps_get.bind fun w => hrun x _

theorem ensures_call {x : Sql α} {s : Stores γ} {Q : α → Stores γ → Prop} {E : Exc → Stores γ → Prop}
    (h : x.Holds (fun _ => True) (fun r c => match r with
      | .ok a => Q a { s with store := c.committed }
      | .error e => E e { s with store := c.committed }) ⟨s.store, s.store⟩) :
    Ensures (call x : Program (World γ Time) Exc α) s Q E := by
  intro w hw
  subst hw
  have hcall := meets_call (w := w) (x := x) (Q := fun r m => match r with
    | .ok a => Q a { w.stores with store := m }
    | .error e => E e { w.stores with store := m }) h
  refine hcall.mono ?_ ?_
  · rintro a w' ⟨m, faults, hq, rfl⟩
    exact hq
  · rintro e w' ⟨m, faults, hq, rfl⟩
    exact hq

theorem ensures_addUnlockSlot (fpr : Str) (slot : KeyUnlockSlot) (s : Stores γ) :
    Ensures (call (addUnlockSlot fpr slot) : Program (World γ Time) Exc ℕ) s
      (fun id s' => id = s.store.nextSlotId ∧ s' = { s with store := (insertSlot fpr slot s.store).2 })
      fun _ s' => s' = s :=
  ensures_call (holds_addUnlockSlot trivial (fun _ => rfl) (fun _ => trivial) (fun _ => trivial) fun _ => ⟨rfl, rfl⟩)

theorem ensures_deleteUnlockSlot (slotId : ℤ) (s : Stores γ) :
    Ensures (call (deleteUnlockSlot slotId) : Program (World γ Time) Exc Unit) s
      (fun _ s' => s' = { s with store := s.store.deleteRows fun row => (row.id : ℤ) = slotId }) fun _ s' => s' = s :=
  ensures_call (holds_transaction_execute trivial trivial trivial rfl fun _ => rfl)

theorem ensures_deleteUnlockSlots (fingerprint : Str) (s : Stores γ) :
    Ensures (call (deleteUnlockSlots fingerprint) : Program (World γ Time) Exc Unit) s
      (fun _ s' => ∃ fpr, normaliseFingerprint fingerprint = some fpr ∧
        s' = { s with store := s.store.deleteRows fun row => row.fingerprint = fpr })
      fun _ s' => s' = s := by
  apply ensures_call
  unfold deleteUnlockSlots normalise
  cases hn : normaliseFingerprint fingerprint with
  | none => exact holds_transaction trivial (fun _ => rfl) ⟨trivial, rfl, nofun⟩
  | some fpr => exact holds_transaction_execute trivial trivial trivial ⟨fpr, rfl, rfl⟩ fun _ => rfl

end Calls

/-! ### Rows -/

/-- The rows have different numbers, and the next one is new. -/
structure Numbered (m : MetadataStore) : Prop where
  ids : m.unlockSlots.Pairwise fun a b => a.id < b.id
  fresh : ∀ row ∈ m.unlockSlots, row.id < m.nextSlotId

theorem numbered_empty : Numbered {} := ⟨.nil, nofun⟩

/-- The table has grown by rows of some slots of the key, if at all. -/
structure Extended (fpr : Str) (slots : List KeyUnlockSlot) (m m' : MetadataStore) : Prop where
  next : m.nextSlotId ≤ m'.nextSlotId
  rows : ∃ new, m'.unlockSlots = m.unlockSlots ++ new ∧ new.Pairwise (fun a b => a.id < b.id) ∧
    ∀ row ∈ new, m.nextSlotId ≤ row.id ∧ row.id < m'.nextSlotId ∧ ∃ slot ∈ slots, row = rowOf fpr (row.id, slot)

namespace Extended

variable {fpr : Str} {slots : List KeyUnlockSlot} {m m' : MetadataStore}

theorem refl (fpr : Str) (slots : List KeyUnlockSlot) (m : MetadataStore) : Extended fpr slots m m :=
  ⟨le_rfl, [], (List.append_nil _).symm, .nil, nofun⟩

theorem insert (h : Extended fpr slots m m') {slot : KeyUnlockSlot} (hslot : slot ∈ slots) :
    Extended fpr slots m (insertSlot fpr slot m').2 := by
  obtain ⟨hnext, new, hrows, hids, hnew⟩ := h
  refine ⟨Nat.le_succ_of_le hnext, new ++ [rowOf fpr (m'.nextSlotId, slot)], ?_, ?_, ?_⟩
  · change m'.unlockSlots ++ [_] = _
    rw [hrows, List.append_assoc]
    rfl
  · refine List.pairwise_append.mpr ⟨hids, List.pairwise_singleton _ _, fun a ha b hb => ?_⟩
    rw [List.mem_singleton.mp hb]
    exact (hnew a ha).2.1
  · intro row hrow
    rcases List.mem_append.mp hrow with hrow | hrow
    · obtain ⟨hle, hlt, hof⟩ := hnew row hrow
      exact ⟨hle, Nat.lt_succ_of_lt hlt, hof⟩
    · obtain rfl := List.mem_singleton.mp hrow
      exact ⟨hnext, Nat.lt_succ_self _, slot, hslot, rfl⟩

/-- A deletion of a row that was added. -/
theorem delete (h : Extended fpr slots m m') (hm : Numbered m) {id : ℕ} (hid : m.nextSlotId ≤ id) :
    Extended fpr slots m (m'.deleteRows fun row => (row.id : ℤ) = id) := by
  obtain ⟨hnext, new, hrows, hids, hnew⟩ := h
  refine ⟨hnext, new.filter fun row => ! decide ((row.id : ℤ) = id), ?_, hids.filter _, fun row hrow => ?_⟩
  · change (m'.unlockSlots.filter _) = _
    rw [hrows, List.filter_append]
    congr 1
    refine List.filter_eq_self.mpr fun row hrow => ?_
    have hlt := hm.fresh row hrow
    simp only [Bool.not_eq_true', decide_eq_false_iff_not]
    omega
  · exact hnew row (List.mem_of_mem_filter hrow)

theorem numbered (h : Extended fpr slots m m') (hm : Numbered m) : Numbered m' := by
  obtain ⟨hnext, new, hrows, hids, hnew⟩ := h
  refine ⟨?_, fun row hrow => ?_⟩
  · rw [hrows]
    exact List.pairwise_append.mpr ⟨hm.ids, hids, fun a ha b hb => (hm.fresh a ha).trans_le (hnew b hb).1⟩
  · rw [hrows] at hrow
    rcases List.mem_append.mp hrow with hrow | hrow
    · exact (hm.fresh row hrow).trans_le hnext
    · exact (hnew row hrow).2.1

/-- The slots of the other keys are as they were. -/
theorem rowsOf_eq (h : Extended fpr slots m m') {k : Str} (hk : k ≠ fpr) : m'.rowsOf k = m.rowsOf k := by
  obtain ⟨-, new, hrows, -, hnew⟩ := h
  have hnil : new.filter (·.fingerprint = k) = [] := by
    refine List.filter_eq_nil_iff.mpr fun row hrow => ?_
    obtain ⟨-, -, slot, -, hof⟩ := hnew row hrow
    rw [hof, decide_eq_true_eq]
    exact hk.symm
  unfold rowsOf
  rw [hrows, List.filter_append, hnil, List.append_nil]

end Extended

theorem Numbered.deleteRows {m : MetadataStore} (h : Numbered m) (p : UnlockSlotRow → Bool) : Numbered (m.deleteRows p) :=
  ⟨h.ids.filter _, fun row hrow => h.fresh row (List.mem_of_mem_filter hrow)⟩

/-! ### Slots -/

section Slots

variable {Time : Type} (pydantic : Pydantic Time) {m : MetadataStore} {fpr : Str}

/-- The slots that `unlock_slots` shows. -/
def slotsOf (m : MetadataStore) (fpr : Str) : List (ℕ × KeyUnlockSlot) := parseRows pydantic (m.selectSlots fpr)

theorem mem_selectSlots {row : UnlockSlotRow} :
    row ∈ m.selectSlots fpr ↔ row ∈ m.unlockSlots ∧ row.fingerprint = fpr := by
  unfold selectSlots
  rw [List.mem_insertionSort, List.mem_filter, decide_eq_true_eq]

theorem mem_slotsOf {id : ℕ} {slot : KeyUnlockSlot} : (id, slot) ∈ slotsOf pydantic m fpr ↔
    ∃ row ∈ m.unlockSlots, row.fingerprint = fpr ∧ row.id = id ∧
      KeyUnlockSlot.modelValidateJson pydantic row.slotJson = some slot := by
  unfold slotsOf parseRows
  simp only [List.mem_filterMap, Option.map_eq_some_iff, Prod.mk.injEq, mem_selectSlots]
  constructor
  · rintro ⟨row, ⟨hrow, hfpr⟩, slot', hparse, hid, rfl⟩
    exact ⟨row, hrow, hfpr, hid, hparse⟩
  · rintro ⟨row, hrow, hfpr, hid, hparse⟩
    exact ⟨row, ⟨hrow, hfpr⟩, slot, hparse, hid, rfl⟩

theorem ensures_unlockSlotsOf {γ : Type} (fpr : Str) (s : Stores γ) :
    Ensures (call (unlockSlotsOf pydantic fpr) : Program (World γ Time) Exc _) s
      (fun stored s' => stored = slotsOf pydantic s.store fpr ∧ s' = s) fun _ s' => s' = s :=
  ensures_call (Steps.Holds.bind (holds_execute trivial trivial ⟨trivial, rfl, rfl⟩ fun _ => rfl))

/-- The row of a slot shows the slot. -/
theorem mem_slotsOf_of_row {id : ℕ} {slot : KeyUnlockSlot} (h : rowOf fpr (id, slot) ∈ m.unlockSlots) :
    (id, slot) ∈ slotsOf pydantic m fpr :=
  (mem_slotsOf pydantic).mpr ⟨_, h, rfl, rfl, slot.modelValidateJson_modelDumpJson pydantic⟩

end Slots

end MetadataStore
end GpgMeister
