/-
# The unlock slots of a key

What the threads of the process see of the table of unlock slots is a list for
every key: an addition that returns appends to it, a deletion takes away from
it, and nothing else changes it (`live`, over the log of the operations).

* `keptLists`: in every interleaving, `unlock_slots` returns that list, no key
  has more than eight slots, a refused operation changes nothing, and no
  operation touches the slots of another key.
-/
import GpgMeister.Storage.MetadataStore

namespace GpgMeister
namespace MetadataStore

open Monitor

variable {τ Time : Type}

/-! ### Lists of slots -/

/-- What an operation that has ended makes of the slots of a key. -/
def slotsAfter (fpr : Str) (slots : List (ℕ × KeyUnlockSlot)) (e : Entry Exc Op Answer τ) :
    List (ℕ × KeyUnlockSlot) :=
  match e.op, e.result with
  | .addUnlockSlot fingerprint slot, .ok (.slotId id) =>
    if normaliseFingerprint fingerprint = some fpr then slots ++ [(id, slot)] else slots
  | .deleteUnlockSlot slotId, .ok _ => slots.filter fun s => ! ((s.1 : ℤ) = slotId)
  | .deleteUnlockSlots fingerprint, .ok _ => if normaliseFingerprint fingerprint = some fpr then [] else slots
  | _, _ => slots

/-- The slots that have been added for a key and not deleted, the oldest first. -/
def live (fpr : Str) (log : List (Entry Exc Op Answer τ)) : List (ℕ × KeyUnlockSlot) :=
  log.foldl (slotsAfter fpr) []

theorem live_concat (fpr : Str) (log : List (Entry Exc Op Answer τ)) (e : Entry Exc Op Answer τ) :
    live fpr (log ++ [e]) = slotsAfter fpr (live fpr log) e := by
  rw [live, List.foldl_append]
  rfl

/-- The operation has added the slot for the key. -/
def Adds (fpr : Str) (s : ℕ × KeyUnlockSlot) (e : Entry Exc Op Answer τ) : Prop :=
  ∃ thread fingerprint, normaliseFingerprint fingerprint = some fpr ∧
    e = ⟨thread, .addUnlockSlot fingerprint s.2, .ok (.slotId s.1)⟩

/-- The operation has deleted the slot, or all slots of the key. -/
def Deletes (fpr : Str) (s : ℕ × KeyUnlockSlot) (e : Entry Exc Op Answer τ) : Prop :=
  ∃ thread answer, e = ⟨thread, .deleteUnlockSlot s.1, .ok answer⟩ ∨
    ∃ fingerprint, normaliseFingerprint fingerprint = some fpr ∧
      e = ⟨thread, .deleteUnlockSlots fingerprint, .ok answer⟩

theorem mem_slotsAfter {fpr : Str} {slots : List (ℕ × KeyUnlockSlot)} {e : Entry Exc Op Answer τ}
    {s : ℕ × KeyUnlockSlot} : s ∈ slotsAfter fpr slots e ↔ Adds fpr s e ∨ s ∈ slots ∧ ¬ Deletes fpr s e := by
  obtain ⟨thread, op, result⟩ := e
  unfold slotsAfter Adds Deletes
  cases op with
  | addUnlockSlot fingerprint slot =>
    rcases result with e | (id | l | b | _)
    · simp
    · by_cases h : normaliseFingerprint fingerprint = some fpr
      · simp [h, Prod.ext_iff, or_comm, eq_comm, @and_comm (slot = s.2)]
      · simp [h]
    · simp
    · simp
    · simp
  | unlockSlots fingerprint => simp
  | hasUnlockSlots fingerprint => simp
  | deleteUnlockSlot slotId =>
    cases result with
    | error e => simp
    | ok answer =>
      have hdeletes : (∃ t a, (⟨thread, .deleteUnlockSlot slotId, .ok answer⟩ : Entry Exc Op Answer τ) =
            ⟨t, .deleteUnlockSlot s.1, .ok a⟩ ∨ ∃ fingerprint, normaliseFingerprint fingerprint = some fpr ∧
              (⟨thread, .deleteUnlockSlot slotId, .ok answer⟩ : Entry Exc Op Answer τ) =
                ⟨t, .deleteUnlockSlots fingerprint, .ok a⟩) ↔ slotId = s.1 := by
        simp
      rw [hdeletes]
      simp [@eq_comm ℤ slotId]
  | deleteUnlockSlots fingerprint =>
    cases result with
    | error e => simp
    | ok answer =>
      by_cases h : normaliseFingerprint fingerprint = some fpr <;> simp [h]

/-- The slots in the list are those that were added and have not been deleted since. -/
theorem mem_live {fpr : Str} {s : ℕ × KeyUnlockSlot} {log : List (Entry Exc Op Answer τ)} :
    s ∈ live fpr log ↔ ∃ before e after, log = before ++ e :: after ∧ Adds fpr s e ∧ ∀ d ∈ after, ¬ Deletes fpr s d := by
  induction log using List.reverseRecOn with
  | nil => simp [live]
  | append_singleton log e ih =>
    rw [live_concat, mem_slotsAfter, ih]
    constructor
    · rintro (hadd | ⟨⟨before, e', after, rfl, hadd, hkept⟩, hkeep⟩)
      · exact ⟨log, e, [], rfl, hadd, nofun⟩
      · refine ⟨before, e', after ++ [e], by simp, hadd, fun d hd => ?_⟩
        rcases List.mem_append.mp hd with hd | hd
        · exact hkept d hd
        · rwa [List.mem_singleton.mp hd]
    · rintro ⟨before, e', after, hlog, hadd, hkept⟩
      rcases List.eq_nil_or_concat after with rfl | ⟨after', x, rfl⟩
      · obtain ⟨-, hx⟩ := List.append_inj' hlog rfl
        obtain rfl := (List.cons.inj hx).1
        exact .inl hadd
      · rw [List.concat_eq_append, ← List.cons_append, ← List.append_assoc] at hlog
        obtain ⟨rfl, hx⟩ := List.append_inj' hlog rfl
        obtain rfl := (List.cons.inj hx).1
        refine .inr ⟨⟨before, e', after', rfl, hadd, fun d hd => hkept d (by simp [hd])⟩, hkept e (by simp)⟩

/-- The rows of a key. -/
def rowsOf (m : MetadataStore) (fpr : Str) : List UnlockSlotRow := m.unlockSlots.filter (·.fingerprint = fpr)

/-- The row of a slot. -/
def rowOf (fpr : Str) (s : ℕ × KeyUnlockSlot) : UnlockSlotRow where
  id := s.1
  fingerprint := fpr
  slotType := s.2.type.value
  slotJson := s.2.modelDumpJson

/-- The table holds what the log tells. -/
structure Shows (log : List (Entry Exc Op Answer τ)) (m : MetadataStore) : Prop where
  rows : ∀ fpr, m.rowsOf fpr = (live fpr log).map (rowOf fpr)
  ids : m.unlockSlots.Pairwise fun a b => a.id < b.id
  fresh : ∀ row ∈ m.unlockSlots, row.id < m.nextSlotId
  bound : ∀ fpr, (m.rowsOf fpr).length ≤ maxKeyUnlockSlots

/-! ### Statements and transactions -/

section Statements

variable {α : Type} {P : Connection → Prop} {Q : Except Exc α → Connection → Prop} {m : MetadataStore}

theorem holds_execute {f : MetadataStore → α × MetadataStore} {c : Connection} (hP : P c)
    (hset : P { c with working := (f c.working).2 }) (hok : Q (.ok (f c.working).1) { c with working := (f c.working).2 })
    (herr : ∀ e, Q (.error e) c) : (execute f).Holds P Q c := by
  refine Steps.holds_atomic.mpr ⟨hP, fun fault => ?_⟩
  cases fault with
  | none => exact ⟨hset, hok⟩
  | some e => exact ⟨hP, herr e⟩

/-- A transaction either has written everything, or nothing. -/
theorem holds_transaction {body : Sql α} (hP : P ⟨m, m⟩) (herr : ∀ e, Q (.error e) ⟨m, m⟩)
    (h : body.Holds P (fun r c => c.committed = m ∧
      ∀ a, r = .ok a → P ⟨c.working, c.working⟩ ∧ Q (.ok a) ⟨c.working, c.working⟩) ⟨m, m⟩) :
    (transaction body).Holds P Q ⟨m, m⟩ := by
  refine Steps.Holds.andThen (h.at_end.mono (fun _ hc => hc) ?_)
  rintro r ⟨committed, working⟩ ⟨hhere, hm, hr⟩
  obtain rfl : committed = m := hm
  cases r with
  | ok a =>
    obtain ⟨hP', hQ'⟩ := hr a rfl
    refine Steps.Holds.bind (Steps.holds_atomic.mpr ⟨hhere, fun fault => ?_⟩)
    cases fault with
    | none => exact ⟨hP', hP', hQ'⟩
    | some e => exact ⟨hP, herr e⟩
  | error e => exact Steps.Holds.bind (Steps.holds_atomic.mpr ⟨hhere, fun _ => ⟨hP, hP, herr e⟩⟩)

theorem holds_transaction_execute {f : MetadataStore → α × MetadataStore} (hP : P ⟨m, m⟩) (hset : P ⟨m, (f m).2⟩)
    (hcommit : P ⟨(f m).2, (f m).2⟩) (hok : Q (.ok (f m).1) ⟨(f m).2, (f m).2⟩) (herr : ∀ e, Q (.error e) ⟨m, m⟩) :
    (transaction (execute f)).Holds P Q ⟨m, m⟩ := by
  refine holds_transaction hP herr (holds_execute hP hset ⟨rfl, fun a ha => ?_⟩ fun e => ⟨rfl, nofun⟩)
  obtain rfl := Except.ok.inj ha
  exact ⟨hcommit, hok⟩

theorem holds_addUnlockSlot {Q : Except Exc ℕ → Connection → Prop} {fpr : Str} {slot : KeyUnlockSlot}
    (hP : P ⟨m, m⟩) (herr : ∀ e, Q (.error e) ⟨m, m⟩)
    (hset : m.countSlots fpr < maxKeyUnlockSlots → P ⟨m, (insertSlot fpr slot m).2⟩)
    (hcommit : m.countSlots fpr < maxKeyUnlockSlots → P ⟨(insertSlot fpr slot m).2, (insertSlot fpr slot m).2⟩)
    (hok : m.countSlots fpr < maxKeyUnlockSlots →
      Q (.ok m.nextSlotId) ⟨(insertSlot fpr slot m).2, (insertSlot fpr slot m).2⟩) :
    (addUnlockSlot fpr slot).Holds P Q ⟨m, m⟩ := by
  refine holds_transaction hP herr (Steps.Holds.bind (holds_execute hP hP ?_ fun e => ⟨rfl, nofun⟩))
  dsimp only
  by_cases hfull : maxKeyUnlockSlots ≤ m.countSlots fpr
  · rw [if_pos hfull]
    exact ⟨hP, rfl, nofun⟩
  · rw [if_neg hfull]
    have hlt := not_le.mp hfull
    refine holds_execute hP (hset hlt) ⟨rfl, fun a ha => ?_⟩ fun e => ⟨rfl, nofun⟩
    obtain rfl := Except.ok.inj ha
    exact ⟨hcommit hlt, hok hlt⟩

end Statements

/-! ### Rows -/

section Rows

variable {m : MetadataStore} {log : List (Entry Exc Op Answer τ)} {fpr : Str}

theorem shows_nil : Shows ([] : List (Entry Exc Op Answer τ)) {} where
  rows _ := rfl
  ids := .nil
  fresh := nofun
  bound _ := Nat.zero_le _

/-- An operation that leaves the lists as they are, and the table too. -/
theorem Shows.same (h : Shows log m) {e : Entry Exc Op Answer τ} (he : ∀ fpr l, slotsAfter fpr l e = l) :
    Shows (log ++ [e]) m where
  rows fpr := by rw [live_concat, he, h.rows fpr]
  ids := h.ids
  fresh := h.fresh
  bound := h.bound

theorem rowsOf_insertSlot (m : MetadataStore) (fpr : Str) (slot : KeyUnlockSlot) (g : Str) :
    (insertSlot fpr slot m).2.rowsOf g =
      if fpr = g then m.rowsOf g ++ [rowOf g (m.nextSlotId, slot)] else m.rowsOf g := by
  unfold insertSlot rowsOf
  dsimp only
  rw [List.filter_append]
  by_cases hg : fpr = g
  · subst hg
    rw [if_pos rfl, List.filter_singleton, decide_eq_true rfl]
    rfl
  · rw [if_neg hg, List.filter_singleton, decide_eq_false hg]
    exact List.append_nil _

theorem bound_insertSlot (h : ∀ g, (m.rowsOf g).length ≤ maxKeyUnlockSlots)
    (hlt : m.countSlots fpr < maxKeyUnlockSlots) (slot : KeyUnlockSlot) (g : Str) :
    ((insertSlot fpr slot m).2.rowsOf g).length ≤ maxKeyUnlockSlots := by
  have hcount : (m.rowsOf fpr).length < maxKeyUnlockSlots := hlt
  rw [rowsOf_insertSlot]
  split_ifs with he
  · subst he
    rw [List.length_append, List.length_singleton]
    omega
  · exact h g

theorem Shows.insert (h : Shows log m) {fingerprint : Str} (hfp : normaliseFingerprint fingerprint = some fpr)
    (hlt : m.countSlots fpr < maxKeyUnlockSlots) (slot : KeyUnlockSlot) (thread : τ) :
    Shows (log ++ [⟨thread, .addUnlockSlot fingerprint slot, .ok (.slotId m.nextSlotId)⟩])
      (insertSlot fpr slot m).2 where
  rows g := by
    have hafter : slotsAfter g (live g log)
        (⟨thread, .addUnlockSlot fingerprint slot, .ok (.slotId m.nextSlotId)⟩ : Entry Exc Op Answer τ) =
        if fpr = g then live g log ++ [(m.nextSlotId, slot)] else live g log := by
      simp only [slotsAfter, hfp, Option.some.injEq]
    rw [live_concat, hafter, rowsOf_insertSlot, h.rows g]
    split_ifs
    · rw [List.map_append, List.map_singleton]
    · rfl
  ids := by
    refine List.pairwise_append.mpr ⟨h.ids, List.pairwise_singleton _ _, fun a ha b hb => ?_⟩
    rw [List.mem_singleton.mp hb]
    exact h.fresh a ha
  fresh row hrow := by
    rcases List.mem_append.mp hrow with hrow | hrow
    · exact Nat.lt_succ_of_lt (h.fresh row hrow)
    · rw [List.mem_singleton.mp hrow]
      exact Nat.lt_succ_self _
  bound := bound_insertSlot h.bound hlt slot

theorem rowsOf_deleteRows (m : MetadataStore) (p : UnlockSlotRow → Bool) (g : Str) :
    (m.deleteRows p).rowsOf g = (m.rowsOf g).filter fun row => ! p row := by
  unfold deleteRows rowsOf
  dsimp only
  rw [List.filter_filter, List.filter_filter]
  exact List.filter_congr fun _ _ => Bool.and_comm _ _

theorem Shows.delete (h : Shows log m) {p : UnlockSlotRow → Bool} {e : Entry Exc Op Answer τ}
    (he : ∀ fpr l, slotsAfter fpr l e = l.filter fun s => ! p (rowOf fpr s)) : Shows (log ++ [e]) (m.deleteRows p) where
  rows g := by rw [live_concat, he, rowsOf_deleteRows, h.rows g, List.filter_map]; rfl
  ids := h.ids.filter _
  fresh row hrow := h.fresh row (List.mem_of_mem_filter hrow)
  bound g := by
    rw [rowsOf_deleteRows]
    exact (List.length_filter_le _ _).trans (h.bound g)

/-- The rows of a key are selected in the order of the list. -/
theorem Shows.selectSlots_eq (h : Shows log m) : m.selectSlots fpr = (live fpr log).map (rowOf fpr) := by
  rw [← h.rows fpr]
  exact List.Pairwise.insertionSort_eq ((h.ids.filter _).imp fun hab => hab.le)

theorem parseRows_map (pydantic : Pydantic Time) (fpr : Str) (slots : List (ℕ × KeyUnlockSlot)) :
    parseRows pydantic (slots.map (rowOf fpr)) = slots := by
  rw [parseRows, List.filterMap_map]
  refine (List.filterMap_congr fun s _ => ?_).trans List.filterMap_some
  show (KeyUnlockSlot.modelValidateJson pydantic s.2.modelDumpJson).map _ = _
  rw [KeyUnlockSlot.modelValidateJson_modelDumpJson]
  rfl

end Rows

/-! ### What operations keep -/

/-- The keys whose slots an operation is about. -/
def Op.touches (m : MetadataStore) : Op → Str → Prop
  | .addUnlockSlot fingerprint _, fpr => normaliseFingerprint fingerprint = some fpr
  | .deleteUnlockSlot slotId, fpr => ∃ row ∈ m.unlockSlots, (row.id : ℤ) = slotId ∧ row.fingerprint = fpr
  | .deleteUnlockSlots fingerprint, fpr => normaliseFingerprint fingerprint = some fpr
  | .unlockSlots _, _ => False
  | .hasUnlockSlots _, _ => False

/-- What a look at the slots has returned is what the log tells before. -/
def AnsweredBy (before : List (Entry Exc Op Answer τ)) (e : Entry Exc Op Answer τ) : Prop :=
  match e.op, e.result with
  | .unlockSlots fingerprint, .ok answer =>
    ∃ fpr, normaliseFingerprint fingerprint = some fpr ∧ answer = .slots (live fpr before)
  | .hasUnlockSlots fingerprint, .ok answer =>
    ∃ fpr, normaliseFingerprint fingerprint = some fpr ∧ answer = .present (live fpr before ≠ [])
  | _, _ => True

def Answered (log : List (Entry Exc Op Answer τ)) : Prop :=
  ∀ before e after, log = before ++ e :: after → AnsweredBy before e

theorem Answered.concat {log : List (Entry Exc Op Answer τ)} {e : Entry Exc Op Answer τ} (h : Answered log)
    (he : AnsweredBy log e) : Answered (log ++ [e]) := by
  intro before e' after hlog
  rcases List.eq_nil_or_concat after with rfl | ⟨after', x, rfl⟩
  · obtain ⟨rfl, hx⟩ := List.append_inj' hlog rfl
    obtain rfl := (List.cons.inj hx).1
    exact he
  · rw [List.concat_eq_append, ← List.cons_append, ← List.append_assoc] at hlog
    exact h before e' after' (List.append_inj' hlog rfl).1

/-- Between two operations. -/
structure Between (log : List (Entry Exc Op Answer τ)) (c : Connection) : Prop where
  clean : c.working = c.committed
  shows : Shows log c.committed
  answered : Answered log

/-- While an operation runs: the bound holds, and the other keys keep their
slots. -/
structure While (op : Op) (before now : Connection) : Prop where
  bound : ∀ fpr, (now.committed.rowsOf fpr).length ≤ maxKeyUnlockSlots ∧
    (now.working.rowsOf fpr).length ≤ maxKeyUnlockSlots
  others : ∀ fpr, ¬ op.touches before.committed fpr → now.committed.rowsOf fpr = before.committed.rowsOf fpr ∧
    now.working.rowsOf fpr = before.committed.rowsOf fpr

/-- A refused operation changes nothing. -/
def RefusedSafely (_ : Op) (before : Connection) (result : Except Exc Answer) (after : Connection) : Prop :=
  ∀ e, result = .error e → after = before

section Operations

variable {log : List (Entry Exc Op Answer τ)} {m m' : MetadataStore} {op : Op}

/-- Tables that both keep the bound, and that differ in the rows of one key only. -/
theorem While.of_rows {committed working : MetadataStore} (hc : ∀ fpr, (committed.rowsOf fpr).length ≤ maxKeyUnlockSlots)
    (hw : ∀ fpr, (working.rowsOf fpr).length ≤ maxKeyUnlockSlots)
    (h : ∀ fpr, ¬ op.touches m fpr → committed.rowsOf fpr = m.rowsOf fpr ∧ working.rowsOf fpr = m.rowsOf fpr) :
    While op ⟨m, m⟩ ⟨committed, working⟩ := ⟨fun fpr => ⟨hc fpr, hw fpr⟩, h⟩

theorem While.same (h : Shows log m) : While op ⟨m, m⟩ ⟨m, m⟩ := .of_rows h.bound h.bound fun _ _ => ⟨rfl, rfl⟩

/-- The end of an operation that was refused. -/
theorem ends_error (h : Between log ⟨m, m⟩) (e : Exc) :
    Object.Ends Between RefusedSafely log op ⟨m, m⟩ (.error e) ⟨m, m⟩ := by
  refine ⟨fun _ _ => rfl, fun thread => ⟨rfl, h.shows.same fun fpr l => ?_, h.answered.concat ?_⟩⟩
  · cases op <;> rfl
  · cases op <;> trivial

/-- The end of an operation that was carried out. -/
theorem ends_ok (h : Between log ⟨m, m⟩) {answer : Answer}
    (hshows : ∀ thread, Shows (log ++ [⟨thread, op, .ok answer⟩]) m')
    (hanswer : ∀ thread, AnsweredBy log (⟨thread, op, .ok answer⟩ : Entry Exc Op Answer τ)) :
    Object.Ends Between RefusedSafely log op ⟨m, m⟩ (.ok answer) ⟨m', m'⟩ :=
  ⟨nofun, fun thread => ⟨rfl, hshows thread, h.answered.concat (hanswer thread)⟩⟩

/-- A transaction of one statement that takes rows away. -/
theorem holds_delete (h : Between log ⟨m, m⟩) {p : UnlockSlotRow → Bool}
    (hlist : ∀ (thread : τ) fpr l,
      slotsAfter fpr l (⟨thread, op, .ok .none⟩ : Entry Exc Op Answer τ) = l.filter fun s => ! p (rowOf fpr s))
    (hanswer : ∀ thread, AnsweredBy log (⟨thread, op, .ok .none⟩ : Entry Exc Op Answer τ))
    (hothers : ∀ fpr, ¬ op.touches m fpr → (m.deleteRows p).rowsOf fpr = m.rowsOf fpr) :
    (do transaction (execute fun m => ((), m.deleteRows p)); return Answer.none : Sql Answer).Holds
      (While op ⟨m, m⟩) (Object.Ends Between RefusedSafely log op ⟨m, m⟩) ⟨m, m⟩ := by
  have hbound : ∀ fpr, ((m.deleteRows p).rowsOf fpr).length ≤ maxKeyUnlockSlots := fun fpr => by
    rw [rowsOf_deleteRows]
    exact (List.length_filter_le _ _).trans (h.shows.bound fpr)
  have hcommit : While op ⟨m, m⟩ ⟨m.deleteRows p, m.deleteRows p⟩ :=
    .of_rows hbound hbound fun fpr hn => ⟨hothers fpr hn, hothers fpr hn⟩
  apply Steps.Holds.bind
  apply holds_transaction_execute (While.same h.shows)
  · exact .of_rows h.shows.bound hbound fun fpr hn => ⟨rfl, hothers fpr hn⟩
  · exact hcommit
  · exact ⟨hcommit, ends_ok h (fun thread => h.shows.delete (hlist thread)) hanswer⟩
  · exact ends_error h

theorem normalise_eq_ok {fingerprint fpr : Str} :
    normalise fingerprint = .ok fpr ↔ normaliseFingerprint fingerprint = some fpr := by
  unfold normalise
  cases normaliseFingerprint fingerprint <;> simp

theorem holds_add (h : Between log ⟨m, m⟩) {fingerprint fpr : Str} (hfp : normaliseFingerprint fingerprint = some fpr)
    (slot : KeyUnlockSlot) :
    (do return Answer.slotId (← addUnlockSlot fpr slot) : Sql Answer).Holds
      (While (.addUnlockSlot fingerprint slot) ⟨m, m⟩)
      (Object.Ends Between RefusedSafely log (.addUnlockSlot fingerprint slot) ⟨m, m⟩) ⟨m, m⟩ := by
  have hothers : ∀ g, ¬ Op.touches m (.addUnlockSlot fingerprint slot) g →
      (insertSlot fpr slot m).2.rowsOf g = m.rowsOf g := fun g hn => by
    rw [rowsOf_insertSlot, if_neg fun he => hn (hfp.trans (congrArg some he))]
  have hbound (hlt : m.countSlots fpr < maxKeyUnlockSlots) := bound_insertSlot h.shows.bound hlt slot
  have hcommit (hlt : m.countSlots fpr < maxKeyUnlockSlots) :
      While (.addUnlockSlot fingerprint slot) ⟨m, m⟩ ⟨(insertSlot fpr slot m).2, (insertSlot fpr slot m).2⟩ :=
    .of_rows (hbound hlt) (hbound hlt) fun g hn => ⟨hothers g hn, hothers g hn⟩
  apply Steps.Holds.bind
  apply holds_addUnlockSlot (While.same h.shows) (ends_error h)
  · exact fun hlt => .of_rows h.shows.bound (hbound hlt) fun g hn => ⟨rfl, hothers g hn⟩
  · exact hcommit
  · exact fun hlt => ⟨hcommit hlt, ends_ok h (h.shows.insert hfp hlt slot) fun _ => trivial⟩

/-- The end of an operation that has only looked at the table. -/
theorem ends_look (h : Between log ⟨m, m⟩) {answer : Answer}
    (hlist : ∀ (thread : τ) fpr l, slotsAfter fpr l (⟨thread, op, .ok answer⟩ : Entry Exc Op Answer τ) = l)
    (hanswer : ∀ thread, AnsweredBy log (⟨thread, op, .ok answer⟩ : Entry Exc Op Answer τ)) :
    While op ⟨m, m⟩ ⟨m, m⟩ ∧ Object.Ends Between RefusedSafely log op ⟨m, m⟩ (.ok answer) ⟨m, m⟩ :=
  ⟨.same h.shows, ends_ok h (fun thread => h.shows.same (hlist thread)) hanswer⟩

theorem Shows.any_iff (h : Shows log m) (fpr : Str) :
    m.unlockSlots.any (·.fingerprint = fpr) = decide (live fpr log ≠ []) := by
  have hrows : m.rowsOf fpr = [] ↔ live fpr log = [] := by rw [h.rows fpr, List.map_eq_nil_iff]
  rw [rowsOf, List.filter_eq_nil_iff] at hrows
  rw [Bool.eq_iff_iff, decide_eq_true_eq, ne_eq, ← hrows, List.any_eq_true]
  push Not
  exact Iff.rfl

variable (pydantic : Pydantic Time)

/-- What every operation keeps. -/
theorem holds_enter (h : Between log ⟨m, m⟩) : ∀ (op : Op) {body : Sql Answer}, enter pydantic op = .ok body →
    body.Holds (While op ⟨m, m⟩) (Object.Ends Between RefusedSafely log op ⟨m, m⟩) ⟨m, m⟩
  | .addUnlockSlot fingerprint slot, body, henter => by
    unfold enter at henter
    dsimp only at henter
    cases hfp : normalise fingerprint with
    | error e => simp [hfp, bind, Except.bind] at henter
    | ok fpr =>
      rw [hfp] at henter
      obtain rfl := Except.ok.inj henter
      exact holds_add h (normalise_eq_ok.mp hfp) slot
  | .unlockSlots fingerprint, body, henter => by
    unfold enter at henter
    dsimp only at henter
    cases hfp : normalise fingerprint with
    | error e => simp [hfp, bind, Except.bind] at henter
    | ok fpr =>
      rw [hfp] at henter
      obtain rfl := Except.ok.inj henter
      have hsame : While (.unlockSlots fingerprint) ⟨m, m⟩ ⟨m, m⟩ := .same h.shows
      apply Steps.Holds.bind
      apply Steps.Holds.bind
      refine holds_execute hsame hsame ⟨hsame, ends_look h (fun _ _ _ => rfl) fun _ => ?_⟩ (ends_error h)
      refine ⟨fpr, normalise_eq_ok.mp hfp, ?_⟩
      dsimp only
      rw [h.shows.selectSlots_eq, parseRows_map]
  | .hasUnlockSlots fingerprint, body, henter => by
    obtain rfl := Except.ok.inj henter
    have hsame : While (.hasUnlockSlots fingerprint) ⟨m, m⟩ ⟨m, m⟩ := .same h.shows
    unfold hasUnlockSlots
    apply Steps.Holds.bind
    cases hfp : normalise fingerprint with
    | error e => exact ⟨hsame, ends_error h e⟩
    | ok fpr =>
      refine holds_execute hsame hsame (ends_look h (fun _ _ _ => rfl) fun _ => ?_) (ends_error h)
      exact ⟨fpr, normalise_eq_ok.mp hfp, congrArg Answer.present (h.shows.any_iff fpr)⟩
  | .deleteUnlockSlot slotId, body, henter => by
    obtain rfl := Except.ok.inj henter
    refine holds_delete h (fun _ _ _ => rfl) (fun _ => trivial) fun fpr hn => ?_
    rw [rowsOf_deleteRows, List.filter_eq_self]
    intro row hrow
    obtain ⟨hmem, hfp⟩ := List.mem_filter.mp hrow
    rw [Bool.not_eq_true', decide_eq_false_iff_not]
    exact fun hid => hn ⟨row, hmem, hid, of_decide_eq_true hfp⟩
  | .deleteUnlockSlots fingerprint, body, henter => by
    obtain rfl := Except.ok.inj henter
    have hsame : While (.deleteUnlockSlots fingerprint) ⟨m, m⟩ ⟨m, m⟩ := .same h.shows
    unfold deleteUnlockSlots
    cases hfp : normalise fingerprint with
    | error e =>
      apply Steps.Holds.bind
      exact holds_transaction hsame (ends_error h) ⟨hsame, rfl, nofun⟩
    | ok fpr =>
      have hfp := normalise_eq_ok.mp hfp
      refine holds_delete h (fun _ g l => ?_) (fun _ => trivial) fun g hn => ?_
      · simp only [slotsAfter, hfp, Option.some.injEq, rowOf]
        by_cases hg : fpr = g
        · simp [hg]
        · simp [hg, Ne.symm hg]
      · rw [rowsOf_deleteRows, List.filter_eq_self]
        intro row hrow
        have hg := of_decide_eq_true (List.mem_filter.mp hrow).2
        rw [Bool.not_eq_true', decide_eq_false_iff_not]
        exact fun he => hn (hfp.trans (congrArg some (he.symm.trans hg)))

end Operations

/-! ### Every interleaving -/

/-- The lists of slots are kept. -/
structure KeptLists (s : State Connection (Option Exc) Exc Op Answer τ) : Prop where
  returned : ∀ before thread fingerprint answer after,
    s.log = before ++ ⟨thread, .unlockSlots fingerprint, .ok answer⟩ :: after →
      ∃ fpr, normaliseFingerprint fingerprint = some fpr ∧ answer = .slots (live fpr before)
  stored : s.running = none → ∀ fpr, s.shared.committed.rowsOf fpr = (live fpr s.log).map (rowOf fpr)
  bound : ∀ fpr, (s.shared.committed.rowsOf fpr).length ≤ maxKeyUnlockSlots ∧
    (s.shared.working.rowsOf fpr).length ≤ maxKeyUnlockSlots
  refused : ∀ r e, s.running = some r → r.rest = .done (.error e) → s.shared = r.before
  others : ∀ r, s.running = some r → ∀ fpr, ¬ r.op.touches r.before.committed fpr →
    s.shared.committed.rowsOf fpr = r.before.committed.rowsOf fpr ∧
      s.shared.working.rowsOf fpr = r.before.committed.rowsOf fpr

theorem between_init : Between ([] : List (Entry Exc Op Answer τ)) ⟨{}, {}⟩ where
  clean := rfl
  shows := shows_nil
  answered before e after h := by simp at h

/-- **In every interleaving of its operations the store keeps a list of slots for
every key**, of at most eight, that `unlock_slots` returns. -/
theorem keptLists [DecidableEq τ] (pydantic : Pydantic Time) {s : State Connection (Option Exc) Exc Op Answer τ}
    (h : (object pydantic).system.Reachable s) : KeptLists s := by
  have hgood : Object.Good (object pydantic) Between While RefusedSafely s := by
    refine Object.good_of_reachable between_init (fun log c op body hc henter => ?_) h
    obtain ⟨committed, working⟩ := c
    obtain rfl : working = committed := hc.clean
    exact holds_enter pydantic hc op henter
  have hlog : Answered s.log ∧ ∀ fpr, (s.shared.committed.rowsOf fpr).length ≤ maxKeyUnlockSlots ∧
      (s.shared.working.rowsOf fpr).length ≤ maxKeyUnlockSlots := by
    cases hr : s.running with
    | none =>
      obtain ⟨hclean, hshows, hanswered⟩ := hgood.free hr
      rw [hclean]
      exact ⟨hanswered, fun fpr => ⟨hshows.bound fpr, hshows.bound fpr⟩⟩
    | some r =>
      obtain ⟨hbetween, hrest⟩ := hgood.running r hr
      exact ⟨hbetween.answered, hrest.here.bound⟩
  constructor
  · intro before thread fingerprint answer after he
    exact hlog.1 before _ after he
  · intro hfree
    exact (hgood.free hfree).shows.rows
  · exact hlog.2
  · intro r e hr hdone
    obtain ⟨-, hrest⟩ := hgood.running r hr
    rw [hdone] at hrest
    exact hrest.2.1 e rfl
  · intro r hr
    exact (hgood.running r hr).2.here.others

/-! ### A slot is added and looked at -/

def sampleSlot : KeyUnlockSlot where
  type := .fido
  wrappedSecretB64 := lit "QQ=="
  nonceB64 := lit "AAAAAAAAAAAAAAAA"
  kdf := none
  fido := some
    { credentialIdB64 := lit "QQ=="
      saltB64 := List.replicate 43 (codePoint 'A') ++ lit "="
      rpId := lit "gpg-meister"
      resident := true
      userVerification := true
      label := []
      ok := by decide }
  label := []
  ok := by decide

/-- One thread adds a slot, and another one looks at the slots while it waits. -/
def sampleLabels : List (Label (Option Exc) Op ℕ) :=
  [.call 0 (.addUnlockSlot (List.replicate 40 (codePoint 'a')) sampleSlot),
    .call 1 (.unlockSlots (List.replicate 40 (codePoint 'A'))), .acquire 0, .step none, .step none, .step none,
    .release, .acquire 1, .step none, .release]

theorem keptLists_sample : ∃ s : State Connection (Option Exc) Exc Op Answer ℕ,
    KeptLists s ∧ s.log.map (·.result) = [.ok (.slotId 1), .ok (.slots [(1, sampleSlot)])] := by
  have hrun : ((System.runLabels (object samplePydantic).step (object samplePydantic).initial sampleLabels).map
      fun s => s.log.map (·.result)) = some [.ok (.slotId 1), .ok (.slots [(1, sampleSlot)])] := by
    decide +kernel
  obtain ⟨s, hs, hlog⟩ := Option.map_eq_some_iff.mp hrun
  exact ⟨s, keptLists samplePydantic (System.reachable_of_runLabels sampleLabels (.init rfl) hs), hlog⟩

end MetadataStore
end GpgMeister
