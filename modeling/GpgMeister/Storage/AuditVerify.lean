/-
# Which logs the verifier accepts, and which make it raise

`verify_chain` on any octets. A log that is consistent (`Consistent`) is walked
to its end; at the first line that breaks this the walk ends with `False`, or
with an exception if the line is a value that is no object.

* `verifies_iff`: `verify_chain` returns, and `True` only for a consistent log,
  if and only if every line that it comes to is an object or no JSON at all.
-/
import GpgMeister.Lib.MapM
import GpgMeister.Storage.AuditTip

namespace GpgMeister
namespace AuditLog

variable {env : Env}

/-! ### Consistent logs -/

/-- The items of the record in a line. -/
def recordAt (env : Env) (line : Bytes) : Option (List (Str × Json)) :=
  match Json.loads env.recursionLimit (Utf8.decodeReplace line) with
  | .ok (.obj ms) => some ms
  | _ => none

theorem RecordLine.recordAt {line : Bytes} {ms : List (Str × Json)} (h : RecordLine env line ms) :
    recordAt env line = some ms := by
  obtain ⟨text, ht, hm⟩ := h.parsed
  rw [AuditLog.recordAt, Utf8.decodeReplace_encode ht, hm]

/-- `obj.get("prev_hash")` -/
def storedHash (ms : List (Str × Json)) : Json := (ms.lookup (lit "prev_hash")).getD .null

/-- The counter of a record. -/
def storedSeq (ms : List (Str × Json)) : Option ℤ := (ms.lookup (lit "seq")).bind asInt

/-- Lines after a record with the hash `prev`, where `seq` is the next number:
each is a record that carries this hash, and this number if it has one. Before
the first such record there may be records without a hash. -/
def Consistent (env : Env) : Option Str → ℤ → List Bytes → Prop
  | _, _, [] => True
  | prev, seq, line :: lines =>
    ∃ ms, recordAt env line = some ms ∧
      ((storedHash ms = .null ∧ prev = none ∧ Consistent env none seq lines) ∨
        storedHash ms = .str (prev.getD []) ∧ (∀ n ∈ storedSeq ms, n = seq) ∧
          Consistent env (some (env.sha256 line)) (if (storedSeq ms).isSome then seq + 1 else seq) lines)

/-- The verifier reads a record in the line, or finds no JSON there. -/
def Readable (env : Env) (line : Bytes) : Prop :=
  (recordAt env line).isSome = true ∨ Json.loads env.recursionLimit (Utf8.decodeReplace line) = .error .decode

/-! ### One line -/

/-- What one line makes of the walk. -/
theorem verifyLine_eq_ok_iff {w w' : Walk} {line : Bytes} (hne : line ≠ []) :
    verifyLine env w line = .ok w' ↔
      ∃ ms, recordAt env line = some ms ∧
        ((storedHash ms = .null ∧ w.prevHash = none ∧ w' = { w with count := w.count + 1 }) ∨
          storedHash ms = .str (w.prevHash.getD []) ∧ (∀ n ∈ storedSeq ms, n = w.expectedSeq) ∧
            w' =
              { prevHash := some (env.sha256 line)
                expectedSeq := if (storedSeq ms).isSome then w.expectedSeq + 1 else w.expectedSeq
                count := w.count + 1 }) := by
  unfold verifyLine recordAt
  dsimp only
  rw [if_neg (mt Utf8.decodeReplace_eq_nil.mp hne)]
  cases hl : Json.loads env.recursionLimit (Utf8.decodeReplace line) with
  | error e => cases e <;> simp
  | ok v =>
    cases v with
    | obj ms =>
      dsimp only
      simp only [Option.some.injEq, exists_eq_left']
      have hhash : (ms.lookup (lit "prev_hash")).getD .null = storedHash ms := rfl
      rw [hhash]
      cases hs : storedHash ms with
      | null =>
        dsimp only
        by_cases hp : w.prevHash = none
        · simp only [hp, if_true, Except.ok.injEq, true_and, reduceCtorEq, false_and, or_false]
          exact eq_comm
        · simp [hp]
      | str stored =>
        dsimp only
        by_cases hst : stored = w.prevHash.getD []
        · rw [if_neg (not_not.mpr hst), hst]
          have hseq : (ms.lookup (lit "seq")).bind asInt = storedSeq ms := rfl
          rw [hseq]
          cases hq : storedSeq ms with
          | none => simp [eq_comm]
          | some seq =>
            dsimp only
            by_cases hseq : seq = w.expectedSeq
            · simp [hseq, eq_comm]
            · simp [hseq]
        · rw [if_pos hst]
          simp [hst]
      | bool b => simp
      | int i => simp
      | float x => simp
      | arr xs => simp
      | obj items => simp
    | null => simp
    | bool b => simp
    | int i => simp
    | float x => simp
    | str text => simp
    | arr xs => simp

/-- A line makes the walk raise if it cannot be read. -/
theorem verifyLine_raises_iff {w : Walk} {line : Bytes} (hne : line ≠ []) :
    (∃ e, verifyLine env w line = .error (.raised e)) ↔ ¬ Readable env line := by
  unfold verifyLine Readable recordAt
  dsimp only
  rw [if_neg (mt Utf8.decodeReplace_eq_nil.mp hne)]
  cases hl : Json.loads env.recursionLimit (Utf8.decodeReplace line) with
  | error e => cases e <;> simp
  | ok v =>
    cases v with
    | obj ms =>
      refine iff_of_false ?_ (by simp)
      rintro ⟨e, he⟩
      dsimp only at he
      split at he
      · split_ifs at he
        cases he
      · split_ifs at he
        · cases he
        · split at he
          · cases he
          · split_ifs at he
            cases he
      · cases he
    | null => simp
    | bool b => simp
    | int i => simp
    | float x => simp
    | str text => simp
    | arr xs => simp

/-! ### All lines -/

/-- Empty lines make no difference. -/
theorem foldlM_nonEmpty : ∀ (raws : List Bytes) (w : Walk),
    raws.foldlM (verifyLine env) w = (raws.filter (· ≠ [])).foldlM (verifyLine env) w
  | [], _ => rfl
  | raw :: raws, w => by
    by_cases hne : raw = []
    · rw [List.filter_cons_of_neg (by simpa using hne), List.foldlM_cons, hne]
      exact foldlM_nonEmpty raws w
    · rw [List.filter_cons_of_pos (by simpa using hne), List.foldlM_cons, List.foldlM_cons]
      cases verifyLine env w raw with
      | error e => rfl
      | ok w1 => exact foldlM_nonEmpty raws w1

/-- What a walk counts, and how far the numbers go. -/
theorem count_of_foldlM : ∀ {lines : List Bytes} {w w' : Walk}, (∀ line ∈ lines, line ≠ []) →
    lines.foldlM (verifyLine env) w = .ok w' →
    w'.count = w.count + lines.length ∧ w'.expectedSeq ≤ w.expectedSeq + lines.length
  | [], w, w', _, h => by
    obtain rfl := Except.ok.inj h
    simp
  | line :: lines, w, w', hne, h => by
    rw [List.foldlM_cons] at h
    rw [List.forall_mem_cons] at hne
    cases hw : verifyLine env w line with
    | error e =>
      rw [hw] at h
      cases h
    | ok w1 =>
      rw [hw] at h
      obtain ⟨hcount, hseq⟩ := count_of_foldlM hne.2 h
      have h1 : w1.count = w.count + 1 ∧ w1.expectedSeq ≤ w.expectedSeq + 1 := by
        obtain ⟨ms, -, ⟨-, -, rfl⟩ | ⟨-, -, rfl⟩⟩ := (verifyLine_eq_ok_iff hne.1).mp hw
        · exact ⟨rfl, by simp⟩
        · refine ⟨rfl, ?_⟩
          dsimp only
          split_ifs <;> omega
      rw [List.length_cons]
      push_cast
      omega

/-- A walk comes to its end if and only if the lines are consistent. -/
theorem consistent_iff : ∀ {lines : List Bytes} {w : Walk}, (∀ line ∈ lines, line ≠ []) →
    (Consistent env w.prevHash w.expectedSeq lines ↔ ∃ w', lines.foldlM (verifyLine env) w = .ok w')
  | [], w, _ => iff_of_true trivial ⟨w, rfl⟩
  | line :: lines, w, hne => by
    have hline := @verifyLine_eq_ok_iff env w
    have hrest (w1 : Walk) := @consistent_iff lines w1 fun l hl => hne l (List.mem_cons_of_mem _ hl)
    rw [Consistent, List.foldlM_cons]
    constructor
    · rintro ⟨ms, hms, ⟨hnull, hp, hc⟩ | ⟨hs, hseq, hc⟩⟩
      · have hw := (hline (hne _ List.mem_cons_self)).mpr ⟨ms, hms, .inl ⟨hnull, hp, rfl⟩⟩
        rw [hw]
        rw [← hp] at hc
        exact (hrest { w with count := w.count + 1 }).mp hc
      · have hw := (hline (hne _ List.mem_cons_self)).mpr ⟨ms, hms, .inr ⟨hs, hseq, rfl⟩⟩
        rw [hw]
        exact (hrest _).mp hc
    · rintro ⟨w', hw'⟩
      cases hw : verifyLine env w line with
      | error e =>
        rw [hw] at hw'
        cases hw'
      | ok w1 =>
        rw [hw] at hw'
        obtain ⟨ms, hms, ⟨hnull, hp, rfl⟩ | ⟨hs, hseq, rfl⟩⟩ := (hline (hne _ List.mem_cons_self)).mp hw
        · refine ⟨ms, hms, .inl ⟨hnull, hp, ?_⟩⟩
          rw [← hp]
          exact (hrest { w with count := w.count + 1 }).mpr ⟨w', hw'⟩
        · exact ⟨ms, hms, .inr ⟨hs, hseq, (hrest _).mpr ⟨w', hw'⟩⟩⟩

/-- A walk raises at the first line after consistent ones, if that cannot be
read. -/
theorem raises_iff {lines : List Bytes} {w : Walk} (hne : ∀ line ∈ lines, line ≠ []) :
    (∃ e, lines.foldlM (verifyLine env) w = .error (.raised e)) ↔
      ∃ before line after, lines = before ++ line :: after ∧ Consistent env w.prevHash w.expectedSeq before ∧
        ¬ Readable env line := by
  have hpart {before : List Bytes} {line : Bytes} {after : List Bytes} (h : lines = before ++ line :: after) :
      (∀ l ∈ before, l ≠ []) ∧ line ≠ [] := by
    subst h
    exact ⟨fun l hl => hne l (List.mem_append_left _ hl),
      hne line (List.mem_append_right _ List.mem_cons_self)⟩
  constructor
  · rintro ⟨e, he⟩
    obtain ⟨before, line, after, w', hl, hb, hr⟩ := foldlM_eq_error.mp he
    exact ⟨before, line, after, hl, (consistent_iff (hpart hl).1).mpr ⟨w', hb⟩,
      (verifyLine_raises_iff (hpart hl).2).mp ⟨e, hr⟩⟩
  · rintro ⟨before, line, after, hl, hb, hr⟩
    obtain ⟨w', hw'⟩ := (consistent_iff (hpart hl).1).mp hb
    obtain ⟨e, he⟩ := (verifyLine_raises_iff (w := w') (hpart hl).2).mpr hr
    exact ⟨e, foldlM_eq_error.mpr ⟨before, line, after, w', hl, hw', he⟩⟩

/-! ### Any log -/

/-- `verify_chain` returns, and `True` only if the log is consistent: a line
that is no object, or any other break, yields `False`. -/
def Verifies (env : Env) (d : Disk) : Prop :=
  ∃ ok count, verifyChain env d = .ok (ok, count) ∧ (ok = true → Consistent env none 0 (nonEmptyLines d.log))

theorem nonEmptyLines_nil : nonEmptyLines [] = [] := rfl

theorem verifyChain_eq (env : Env) (d : Disk) :
    verifyChain env d =
      match (nonEmptyLines d.log).foldlM (verifyLine env) {} with
      | .error (.broken count) => .ok (false, count)
      | .error (.raised e) => .error e
      | .ok w =>
        match w.prevHash with
        | none => .ok (true, w.count)
        | some prevHash => .ok (verifyTip d.tip prevHash w.expectedSeq, w.count) := by
  unfold verifyChain
  rw [nonEmptyLines, ← foldlM_nonEmpty]
  by_cases h : d.log = []
  · rw [if_pos h, h]
    rfl
  · exact if_neg h

theorem consistent_of_verifyChain {d : Disk} {n : ℕ} (h : verifyChain env d = .ok (true, n)) :
    Consistent env none 0 (nonEmptyLines d.log) := by
  have hne : ∀ line ∈ nonEmptyLines d.log, line ≠ [] := fun line hl => by
    simpa using (List.mem_filter.mp hl).2
  rw [verifyChain_eq] at h
  refine (@consistent_iff env (nonEmptyLines d.log) {} hne).mpr ?_
  cases hwalk : (nonEmptyLines d.log).foldlM (verifyLine env) {} with
  | error stop =>
    rw [hwalk] at h
    cases stop <;> cases h
  | ok w => exact ⟨w, rfl⟩

/-- **`verify_chain` returns, and `True` only for a consistent log, exactly when
each line that it comes to is an object or no JSON at all.** -/
theorem verifies_iff (env : Env) (d : Disk) :
    Verifies env d ↔
      ∀ before line after, nonEmptyLines d.log = before ++ line :: after → Consistent env none 0 before →
        Readable env line := by
  have hne : ∀ line ∈ nonEmptyLines d.log, line ≠ [] := fun line hl => by
    simpa using (List.mem_filter.mp hl).2
  have hraises := @raises_iff env (nonEmptyLines d.log) {} hne
  have hconsistent := @consistent_iff env (nonEmptyLines d.log) {} hne
  unfold Verifies
  rw [verifyChain_eq]
  cases hwalk : (nonEmptyLines d.log).foldlM (verifyLine env) {} with
  | error stop =>
    rw [hwalk] at hraises
    cases stop with
    | raised e =>
      refine iff_of_false (by rintro ⟨ok, count, h, -⟩; cases h) fun h => ?_
      obtain ⟨before, line, after, hl, hb, hr⟩ := hraises.mp ⟨e, rfl⟩
      exact hr (h before line after hl hb)
    | broken count =>
      refine iff_of_true ⟨false, count, rfl, by simp⟩ fun before line after hl hb => ?_
      by_contra hr
      obtain ⟨e, he⟩ := hraises.mpr ⟨before, line, after, hl, hb, hr⟩
      cases he
  | ok w =>
    rw [hwalk] at hraises hconsistent
    have hall := hconsistent.mpr ⟨w, rfl⟩
    refine iff_of_true ?_ fun before line after hl hb => ?_
    · dsimp only
      cases w.prevHash with
      | none => exact ⟨true, w.count, rfl, fun _ => hall⟩
      | some prevHash => exact ⟨_, w.count, rfl, fun _ => hall⟩
    · by_contra hr
      obtain ⟨e, he⟩ := hraises.mpr ⟨before, line, after, hl, hb, hr⟩
      cases he

/-- A log whose only line is a list. -/
theorem not_verifies_list : ¬ Verifies sampleEnv { log := ascii "[]\n" } := by
  have hrun : verifyChain sampleEnv { log := ascii "[]\n" } = .error { cls := .attributeError, message := [] } := by
    decide +kernel
  rintro ⟨ok, count, h, -⟩
  rw [hrun] at h
  cases h

end AuditLog
end GpgMeister
