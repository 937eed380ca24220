/-
# What the tip of an audit log commits to

`_verify_tip` compares the hash of the last record with a hash: the records
form a hash chain, so the tip commits to all of them (`lines_of_verifyChain`).
What it does not commit to is what the verifier lets pass outside the chain:
records without a hash in front of it, and logs in which no record has one.
-/
import GpgMeister.Storage.AuditChain

namespace GpgMeister
namespace AuditLog

variable {env : Env}

/-! ### What a line says of the chain -/

/-- The hash that a line carries. -/
def storedPrev (env : Env) (line : Bytes) : Option Str :=
  match Json.loads env.recursionLimit (Utf8.decodeReplace line) with
  | .ok (.obj ms) =>
    match (ms.lookup (lit "prev_hash")).getD .null with
    | .str stored => some stored
    | _ => none
  | _ => none

/-- A line that is a record without a hash. -/
def Unchained (env : Env) (line : Bytes) : Prop :=
  ∃ ms, Json.loads env.recursionLimit (Utf8.decodeReplace line) = .ok (.obj ms) ∧
    (ms.lookup (lit "prev_hash")).getD .null = .null

/-- What the verifier can make of one line. -/
theorem verifyLine_eq_ok {w w' : Walk} {line : Bytes} (hne : line ≠ []) (h : verifyLine env w line = .ok w') :
    (Unchained env line ∧ w.prevHash = none ∧ w'.prevHash = none) ∨
      (storedPrev env line = some (w.prevHash.getD []) ∧ w'.prevHash = some (env.sha256 line)) := by
  unfold verifyLine at h
  dsimp only at h
  rw [if_neg (mt Utf8.decodeReplace_eq_nil.mp hne)] at h
  split at h
  · cases h
  · cases h
  · rename_i ms hms
    split at h
    · rename_i hnull
      split_ifs at h with hp
      cases h
      exact .inl ⟨⟨ms, hms, hnull⟩, hp, hp⟩
    · rename_i stored hstr
      split_ifs at h with hs
      have hstored : storedPrev env line = some stored := by
        unfold storedPrev
        rw [hms]
        simp only [hstr]
      refine .inr ⟨?_, ?_⟩
      · rw [hstored, not_not.mp hs]
      · split at h
        · cases h
          rfl
        · split_ifs at h
          cases h
          rfl
    · cases h
  · cases h

theorem verifyLine_nil (w : Walk) : verifyLine env w [] = .ok w := rfl

/-! ### Walking over a log -/

/-- After a record with a hash every line carries the hash of the one before
it. -/
theorem linked_of_foldlM : ∀ {raws : List Bytes} {w w' : Walk} {p : Str},
    raws.foldlM (verifyLine env) w = .ok w' → w.prevHash = some p →
    HashChain.Linked (storedPrev env) env.sha256 p (raws.filter (· ≠ [])) ∧
      w'.prevHash = some (HashChain.tip env.sha256 p (raws.filter (· ≠ [])))
  | [], w, w', p, h, hp => by
    cases h
    exact ⟨trivial, hp⟩
  | raw :: raws, w, w', p, h, hp => by
    rw [List.foldlM_cons] at h
    by_cases hne : raw = []
    · subst hne
      exact @linked_of_foldlM raws w w' p h hp
    · cases hw : verifyLine env w raw with
      | error e =>
        rw [hw] at h
        cases h
      | ok w1 =>
        rw [hw] at h
        have hfilter : (raw :: raws).filter (· ≠ []) = raw :: raws.filter (· ≠ []) :=
          List.filter_cons_of_pos (by simpa using hne)
        rw [hfilter]
        rcases verifyLine_eq_ok hne hw with ⟨-, hn, -⟩ | ⟨hs, hp1⟩
        · rw [hn] at hp
          cases hp
        · obtain ⟨hl, ht⟩ := linked_of_foldlM h hp1
          rw [hp] at hs
          exact ⟨⟨hs, hl⟩, ht⟩

/-- The lines of a log that is walked to its end: records without a hash, then
a chain. -/
theorem front_back_of_foldlM : ∀ {raws : List Bytes} {w w' : Walk},
    raws.foldlM (verifyLine env) w = .ok w' → w.prevHash = none →
    ∃ front back, raws.filter (· ≠ []) = front ++ back ∧ (∀ line ∈ front, Unchained env line) ∧
      HashChain.Linked (storedPrev env) env.sha256 [] back ∧
      (back = [] ∨ w'.prevHash = some (HashChain.tip env.sha256 [] back))
  | [], w, w', h, hp => ⟨[], [], rfl, fun l hl => absurd hl List.not_mem_nil, trivial, .inl rfl⟩
  | raw :: raws, w, w', h, hp => by
    rw [List.foldlM_cons] at h
    by_cases hne : raw = []
    · subst hne
      exact @front_back_of_foldlM raws w w' h hp
    · cases hw : verifyLine env w raw with
      | error e =>
        rw [hw] at h
        cases h
      | ok w1 =>
        rw [hw] at h
        have hfilter : (raw :: raws).filter (· ≠ []) = raw :: raws.filter (· ≠ []) :=
          List.filter_cons_of_pos (by simpa using hne)
        rw [hfilter]
        rcases verifyLine_eq_ok hne hw with ⟨hu, -, hp1⟩ | ⟨hs, hp1⟩
        · obtain ⟨front, back, hsplit, hfront, hback⟩ := front_back_of_foldlM h hp1
          refine ⟨raw :: front, back, ?_, List.forall_mem_cons.mpr ⟨hu, hfront⟩, hback⟩
          rw [hsplit, List.cons_append]
        · obtain ⟨hl, ht⟩ := linked_of_foldlM h hp1
          rw [hp] at hs
          exact ⟨[], raw :: raws.filter (· ≠ []), rfl, fun l hl => absurd hl List.not_mem_nil, ⟨hs, hl⟩, .inr ht⟩

/-! ### What the tip commits to -/

theorem ChainRecord.storedPrev {line : Bytes} {prev : Str} {seq : ℕ} (h : ChainRecord env line prev seq) :
    storedPrev env line = some prev := by
  obtain ⟨text, ms, ht, hm, hp, -⟩ := h.parsed
  unfold AuditLog.storedPrev
  rw [Utf8.decodeReplace_encode ht, hm]
  simp only [hp, Option.getD_some]

theorem Chained.linked : ∀ {prev : Str} {seq : ℕ} {lines : List Bytes}, Chained env prev seq lines →
    HashChain.Linked (storedPrev env) env.sha256 prev lines
  | _, _, [], _ => trivial
  | _, _, _ :: _, h => ⟨h.1.storedPrev, h.2.linked⟩

/-- A log that the verifier accepts with the tip of a chain has that chain at
its end, or no chain at all. -/
theorem front_of_verifyChain {d : Disk} {log : Bytes} {count : ℕ} (hd : Whole env d)
    (hsize : d.log.length ≤ maxFileSize)
    (hinj : Set.InjOn env.sha256 {line | line ∈ nonEmptyLines log ∨ line ∈ nonEmptyLines d.log})
    (h : verifyChain env { log := log, tip := d.tip } = .ok (true, count)) :
    (∀ line ∈ nonEmptyLines log, Unchained env line) ∨
      ∃ front, nonEmptyLines log = front ++ nonEmptyLines d.log ∧ ∀ line ∈ front, Unchained env line := by
  obtain ⟨lines, line, hlog, hl, htip⟩ := hd
  have hlen : lines.length ≤ maxFileSize := by
    have := length_le_joinLines (lines ++ [line])
    rw [← hlog, List.length_append, List.length_singleton] at this
    omega
  have hlines : nonEmptyLines d.log = lines ++ [line] := by rw [hlog, nonEmptyLines_joinLines hl.records]
  rw [hlines] at hinj ⊢
  by_cases hempty : log = []
  · subst hempty
    exact .inl fun line hm => absurd hm List.not_mem_nil
  · rw [verifyChain, if_neg hempty] at h
    dsimp only at h
    cases hwalk : (log.splitOn lineFeedOctet).foldlM (verifyLine env) {} with
    | error stop =>
      rw [hwalk] at h
      cases stop <;> cases h
    | ok w =>
      rw [hwalk] at h
      dsimp only at h
      obtain ⟨front, back, hsplit, hfront, hback, htipb⟩ := front_back_of_foldlM hwalk rfl
      rw [← nonEmptyLines] at hsplit
      rcases htipb with rfl | hp
      · rw [hsplit, List.append_nil]
        exact .inl hfront
      · refine .inr ⟨front, ?_, hfront⟩
        rw [hp, htip] at h
        have htrue := (Prod.mk.inj (Except.ok.inj h)).1
        have hhash := eq_of_verifyTip (digits_length_le hlen) htrue
        have hne (x : Bytes) : env.sha256 x ≠ [] := by
          intro hx
          have := env.sha256_length x
          rw [hx] at this
          cases this
        have hsub : Set.InjOn env.sha256 {x | x ∈ back ∨ x ∈ lines ++ [line]} := by
          refine hinj.mono fun x hx => ?_
          rw [hsplit]
          exact hx.imp (List.mem_append_right _) id
        rw [hsplit, HashChain.eq_of_tip_eq hne back hsub hback hl.linked (by rw [hhash, HashChain.tip_concat])]

/-- **With the tip of a log that sessions have written** the verifier accepts
only that log, up to records without a hash in front, and logs in which no
record has a hash. -/
theorem lines_of_verifyChain {s s' : State} {a : Action} {log : Bytes} {count : ℕ}
    (hr : ((sessions env).restrict Clean).Reachable s) (hc : Clean s a) (hst : step env s a = some s')
    (hs : Succeeds env s a s')
    (hinj : Set.InjOn env.sha256 {line | line ∈ nonEmptyLines log ∨ line ∈ nonEmptyLines s'.disk.log})
    (h : verifyChain env { log := log, tip := s'.disk.tip } = .ok (true, count)) :
    (∀ line ∈ nonEmptyLines log, Unchained env line) ∨
      ∃ front, nonEmptyLines log = front ++ nonEmptyLines s'.disk.log ∧ ∀ line ∈ front, Unchained env line := by
  obtain ⟨returns, hp, hsize⟩ := step_eq_some hst
  exact front_of_verifyChain (whole_of_clean hr hc hs) hsize hinj h

/-- The log of a session that opens an empty log, after a record without a
hash. -/
def recordInFront : Bytes := joinLines [emptyObject, openedRecord]

theorem lines_of_verifyChain_recordInFront : ∃ s, step sampleEnv {} (.open (sampleCall .none)) = some s ∧
    ((∀ line ∈ nonEmptyLines recordInFront, Unchained sampleEnv line) ∨
      ∃ front, nonEmptyLines recordInFront = front ++ nonEmptyLines s.disk.log ∧
        ∀ line ∈ front, Unchained sampleEnv line) := by
  have hrun : ((perform sampleEnv {} (.open (sampleCall .none))).any fun r =>
      r.2 && (r.1.disk.log.length ≤ maxFileSize &&
        (verifyChain sampleEnv { log := recordInFront, tip := r.1.disk.tip } = .ok (true, 2) &&
          ((nonEmptyLines recordInFront ∪ nonEmptyLines r.1.disk.log).map sampleHash).Nodup))) = true := by
    decide +kernel
  obtain ⟨⟨s, returns⟩, hp, hr⟩ := (Option.any_eq_true _ _).mp hrun
  simp only [Bool.and_eq_true, decide_eq_true_eq] at hr
  obtain ⟨rfl, hsize, hv, hnodup⟩ := hr
  have hst : step sampleEnv {} (.open (sampleCall .none)) = some s := by
    rw [step, hp]
    exact if_pos hsize
  have hinj : Set.InjOn sampleHash
      {line | line ∈ nonEmptyLines recordInFront ∨ line ∈ nonEmptyLines s.disk.log} := by
    intro x hx y hy hxy
    exact List.inj_on_of_nodup_map hnodup (List.mem_union_iff.mpr hx) (List.mem_union_iff.mpr hy) hxy
  have hclean : Clean {} (.open (sampleCall .none)) := fun _ => ⟨rfl, endsLine_nil⟩
  exact ⟨s, hst, lines_of_verifyChain (.init rfl) hclean hst ⟨hp, rfl, rfl⟩ hinj hv⟩

/-- An empty log is accepted with any tip. -/
theorem not_lines_of_verifyChain : ¬ ∀ env s s' a log count, (sessions env).Reachable s →
    step env s a = some s' → Succeeds env s a s' →
    Set.InjOn env.sha256 {line | line ∈ nonEmptyLines log ∨ line ∈ nonEmptyLines s'.disk.log} →
    verifyChain env { log := log, tip := s'.disk.tip } = .ok (true, count) →
    nonEmptyLines log = nonEmptyLines s'.disk.log := by
  intro h
  have hrun : ((perform sampleEnv {} (.open (sampleCall .none))).any fun r =>
      r.2 && (r.1.disk.log.length ≤ maxFileSize && nonEmptyLines r.1.disk.log = [openedRecord])) = true := by
    decide +kernel
  obtain ⟨⟨s, returns⟩, hp, hr⟩ := (Option.any_eq_true _ _).mp hrun
  simp only [Bool.and_eq_true, decide_eq_true_eq] at hr
  obtain ⟨rfl, hsize, hlines⟩ := hr
  have hst : step sampleEnv {} (.open (sampleCall .none)) = some s := by
    rw [step, hp]
    exact if_pos hsize
  have heq := h sampleEnv {} s _ [] 0 (.init rfl) hst ⟨hp, rfl, rfl⟩ (by
    intro x hx y hy _
    simp only [hlines, Set.mem_ofPred_eq, List.mem_singleton] at hx hy
    rcases hx with hx | rfl
    · exact absurd hx List.not_mem_nil
    · rcases hy with hy | rfl
      · exact absurd hy List.not_mem_nil
      · rfl) rfl
  rw [hlines] at heq
  cases heq

end AuditLog
end GpgMeister
