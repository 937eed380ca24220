/-
# Crashes in the middle of an emit

A process that dies while it writes a record leaves the log with some of the
record's octets, and the tip file as it was before or after its replacement.

* `verifyChain_of_settled`: in every run in which whatever reaches the log is a
  whole record, and the tip file is replaced if there is one, the verifier
  accepts what is on disk, after every step and every crash.
-/
import GpgMeister.Storage.AuditVerify

namespace GpgMeister
namespace AuditLog

variable {env : Env}

/-! ### Crashes -/

/-- Where a process is in `_write_record` when it dies. The tip file is replaced
at one point: until then it is the old one. -/
inductive Death
  | beforeWrite
  | writing (landed : ℕ)
  | beforeTip
  | afterTip
  deriving DecidableEq

/-- What comes of the system calls of an emit that does not get further. -/
def Death.call (death : Death) (call : Call) : Call :=
  match death with
  | .beforeWrite => { call with fault := .write 0 }
  | .writing landed => { call with fault := .write landed }
  | .beforeTip => { call with fault := .none, tipFails := true }
  | .afterTip => { call with fault := .none, tipFails := false }

def Action.withCall (a : Action) (call : Call) : Action :=
  match a with
  | .open _ => .open call
  | .emit i event outcome payload _ => .emit i event outcome payload call

/-- The `AuditLog`s of the other processes. -/
def Action.others (s : State) : Action → List Handle
  | .open _ => s.handles
  | .emit i _ _ _ _ => s.handles.eraseIdx i

inductive Event
  | act (a : Action)
  /-- The process dies in the emit of this action. -/
  | die (a : Action) (death : Death)

/-- What is done as far as it gets. -/
def Event.action : Event → Action
  | .act a => a
  | .die a death => a.withCall (death.call a.call)

def crashStep (env : Env) (s : State) (e : Event) : Option State :=
  match e with
  | .act a => step env s a
  | .die a death => (step env s (Event.die a death).action).map fun s' => { s' with handles := a.others s }

/-- Any number of sessions, each of which may die. -/
def crashes (env : Env) : System State Event := .ofStep (· = {}) (crashStep env)

/-! ### Steps that settle -/

/-- A part of the data may have reached the log. -/
def Fault.tears : Fault → Bool
  | .write n | .flush n => n ≠ 0
  | .none | .fsync => false

/-- Whatever reaches the log is a whole record, on a line of its own and after
a line that the writer sees whole; and the tip file is replaced then, or there
is none. -/
def Settles (s : State) (a : Action) : Prop :=
  Clean s a ∧ a.call.fault.tears = false ∧
    (a.call.fault.lands = true → (a.call.fault = .none ∧ a.call.tipFails = false) ∨ s.disk.tip = none)

instance (s : State) (a : Action) : Decidable (Settles s a) := by unfold Settles; infer_instance

/-- A chain with the tip of its last record, or with no tip. -/
def SettledDisk (env : Env) (d : Disk) : Prop :=
  ∃ lines, d.log = joinLines lines ∧ Chained env [] 0 lines ∧
    (d.tip = none ∨ ∃ ls line, lines = ls ++ [line] ∧ d.tip = some (tipContent (env.sha256 line) ls.length))

structure Settled (env : Env) (s : State) : Prop where
  hashChain : ∀ h ∈ s.handles, h.hashChain = true
  disk : SettledDisk env s.disk

/-- The same after some other records: a chain that continues them. -/
def SettledAfter (env : Env) (base : List Bytes) (d : Disk) : Prop :=
  ∃ lines, d.log = joinLines (base ++ lines) ∧
    Chained env (HashChain.tip env.sha256 [] base) (nextSeq env base) lines ∧
    (d.tip = none ∨ ∃ ls line, lines = ls ++ [line] ∧
      d.tip = some (tipContent (env.sha256 line) (nextSeq env base + ls.length)))

theorem records_nil : Records env [] := fun _ h => absurd h List.not_mem_nil

theorem settledAfter_nil {d : Disk} : SettledAfter env [] d ↔ SettledDisk env d := by
  have hseq (n : ℕ) : nextSeq env [] + n = n := Nat.zero_add n
  simp only [SettledAfter, hseq]
  rfl

/-- The verifier accepts it, if it comes to the end of the other records in the
state in which the writer goes on. -/
theorem verifyChain_of_settledAfter {base : List Bytes} {d : Disk} {w : Walk} (hb : Records env base)
    (hw : base.foldlM (verifyLine env) {} = .ok w) (hp : w.prevHash.getD [] = HashChain.tip env.sha256 [] base)
    (hs : w.expectedSeq = nextSeq env base) (h : SettledAfter env base d) (hsize : d.log.length ≤ maxFileSize) :
    verifyChain env d = .ok (true, records d.log) := by
  obtain ⟨lines, hlog, hl, htip⟩ := h
  obtain ⟨hcount, hle⟩ := count_of_foldlM (fun line hm => (hb line hm).elim fun _ hr => hr.ne_nil) hw
  rw [← hp] at hl
  have hwalk := foldlM_verifyLine hl hs
  rw [verifyChain_eq, records, hlog, nonEmptyLines_joinLines (hb.append hl.records), List.foldlM_append, hw]
  dsimp only [bind, Except.bind]
  rw [hwalk, hcount, Nat.zero_add, List.length_append]
  rcases List.eq_nil_or_concat' lines with rfl | ⟨ls, line, rfl⟩
  · have hnone : d.tip = none := htip.resolve_right (by simp)
    rw [hnone]
    cases hprev : w.prevHash <;> rfl
  · have htrue : verifyTip d.tip (env.sha256 line) (nextSeq env base + ls.length + 1 : ℕ) = true := by
      rcases htip with hnone | ⟨ls', line', he, htip⟩
      · rw [hnone]
        rfl
      · obtain ⟨rfl, hline⟩ := List.append_inj' he rfl
        obtain rfl := List.head_eq_of_cons_eq hline
        have hlen : nextSeq env base + ls.length ≤ maxFileSize := by
          have := length_le_joinLines (base ++ (ls ++ [line]))
          rw [← hlog, List.length_append, List.length_append, List.length_singleton] at this
          dsimp only at hle
          omega
        rw [htip]
        exact verifyTip_tipContent (digits_length_le hlen)
    simp only [List.getLast?_concat, Option.map_some, Option.some_or, List.length_append, List.length_singleton,
      ← Nat.add_assoc, htrue]

theorem verifyChain_of_settledDisk {d : Disk} (h : SettledDisk env d) (hsize : d.log.length ≤ maxFileSize) :
    verifyChain env d = .ok (true, records d.log) :=
  verifyChain_of_settledAfter records_nil rfl rfl rfl (settledAfter_nil.mpr h) hsize

/-! ### The tip file -/

/-- The tip file is only changed when everything has been written. -/
theorem writeRecord_tip (h : Handle) (d : Disk) (record : Dict) {call : Call}
    (hc : ¬ (call.fault = .none ∧ call.tipFails = false)) :
    (writeRecord env h d record call.fault call.tipFails).1.2.tip = d.tip := by
  unfold writeRecord
  split
  · rfl
  · split
    · rfl
    · dsimp only
      by_cases hf : call.fault = .none
      · have ht : call.tipFails = true := by
          by_contra hn
          exact hc ⟨hf, by simpa using hn⟩
        rw [if_pos hf, ht]
        by_cases hh : h.hashChain = true
        · rw [if_pos hh]
          rfl
        · rw [if_neg hh]
      · rw [if_neg hf]

theorem emit_tip (h : Handle) (d : Disk) (event outcome : Str) (payload : Dict) {call : Call}
    (hc : ¬ (call.fault = .none ∧ call.tipFails = false)) :
    (emit env h d event outcome payload call).1.2.tip = d.tip := by
  unfold emit
  by_cases ho : outcome ∉ validOutcomes
  · rw [if_pos ho]
  · rw [if_neg ho]
    cases checkPayload env event payload with
    | some e => rfl
    | none =>
      dsimp only
      by_cases hh : h.hashChain = true
      · rw [if_pos hh]
        cases scanTailState env d.log with
        | error e => rfl
        | ok tail => exact writeRecord_tip _ d _ hc
      · rw [if_neg hh]
        exact writeRecord_tip _ d _ hc

theorem perform_tip {s s' : State} {a : Action} {returns : Bool} (h : perform env s a = some (s', returns))
    (hc : ¬ (a.call.fault = .none ∧ a.call.tipFails = false)) : s'.disk.tip = s.disk.tip := by
  unfold perform at h
  cases a with
  | «open» call =>
    dsimp only at h
    have htip : (openLog env s.disk true call).2.tip = s.disk.tip := by
      unfold openLog
      rw [if_pos rfl]
      split
      · rfl
      · rename_i prev seq _
        have hcall : ¬ (call.fault = .none ∧ call.tipFails = false) := hc
        have ht := @emit_tip env { hashChain := true, prevHash := prev, seq := seq } s.disk
          (lit "audit_log_opened") (lit "ok") { items := [(lit "hash_chain", .bool true)], unique := rfl } call hcall
        dsimp only at ht ⊢
        split
        · rename_i heq
          rw [heq] at ht
          exact ht
        · rename_i heq
          rw [heq] at ht
          exact ht
    split at h
    · rename_i heq
      rw [heq] at htip
      cases h
      exact htip
    · rename_i heq
      rw [heq] at htip
      cases h
      exact htip
  | emit i event outcome payload call =>
    dsimp only at h
    split at h
    · cases h
    · cases h
      exact emit_tip _ _ _ _ _ hc

/-! ### What a step leaves -/

theorem writeData_of_not_tears {fault : Fault} (hl : fault.lands = true) (ht : fault.tears = false) (log data : Bytes) :
    (writeData fault log [] data).1 = log ++ data := by
  cases fault with
  | none => simp [writeData]
  | fsync => simp [writeData]
  | write n => exact absurd (hl.symm.trans ht) (by decide)
  | flush n => exact absurd (hl.symm.trans ht) (by decide)

/-- An emit that raises has not written. -/
theorem Emitted.disk_eq {buffer : Bytes} {h : Handle} {d d' : Disk} {call : Call} {e : Exc}
    (he : Emitted env buffer d call ((h, d'), some e)) : d' = d := by
  cases he
  rfl

theorem Emitted.log_eq {buffer : Bytes} {h : Handle} {d d' : Disk} {call : Call}
    (he : Emitted env buffer d call ((h, d'), none)) (hn : ¬ call.fault.lands = true) : d'.log = d.log := by
  cases he with
  | wrote _ _ _ hw =>
    have hfst := congrArg Prod.fst hw
    rw [writeData_of_not_lands hn] at hfst
    exact hfst.symm

/-- **A step that settles** leaves a chain with the tip of its last record, or
with no tip. -/
theorem settledAfter_perform {base : List Bytes} {s s' : State} {a : Action} {returns : Bool}
    (hb : Records env base) (hc : ∀ h ∈ s.handles, h.hashChain = true) (hd : SettledAfter env base s.disk)
    (hs : Settles s a) (h : perform env s a = some (s', returns)) : SettledAfter env base s'.disk := by
  rcases perform_cases hc h with ⟨rfl, -⟩ | ⟨h', e, he, -, -⟩
  · exact hd
  · cases e with
    | some e =>
      rw [he.disk_eq]
      exact hd
    | none =>
      obtain ⟨lines, hlog, hl, htip⟩ := hd
      by_cases hlands : a.call.fault.lands = true
      · obtain ⟨hbuf, hends⟩ := hs.1 hlands
        rw [hlog] at hends
        have hfit := hends.length_lt fun line hm => (hb.append hl.records).lineFeed hm
        rw [hbuf] at he
        obtain ⟨line, hnext, hw, hnew⟩ := he.next hlog hb hl hfit
        refine ⟨lines ++ [line], ?_, hnext, ?_⟩
        · rw [← hw, writeData_of_not_tears hlands hs.2.1, ← List.append_assoc base, joinLines_concat, List.append_assoc]
        · by_cases hdone : a.call.fault = .none ∧ a.call.tipFails = false
          · exact .inr ⟨lines, line, rfl, hnew hdone.1 hdone.2⟩
          · refine .inl ?_
            rw [perform_tip h hdone]
            exact (hs.2.2 hlands).resolve_left hdone
      · have hdone : ¬ (a.call.fault = .none ∧ a.call.tipFails = false) := by
          rintro ⟨hf, -⟩
          rw [hf] at hlands
          exact hlands rfl
        exact ⟨lines, (he.log_eq hlands).trans hlog, hl, by rw [perform_tip h hdone]; exact htip⟩

theorem settled_perform {s s' : State} {a : Action} {returns : Bool} (hI : Settled env s) (hs : Settles s a)
    (h : perform env s a = some (s', returns)) : Settled env s' :=
  ⟨hashChain_perform hI.hashChain h, settledAfter_nil.mp
    (settledAfter_perform records_nil hI.hashChain (settledAfter_nil.mpr hI.disk) hs h)⟩

theorem settled_of_crashes {s : State} (h : ((crashes env).restrict fun s e => Settles s e.action).Reachable s) :
    Settled env s ∧ s.disk.log.length ≤ maxFileSize := by
  refine h.inv (P := fun s => Settled env s ∧ s.disk.log.length ≤ maxFileSize) ?_ ?_
  · rintro s rfl
    exact ⟨⟨fun x hx => absurd hx List.not_mem_nil, [], rfl, trivial, .inl rfl⟩, Nat.zero_le _⟩
  · rintro s e s' ⟨hI, -⟩ ⟨hs, hst⟩
    cases e with
    | act a =>
      obtain ⟨returns, hp, hsize⟩ := step_eq_some hst
      exact ⟨settled_perform hI hs hp, hsize⟩
    | die a death =>
      obtain ⟨s1, hst1, rfl⟩ := Option.map_eq_some_iff.mp hst
      obtain ⟨returns, hp, hsize⟩ := step_eq_some hst1
      refine ⟨⟨fun x hx => hI.hashChain x ?_, (settled_perform hI hs hp).disk⟩, hsize⟩
      cases a with
      | «open» call => exact hx
      | emit i event outcome payload call => exact List.mem_of_mem_eraseIdx hx

/-- **A crash is not reported as tampering**, nor a tip that could not be
written, in every run in which whatever reaches the log is a whole record and
the tip file then follows it, if there is one. -/
theorem verifyChain_of_settled {s : State}
    (h : ((crashes env).restrict fun s e => Settles s e.action).Reachable s) :
    verifyChain env s.disk = .ok (true, records s.disk.log) := by
  obtain ⟨hI, hsize⟩ := settled_of_crashes h
  exact verifyChain_of_settledDisk hI.disk hsize

/-! ### Two crashes -/

/-- A session that writes its announcement, and dies in its next emit. -/
def dying (death : Death) : List Event := [.act (.open (sampleCall .none)), .die (keyGenerated 0) death]

/-- It dies after the tip file has been replaced. -/
theorem verifyChain_dying : ∃ s,
    System.runLabels (System.guarded (fun s e => Settles s e.action) (crashStep sampleEnv)) {} (dying .afterTip) =
        some s ∧
      verifyChain sampleEnv s.disk = .ok (true, records s.disk.log) := by
  have hrun : (System.runLabels (System.guarded (fun s e => Settles s (Event.action e)) (crashStep sampleEnv)) {}
      (dying .afterTip)).isSome = true := by
    decide +kernel
  obtain ⟨s, hs⟩ := Option.isSome_iff_exists.mp hrun
  exact ⟨s, hs, verifyChain_of_settled (System.reachable_restrict_of_runLabels _ (.init rfl) hs)⟩

/-- It dies before the tip file has been replaced. -/
theorem not_verifyChain_dying : ∃ s, System.runLabels (crashStep sampleEnv) {} (dying .beforeTip) = some s ∧
    verifyChain sampleEnv s.disk = .ok (false, 2) := by
  have hrun : ((System.runLabels (crashStep sampleEnv) {} (dying .beforeTip)).any fun s =>
      verifyChain sampleEnv s.disk = .ok (false, 2)) = true := by
    decide +kernel
  obtain ⟨s, hs, hfalse⟩ := (Option.any_eq_true _ _).mp hrun
  exact ⟨s, hs, of_decide_eq_true hfalse⟩

end AuditLog
end GpgMeister
