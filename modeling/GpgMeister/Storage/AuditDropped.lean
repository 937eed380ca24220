/-
# The count of lost records

`AuditLog.emit` with all that can fail in it: the lock, the read of the tail,
the encoding of the record, and the system calls that write it. Only the last
are caught. A record that is lost then is counted, and the count is written
into the next record.

* `accounted_of_accountable`: in which runs every emit returns and no lost
  record goes missing from the count.
-/
import GpgMeister.Storage.AuditVerify

namespace GpgMeister
namespace AuditLog

variable {env : Env}

/-! ### Calls of emit -/

/-- A call of `emit`, with the exceptions of `FileLock.acquire` and of the reads
in `_scan_tail_state`, if there are any. -/
structure EmitCall where
  event : Str
  outcome : Str
  payload : Dict
  call : Call
  lock : Option Exc := none
  read : Option Exc := none

/-- The calls that `emit` accepts, without a field of its own name for the
count. -/
def EmitCall.Accepted (env : Env) (c : EmitCall) : Prop :=
  c.outcome ∈ validOutcomes ∧ (checkPayload env c.event c.payload).isNone = true ∧
    (c.payload.get (lit "dropped_audit_records")).isNone = true

instance (c : EmitCall) : Decidable (c.Accepted env) := by unfold EmitCall.Accepted; infer_instance

/-- `AuditLog.emit`, from the lock on -/
def emitAll (env : Env) (h : Handle) (d : Disk) (c : EmitCall) : (Handle × Disk) × Option Exc :=
  match if h.hashChain then c.lock.or c.read else none with
  | some e => ((h, d), some e)
  | none => emit env h d c.event c.outcome c.payload c.call

/-- An `AuditLog` and its log, with the number of emits that failed to write
their record, and whether one has raised. -/
structure Tally where
  handle : Handle
  disk : Disk
  failed : ℕ := 0
  raised : Bool := false

def tallyStep (env : Env) (s : Tally) (c : EmitCall) : Option Tally :=
  if c.Accepted env then
    let ((h, d), e) := emitAll env s.handle s.disk c
    some
      { handle := h
        disk := d
        failed := if e.isSome ∨ c.call.fault ≠ .none then s.failed + 1 else s.failed
        raised := s.raised || e.isSome }
  else none

/-- The emits of an `AuditLog` that opens a log. -/
def tallies (env : Env) (hashChain : Bool) (d : Disk) : System Tally EmitCall :=
  .ofStep (· = { handle := { hashChain := hashChain }, disk := d }) (tallyStep env)

/-! ### The count in the log -/

/-- The count in the record of a line. -/
def droppedField (env : Env) (line : Bytes) : ℤ :=
  (((recordAt env line).bind (·.lookup (lit "dropped_audit_records"))).bind asInt).getD 0

/-- The sum of the counts that are found in a log. -/
def droppedIn (env : Env) (log : Bytes) : ℤ := ((nonEmptyLines log).map (droppedField env)).sum

/-- No emit has raised, and what was not written is counted: in the log, beyond
what was there at first, or by the `AuditLog`. -/
def Accounted (env : Env) (d : Disk) (s : Tally) : Prop :=
  s.raised = false ∧ droppedIn env d.log + s.failed = droppedIn env s.disk.log + s.handle.dropped

/-- The log, or the buffer, ends with a line or is empty. -/
def EndsLines (data : Bytes) : Prop := ∀ b ∈ data.getLast?, b = lineFeedOctet

instance (data : Bytes) : Decidable (EndsLines data) := Option.decidableForallMem _

/-! ### Steps that are accounted for -/

/-- `json.dumps` and `str.encode` accept the record: it is not nested too deep,
has no integer that is too long, and its text has no surrogate. -/
def Encodable (env : Env) (d : Dict) : Prop :=
  Json.depth (.obj d.items) ≤ env.recursionLimit ∧ Json.shortInts (.obj d.items) = true ∧
    (Json.encode (.obj d.items)).any Utf8.isSurrogate = false

instance (d : Dict) : Decidable (Encodable env d) := by unfold Encodable; infer_instance

/-- The state in which `_write_record` begins. -/
def scanned (env : Env) (h : Handle) (d : Disk) : Except Exc Handle :=
  if h.hashChain then (scanTailState env d.log).map fun tail => { h with prevHash := tail.1, seq := tail.2 }
  else .ok h

/-- Neither the lock nor the tail of the log makes the emit raise, and the
record can be encoded. -/
def Returns (env : Env) (s : Tally) (c : EmitCall) : Prop :=
  (s.handle.hashChain = true → c.lock = none ∧ c.read = none) ∧
    ∃ h, scanned env s.handle s.disk = .ok h ∧
      Encodable env (envelope h (recordOf c.event c.outcome c.payload c.call))

instance (s : Tally) (c : EmitCall) : Decidable (Returns env s c) :=
  decidable_of_iff ((s.handle.hashChain = true → c.lock = none ∧ c.read = none) ∧
    ∃ h ∈ (scanned env s.handle s.disk).toOption, Encodable env (envelope h (recordOf c.event c.outcome c.payload c.call)))
    (by unfold Returns; cases scanned env s.handle s.disk <;> simp [Except.toOption])

/-- What reaches the log is a whole record, or nothing does; and a record that
carries a count is not put into the log, or kept in the buffer, by an emit that
fails. -/
def Counts (s : Tally) (c : EmitCall) : Prop :=
  match c.call.fault with
  | .none => EndsLines s.disk.log
  | .write n => n = 0
  | .flush n => n = 0 ∧ s.handle.dropped = 0
  | .fsync => EndsLines s.disk.log ∧ s.handle.dropped = 0

instance (s : Tally) (c : EmitCall) : Decidable (Counts s c) := by unfold Counts; split <;> infer_instance

def Accountable (env : Env) (s : Tally) (c : EmitCall) : Prop := Returns env s c ∧ Counts s c

instance (s : Tally) (c : EmitCall) : Decidable (Accountable env s c) := by unfold Accountable; infer_instance

/-! ### Lines and their counts -/

theorem nonEmptyLines_append {a : Bytes} (ha : EndsLines a) (b : Bytes) :
    nonEmptyLines (a ++ b) = nonEmptyLines a ++ nonEmptyLines b := by
  rcases List.eq_nil_or_concat' a with rfl | ⟨a, x, rfl⟩
  · rfl
  · obtain rfl : x = lineFeedOctet := ha x (by simp)
    unfold nonEmptyLines
    rw [List.append_assoc, List.singleton_append, List.splitOn_append_cons_self, List.splitOn_append_cons_self]
    simp

theorem droppedIn_append {a : Bytes} (ha : EndsLines a) (b : Bytes) :
    droppedIn env (a ++ b) = droppedIn env a + droppedIn env b := by
  rw [droppedIn, nonEmptyLines_append ha, List.map_append, List.sum_append]
  rfl

theorem endsLines_nil : EndsLines [] := fun b hb => by cases hb

theorem endsLines_line (a line : Bytes) : EndsLines (a ++ (line ++ [lineFeedOctet])) := by
  intro b hb
  rw [← List.append_assoc, List.getLast?_concat] at hb
  exact (Option.some.inj hb).symm

theorem droppedIn_line {line : Bytes} (hl : lineFeedOctet ∉ line) (hne : line ≠ []) :
    droppedIn env (line ++ [lineFeedOctet]) = droppedField env line := by
  have hlines : nonEmptyLines (line ++ [lineFeedOctet]) = [line] := by
    rw [nonEmptyLines, List.splitOn_append_cons_self_of_not_mem hl]
    simp [hne]
  rw [droppedIn, hlines]
  simp

/-! ### One emit -/

theorem serialise_eq_ok {d : Dict} {line : Str} :
    serialise env d = .ok line ↔ Json.depth (.obj d.items) ≤ env.recursionLimit ∧
      Json.shortInts (.obj d.items) = true ∧ Json.encode (.obj d.items) = line := by
  unfold serialise Json.dumps
  split_ifs with hdepth hints
  · refine iff_of_false (fun h => by cases h) fun h => ?_
    omega
  · have hle : Json.depth (.obj d.items) ≤ env.recursionLimit := by omega
    simp [hle, hints, Except.mapError]
  · simp [hints, Except.mapError]

theorem encodeLine_isOk {line : Str} : (∃ data, encodeLine line = .ok data) ↔ line.any Utf8.isSurrogate = false := by
  have hany : (line ++ [lineFeed]).any Utf8.isSurrogate = line.any Utf8.isSurrogate := by
    rw [List.any_append]
    exact Bool.or_false _
  rw [← hany, ← Utf8.encode_isSome]
  unfold encodeLine
  cases Utf8.encode (line ++ [lineFeed]) <;> simp

theorem encodable_iff {d : Dict} : Encodable env d ↔
    ∃ line data, serialise env d = .ok line ∧ encodeLine line = .ok data := by
  constructor
  · rintro ⟨hdepth, hints, hsurrogate⟩
    obtain ⟨data, hdata⟩ := encodeLine_isOk.mpr hsurrogate
    exact ⟨_, data, serialise_eq_ok.mpr ⟨hdepth, hints, rfl⟩, hdata⟩
  · rintro ⟨line, data, hline, hdata⟩
    obtain ⟨hdepth, hints, rfl⟩ := serialise_eq_ok.mp hline
    exact ⟨hdepth, hints, encodeLine_isOk.mp ⟨data, hdata⟩⟩

/-- What a record that can be encoded makes of the `AuditLog` and of the log. -/
structure Written (env : Env) (h : Handle) (d : Disk) (call : Call) (line : Bytes) (r : (Handle × Disk) × Option Exc) :
    Prop where
  returned : r.2 = none
  written : (r.1.2.log, r.1.1.buffer) = writeData call.fault d.log h.buffer (line ++ [lineFeedOctet])
  dropped : r.1.1.dropped = if call.fault = .none then 0 else h.dropped + 1

theorem get_envelope_dropped (h : Handle) (record : Dict) :
    (envelope h record).get (lit "dropped_audit_records") =
      if h.dropped = 0 then record.get (lit "dropped_audit_records") else some (.int h.dropped) := by
  have h1 : lit "dropped_audit_records" ≠ lit "seq" := by decide
  have h2 : lit "dropped_audit_records" ≠ lit "prev_hash" := by decide
  unfold envelope
  split_ifs
  · rw [Dict.get_set, Dict.get_set, if_neg h1, if_neg h2]
  · rw [Dict.get_set, if_pos rfl]
  · rfl
  · rw [Dict.get_set, if_pos rfl]

/-- The line of a record carries the count. -/
theorem writeRecord_written {h : Handle} {d : Disk} {record : Dict} (call : Call) (hne : record.items ≠ [])
    (hd : record.get (lit "dropped_audit_records") = none) (he : Encodable env (envelope h record)) :
    ∃ line ms, RecordLine env line ms ∧ droppedField env line = h.dropped ∧
      Written env h d call line (writeRecord env h d record call.fault call.tipFails) := by
  obtain ⟨text, data, htext, hdata⟩ := encodable_iff.mp he
  obtain ⟨line, ms, rfl, hr, hk⟩ := recordLine_of_serialise (envelope_ne_nil hne) htext hdata
  have hfield : droppedField env line = h.dropped := by
    unfold droppedField
    rw [hr.recordAt, Option.bind_some, hk, get_envelope_dropped, hd]
    split_ifs with h0
    · rw [h0]
      rfl
    · rfl
  refine ⟨line, ms, hr, hfield, ?_⟩
  unfold writeRecord
  rw [htext]
  dsimp only
  rw [hdata]
  dsimp only
  by_cases hf : call.fault = .none
  · rw [if_pos hf]
    by_cases hc : h.hashChain = true
    · rw [if_pos hc]
      exact ⟨rfl, rfl, by rw [if_pos hf]⟩
    · rw [if_neg hc]
      exact ⟨rfl, rfl, by rw [if_pos hf]⟩
  · rw [if_neg hf]
    exact ⟨rfl, rfl, by rw [if_neg hf]⟩

theorem writeRecord_raises {h : Handle} {d : Disk} {record : Dict} (call : Call)
    (he : ¬ Encodable env (envelope h record)) :
    (writeRecord env h d record call.fault call.tipFails).2 ≠ none := by
  unfold writeRecord
  split
  · simp
  · rename_i line hline
    split
    · simp
    · rename_i data hdata
      exact absurd (encodable_iff.mpr ⟨line, data, hline, hdata⟩) he

theorem emit_of_accepted {c : EmitCall} (ha : c.Accepted env) (h : Handle) (d : Disk) :
    emit env h d c.event c.outcome c.payload c.call =
      if h.hashChain then
        match scanTailState env d.log with
        | .error e => ((h, d), some e)
        | .ok (prevHash, seq) => writeRecord env { h with prevHash := prevHash, seq := seq } d
          (recordOf c.event c.outcome c.payload c.call) c.call.fault c.call.tipFails
      else writeRecord env h d (recordOf c.event c.outcome c.payload c.call) c.call.fault c.call.tipFails := by
  obtain ⟨houtcome, hcheck, -⟩ := ha
  rw [Option.isNone_iff_eq_none] at hcheck
  rw [emit, if_neg (not_not.mpr houtcome)]
  split
  · next e he =>
    rw [hcheck] at he
    cases he
  · rfl

/-- An accepted emit is the write of its record, if the lock and the tail of
the log allow it. -/
theorem emitAll_eq {s : Tally} {c : EmitCall} (ha : c.Accepted env) :
    (∃ e, emitAll env s.handle s.disk c = ((s.handle, s.disk), some e) ∧ ¬ Returns env s c) ∨
      ∃ h, scanned env s.handle s.disk = .ok h ∧ (s.handle.hashChain = true → c.lock = none ∧ c.read = none) ∧
        h.buffer = s.handle.buffer ∧ h.dropped = s.handle.dropped ∧
        emitAll env s.handle s.disk c =
          writeRecord env h s.disk (recordOf c.event c.outcome c.payload c.call) c.call.fault c.call.tipFails := by
  have hemit (h : Handle) := emit_of_accepted ha h s.disk
  unfold emitAll
  by_cases hc : s.handle.hashChain = true
  · rw [if_pos hc]
    cases hio : c.lock.or c.read with
    | some e =>
      refine .inl ⟨e, rfl, fun hr => ?_⟩
      obtain ⟨hlock, hread⟩ := hr.1 hc
      rw [hlock, hread] at hio
      cases hio
    | none =>
      dsimp only
      rw [hemit, if_pos hc]
      cases hscan : scanTailState env s.disk.log with
      | error e =>
        refine .inl ⟨e, rfl, fun hr => ?_⟩
        obtain ⟨h, hh, -⟩ := hr.2
        rw [scanned, if_pos hc, hscan] at hh
        cases hh
      | ok tail =>
        refine .inr ⟨{ s.handle with prevHash := tail.1, seq := tail.2 }, ?_, fun _ => ?_, rfl, rfl, rfl⟩
        · rw [scanned, if_pos hc, hscan]
          rfl
        · exact Option.or_eq_none_iff.mp hio
  · rw [if_neg hc]
    refine .inr ⟨s.handle, ?_, fun h => absurd h hc, rfl, rfl, ?_⟩
    · rw [scanned, if_neg hc]
    · rw [hemit, if_neg hc]

theorem get_recordOf_dropped {c : EmitCall} (ha : c.Accepted env) :
    (recordOf c.event c.outcome c.payload c.call).get (lit "dropped_audit_records") = none := by
  unfold recordOf
  rw [Dict.get_update (Option.isNone_iff_eq_none.mp ha.2.2)]
  rfl

/-- **When an accepted emit returns.** -/
theorem emitAll_returns_iff {s : Tally} {c : EmitCall} (ha : c.Accepted env) :
    (emitAll env s.handle s.disk c).2 = none ↔ Returns env s c := by
  have hne := (get_recordOf c.outcome c.call (Option.isNone_iff_eq_none.mp ha.2.1)).2
  rcases emitAll_eq (s := s) ha with ⟨e, he, hn⟩ | ⟨h, hscan, hio, -, -, he⟩
  · rw [he]
    exact iff_of_false (by simp) hn
  · rw [he]
    constructor
    · intro hnone
      refine ⟨hio, h, hscan, ?_⟩
      by_contra hn
      exact writeRecord_raises c.call hn hnone
    · rintro ⟨-, h', hscan', hencodable⟩
      obtain rfl := Except.ok.inj (hscan.symm.trans hscan')
      obtain ⟨line, ms, -, -, hw⟩ := writeRecord_written (d := s.disk) c.call hne (get_recordOf_dropped ha) hencodable
      exact hw.returned

/-- What an emit that returns has done. -/
theorem emitAll_written {s : Tally} {c : EmitCall} (ha : c.Accepted env) (hr : Returns env s c) :
    ∃ line ms, RecordLine env line ms ∧ droppedField env line = s.handle.dropped ∧
      Written env s.handle s.disk c.call line (emitAll env s.handle s.disk c) := by
  have hne := (get_recordOf c.outcome c.call (Option.isNone_iff_eq_none.mp ha.2.1)).2
  rcases emitAll_eq (s := s) ha with ⟨e, -, hn⟩ | ⟨h, hscan, -, hbuffer, hdropped, he⟩
  · exact absurd hr hn
  · obtain ⟨-, h', hscan', hencodable⟩ := hr
    obtain rfl := Except.ok.inj (hscan.symm.trans hscan')
    obtain ⟨line, ms, hline, hfield, hw⟩ :=
      writeRecord_written (d := s.disk) c.call hne (get_recordOf_dropped ha) hencodable
    rw [hdropped] at hfield
    refine ⟨line, ms, hline, hfield, ?_⟩
    rw [he]
    exact ⟨hw.returned, hbuffer ▸ hw.written, hdropped ▸ hw.dropped⟩

/-! ### All emits -/

/-- The buffer holds whole records, without a count. -/
structure TallyInv (env : Env) (d : Disk) (s : Tally) : Prop where
  lines : EndsLines s.handle.buffer
  buffer : droppedIn env s.handle.buffer = 0
  accounted : Accounted env d s

/-- **An emit that is accounted for** returns, and keeps the count. -/
theorem tallyInv_step {d : Disk} {s s' : Tally} {c : EmitCall} (hI : TallyInv env d s) (hc : Accountable env s c)
    (h : tallyStep env s c = some s') : TallyInv env d s' := by
  unfold tallyStep at h
  split_ifs at h with ha
  obtain ⟨line, ms, hline, hfield, hw⟩ := emitAll_written ha hc.1
  have hdata := @droppedIn_line env line hline.lineFeed hline.ne_nil
  obtain ⟨hraised, hcount⟩ := hI.accounted
  have hcounts := hc.2
  unfold Counts at hcounts
  obtain ⟨hreturned, hwritten, hdropped⟩ := hw
  rcases hr : emitAll env s.handle s.disk c with ⟨⟨h', d'⟩, e⟩
  rw [hr] at h hreturned hwritten hdropped
  dsimp only at h hreturned hwritten hdropped
  subst hreturned
  cases h
  have hnone : ((none : Option Exc).isSome = true ∨ c.call.fault ≠ .none) ↔ c.call.fault ≠ .none := by simp
  simp only [hnone]
  cases hf : c.call.fault with
  | none =>
    rw [hf] at hwritten hcounts hdropped
    obtain ⟨hlog, hbuffer⟩ := Prod.mk.inj hwritten
    refine ⟨?_, ?_, by simp [hraised], ?_⟩
    · rw [hbuffer]
      exact endsLines_nil
    · rw [hbuffer]
      rfl
    · dsimp only
      rw [hlog, List.append_assoc, droppedIn_append hcounts, droppedIn_append hI.lines, hI.buffer, hdata, hfield,
        hdropped]
      simp [hcount]
  | fsync =>
    rw [hf] at hwritten hcounts hdropped
    obtain ⟨hlog, hbuffer⟩ := Prod.mk.inj hwritten
    refine ⟨?_, ?_, by simp [hraised], ?_⟩
    · rw [hbuffer]
      exact endsLines_nil
    · rw [hbuffer]
      rfl
    · dsimp only
      rw [hlog, List.append_assoc, droppedIn_append hcounts.1, droppedIn_append hI.lines, hI.buffer, hdata, hfield,
        hdropped, hcounts.2]
      rw [hcounts.2] at hcount
      simp only [ne_eq, reduceCtorEq, not_false_eq_true, if_true, if_false]
      push_cast at hcount ⊢
      omega
  | write n =>
    rw [hf] at hwritten hcounts hdropped
    dsimp only at hcounts
    subst hcounts
    obtain ⟨hlog, hbuffer⟩ := Prod.mk.inj hwritten
    rw [List.take_zero, List.append_nil] at hlog
    rw [List.drop_zero] at hbuffer
    refine ⟨?_, ?_, by simp [hraised], ?_⟩
    · rw [hbuffer]
      exact hI.lines
    · rw [hbuffer]
      exact hI.buffer
    · dsimp only
      rw [hlog, hdropped]
      simp only [ne_eq, reduceCtorEq, not_false_eq_true, if_true, if_false]
      push_cast
      omega
  | flush n =>
    rw [hf] at hwritten hcounts hdropped
    obtain ⟨rfl, hzero⟩ := hcounts
    obtain ⟨hlog, hbuffer⟩ := Prod.mk.inj hwritten
    rw [List.take_zero, List.append_nil] at hlog
    rw [List.drop_zero] at hbuffer
    refine ⟨?_, ?_, by simp [hraised], ?_⟩
    · rw [hbuffer]
      exact endsLines_line _ _
    · rw [hbuffer, droppedIn_append hI.lines, hI.buffer, hdata, hfield, hzero]
      rfl
    · dsimp only
      rw [hlog, hdropped]
      simp only [ne_eq, reduceCtorEq, not_false_eq_true, if_true, if_false]
      push_cast
      omega

/-- **Every emit returns, and every lost record is counted**, in every run in
which nothing but the write of a record fails, the records can be encoded, and
no record with a count reaches the log or the buffer in an emit that fails. -/
theorem accounted_of_accountable {hashChain : Bool} {d : Disk} {s : Tally}
    (h : ((tallies env hashChain d).restrict (Accountable env)).Reachable s) : Accounted env d s := by
  have hI : TallyInv env d s := by
    refine h.inv ?_ ?_
    · rintro s rfl
      exact ⟨endsLines_nil, rfl, rfl, by simp⟩
    · rintro s c s' hI ⟨hc, hst⟩
      exact tallyInv_step hI hc hst
  exact hI.accounted

/-! ### Three runs -/

def keyExported (path : Str) (fault : Fault) : EmitCall where
  event := lit "key_exported_public"
  outcome := lit "ok"
  payload := { items := [(lit "path", .str path)], unique := rfl }
  call := sampleCall fault

/-- Two records that do not get to the file are counted in the next one. -/
theorem accounted_lost : ∃ s, System.runLabels (System.guarded (Accountable sampleEnv) (tallyStep sampleEnv))
    { handle := { hashChain := false }, disk := {} }
    [keyExported (lit "a") (.flush 0), keyExported (lit "b") (.write 0), keyExported (lit "c") .none] = some s ∧
      s.failed = 2 ∧ Accounted sampleEnv {} s := by
  have hrun : ((System.runLabels (System.guarded (Accountable sampleEnv) (tallyStep sampleEnv))
      { handle := { hashChain := false }, disk := {} }
      [keyExported (lit "a") (.flush 0), keyExported (lit "b") (.write 0), keyExported (lit "c") .none]).any
        fun s => s.failed = 2) = true := by
    decide +kernel
  obtain ⟨s, hs, hfailed⟩ := (Option.any_eq_true _ _).mp hrun
  exact ⟨s, hs, of_decide_eq_true hfailed, @accounted_of_accountable sampleEnv false {} s
    (System.reachable_restrict_of_runLabels _ (.init rfl) hs)⟩

/-- A path with an octet that is not UTF-8, which Python reads as a surrogate,
makes an emit raise; and a record with a count that `fsync` fails for counts
twice. -/
theorem not_accounted : (∃ s, System.runLabels (tallyStep sampleEnv) { handle := { hashChain := false }, disk := {} }
      [keyExported [0xDCFF] .none] = some s ∧ s.raised = true) ∧
    ∃ s, System.runLabels (tallyStep sampleEnv) { handle := { hashChain := false }, disk := {} }
        [keyExported (lit "a") .fsync, keyExported (lit "b") .fsync, keyExported (lit "c") .none] = some s ∧
      s.raised = false ∧ s.failed = 2 ∧ s.handle.dropped = 0 ∧ droppedIn sampleEnv s.disk.log = 3 := by
  have hraises : ((System.runLabels (tallyStep sampleEnv) { handle := { hashChain := false }, disk := {} }
      [keyExported [0xDCFF] .none]).any fun s => s.raised) = true := by
    decide +kernel
  have htwice : ((System.runLabels (tallyStep sampleEnv) { handle := { hashChain := false }, disk := {} }
      [keyExported (lit "a") .fsync, keyExported (lit "b") .fsync, keyExported (lit "c") .none]).any fun s =>
        s.raised = false ∧ s.failed = 2 ∧ s.handle.dropped = 0 ∧ droppedIn sampleEnv s.disk.log = 3) = true := by
    decide +kernel
  exact ⟨(Option.any_eq_true _ _).mp hraises, by simpa using (Option.any_eq_true _ _).mp htwice⟩

end AuditLog
end GpgMeister
