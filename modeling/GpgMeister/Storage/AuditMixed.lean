/-
# Logs with records of every kind

A log that sessions without a chain have written, then versions before 1.0.4,
whose records carry a hash and no number, then sessions with a chain. The
writer links its first record to whatever the last line is. The verifier wants
the empty hash in the first record that carries one.

* `agrees_iff`: when the verifier accepts such a log.
-/
import GpgMeister.Storage.AuditCrash

namespace GpgMeister
namespace AuditLog

variable {env : Env}

/-! ### Sessions without a chain -/

/-- `perform`, where the log is opened with `hash_chain=False`. -/
def performPlain (env : Env) (s : State) : Action → Option (State × Bool)
  | .open call =>
    match openLog env s.disk false call with
    | (some h, d) => some ({ disk := d, handles := s.handles ++ [h] }, true)
    | (none, d) => some ({ s with disk := d }, false)
  | a => perform env s a

def plainStep (env : Env) (s : State) (a : Action) : Option State :=
  match performPlain env s a with
  | some (s, _) => if s.disk.log.length ≤ maxFileSize then some s else none
  | none => none

/-- Any number of sessions without a chain on a log that is empty at first. -/
def plainSessions (env : Env) : System State Action := .ofStep (· = {}) (plainStep env)

/-- Whatever reaches the log is a whole record, on a line of its own. -/
def WritesWhole (s : State) (a : Action) : Prop :=
  a.call.fault.lands = true → a.buffer s = [] ∧ a.call.fault.tears = false

instance (s : State) (a : Action) : Decidable (WritesWhole s a) := by unfold WritesWhole; infer_instance

/-- A record without a hash. -/
def PlainRecord (env : Env) (line : Bytes) : Prop :=
  ∃ ms, RecordLine env line ms ∧ ms.lookup (lit "prev_hash") = none

/-- What an emit without a chain leaves. -/
structure PlainEmitted (env : Env) (d : Disk) (h' : Handle) (d' : Disk) : Prop where
  hashChain : h'.hashChain = false
  tip : d'.tip = d.tip
  log : d'.log = d.log ∨ ∃ line, PlainRecord env line ∧ d'.log = d.log ++ (line ++ [lineFeedOctet])

theorem writeRecord_plain {h : Handle} {d : Disk} {record : Dict} {call : Call} (hc : h.hashChain = false)
    (hp : record.get (lit "prev_hash") = none) (hne : record.items ≠ [])
    (hw : call.fault.lands = true → h.buffer = [] ∧ call.fault.tears = false) :
    let r := (writeRecord env h d record call.fault call.tipFails).1
    PlainEmitted env d r.1 r.2 := by
  have hcn : ¬ h.hashChain = true := by simp [hc]
  have hget : (envelope h record).get (lit "prev_hash") = none := by
    have hkey : lit "prev_hash" ≠ lit "dropped_audit_records" := by decide
    rw [envelope, if_neg hcn]
    split_ifs
    · exact hp
    · rw [Dict.get_set, if_neg hkey, hp]
  unfold writeRecord
  split
  · exact ⟨hc, rfl, .inl rfl⟩
  · rename_i text htext
    split
    · exact ⟨hc, rfl, .inl rfl⟩
    · rename_i data hdata
      obtain ⟨line, ms, rfl, hr, hk⟩ := recordLine_of_serialise (envelope_ne_nil hne) htext hdata
      have hplain : PlainRecord env line := ⟨ms, hr, by rw [hk, hget]; rfl⟩
      have hlog : (writeData call.fault d.log h.buffer (line ++ [lineFeedOctet])).1 = d.log ∨
          (writeData call.fault d.log h.buffer (line ++ [lineFeedOctet])).1 = d.log ++ (line ++ [lineFeedOctet]) := by
        by_cases hlands : call.fault.lands = true
        · obtain ⟨hbuf, htears⟩ := hw hlands
          rw [hbuf]
          exact .inr (writeData_of_not_tears hlands htears _ _)
        · exact .inl (writeData_of_not_lands hlands _ _ _)
      dsimp only
      by_cases hf : call.fault = .none
      · rw [if_pos hf, if_neg hcn]
        exact ⟨hc, rfl, hlog.imp_right fun h => ⟨line, hplain, h⟩⟩
      · rw [if_neg hf]
        exact ⟨hc, rfl, hlog.imp_right fun h => ⟨line, hplain, h⟩⟩

theorem emit_plain {h : Handle} (d : Disk) (event outcome : Str) (payload : Dict) (call : Call)
    (hc : h.hashChain = false) (hw : call.fault.lands = true → h.buffer = [] ∧ call.fault.tears = false) :
    let r := (emit env h d event outcome payload call).1
    PlainEmitted env d r.1 r.2 := by
  have hcn : ¬ h.hashChain = true := by simp [hc]
  unfold emit
  by_cases ho : outcome ∉ validOutcomes
  · rw [if_pos ho]
    exact ⟨hc, rfl, .inl rfl⟩
  · rw [if_neg ho]
    cases hcheck : checkPayload env event payload with
    | some e => exact ⟨hc, rfl, .inl rfl⟩
    | none =>
      obtain ⟨hp, hne⟩ := get_recordOf outcome call hcheck
      dsimp only
      rw [if_neg hcn]
      exact writeRecord_plain hc hp hne hw

/-- Records without a hash, and no tip. -/
structure PlainLog (env : Env) (s : State) : Prop where
  hashChain : ∀ h ∈ s.handles, h.hashChain = false
  log : ∃ lines, s.disk.log = joinLines lines ∧ ∀ line ∈ lines, PlainRecord env line
  tip : s.disk.tip = none

theorem PlainEmitted.plainLog {s : State} {h' : Handle} {d' : Disk} {handles : List Handle}
    (he : PlainEmitted env s.disk h' d') (hI : PlainLog env s)
    (hmem : ∀ x ∈ handles, x ∈ s.handles ∨ x = h') : PlainLog env { disk := d', handles := handles } := by
  refine ⟨fun x hx => ?_, ?_, he.tip.trans hI.tip⟩
  · rcases hmem x hx with hx | rfl
    · exact hI.hashChain x hx
    · exact he.hashChain
  · obtain ⟨lines, hlog, hl⟩ := hI.log
    rcases he.log with heq | ⟨line, hline, heq⟩
    · exact ⟨lines, heq.trans hlog, hl⟩
    · refine ⟨lines ++ [line], ?_, ?_⟩
      · rw [heq, hlog, joinLines_concat, List.append_assoc]
      · intro l hm
        rcases List.mem_append.mp hm with hm | hm
        · exact hl l hm
        · exact List.mem_singleton.mp hm ▸ hline

/-- **A step that writes whole records** adds at most a record without a hash. -/
theorem plainLog_perform {s s' : State} {a : Action} {returns : Bool} (hI : PlainLog env s) (hw : WritesWhole s a)
    (h : performPlain env s a = some (s', returns)) : PlainLog env s' := by
  cases a with
  | «open» call =>
    have he := @emit_plain env { hashChain := false } s.disk (lit "audit_log_opened") (lit "ok")
      { items := [(lit "hash_chain", .bool false)], unique := rfl } call rfl fun hl => ⟨rfl, (hw hl).2⟩
    unfold performPlain openLog at h
    dsimp only at h he
    rw [if_neg (by decide)] at h
    split at h
    · rename_i h' d' heq
      cases h
      split at heq
      · rename_i hemit
        cases heq
        rw [hemit] at he
        exact he.plainLog hI fun x hx => by simpa using hx
      · cases heq
    · rename_i d' heq
      cases h
      split at heq
      · cases heq
      · rename_i hemit
        cases heq
        rw [hemit] at he
        exact he.plainLog hI fun x hx => .inl hx
  | emit i event outcome payload call =>
    unfold performPlain perform at h
    dsimp only at h
    cases hh : s.handles[i]? with
    | none =>
      rw [hh] at h
      cases h
    | some x =>
      rw [hh] at h
      cases h
      have hbuf : Action.buffer s (.emit i event outcome payload call) = x.buffer := by
        simp [Action.buffer, hh]
      have he := @emit_plain env x s.disk event outcome payload call (hI.hashChain x (List.mem_of_getElem? hh))
        (hbuf ▸ hw)
      exact he.plainLog hI fun y hy => List.mem_or_eq_of_mem_set hy

theorem plainLog_of_plainSessions {s : State} (h : ((plainSessions env).restrict WritesWhole).Reachable s) :
    PlainLog env s := by
  refine h.inv ?_ ?_
  · rintro s rfl
    exact ⟨fun x hx => absurd hx List.not_mem_nil, ⟨[], rfl, fun x hx => absurd hx List.not_mem_nil⟩, rfl⟩
  · rintro s a s' hI ⟨hw, hst⟩
    have hst : plainStep env s a = some s' := hst
    unfold plainStep at hst
    split at hst
    · rename_i s1 returns hp
      split_ifs at hst
      cases hst
      exact plainLog_perform hI hw hp
    · cases hst

/-! ### Records before 1.0.4 -/

/-- Records of which each carries the hash of the one before it, the first one
`prev`, and no number. -/
def LegacyChain (env : Env) : Str → List Bytes → Prop
  | _, [] => True
  | prev, line :: lines =>
    (∃ ms, RecordLine env line ms ∧ ms.lookup (lit "prev_hash") = some (.str prev) ∧ ms.lookup (lit "seq") = none) ∧
      LegacyChain env (env.sha256 line) lines

theorem LegacyChain.records : ∀ {prev : Str} {lines : List Bytes}, LegacyChain env prev lines → Records env lines
  | _, [], _ => records_nil
  | _, line :: lines, ⟨⟨ms, hr, _⟩, hl⟩ => by
    intro l hm
    rcases List.mem_cons.mp hm with rfl | hm
    · exact ⟨ms, hr⟩
    · exact hl.records l hm

theorem LegacyChain.last {line : Bytes} : ∀ {prev : Str} {lines : List Bytes}, LegacyChain env prev (lines ++ [line]) →
    ∃ ms, RecordLine env line ms ∧ ms.lookup (lit "seq") = none
  | _, [], ⟨⟨ms, hr, _, hs⟩, _⟩ => ⟨ms, hr, hs⟩
  | _, _ :: _, h => LegacyChain.last h.2

/-! ### What the verifier makes of them -/

theorem foldlM_plain : ∀ {lines : List Bytes} {w : Walk}, (∀ line ∈ lines, PlainRecord env line) → w.prevHash = none →
    lines.foldlM (verifyLine env) w = .ok { w with count := w.count + lines.length }
  | [], _, _, _ => rfl
  | line :: lines, w, h, hw => by
    rw [List.forall_mem_cons] at h
    obtain ⟨ms, hr, hp⟩ := h.1
    have hnull : storedHash ms = .null := by rw [storedHash, hp]; rfl
    have hline : verifyLine env w line = .ok { w with count := w.count + 1 } :=
      (verifyLine_eq_ok_iff hr.ne_nil).mpr ⟨ms, hr.recordAt, .inl ⟨hnull, hw, rfl⟩⟩
    rw [List.foldlM_cons, hline]
    refine (foldlM_plain (w := { w with count := w.count + 1 }) h.2 hw).trans ?_
    rw [List.length_cons, Nat.add_assoc, Nat.add_comm 1]

theorem foldlM_legacy : ∀ {lines : List Bytes} {w : Walk}, LegacyChain env (w.prevHash.getD []) lines →
    lines.foldlM (verifyLine env) w =
      .ok { w with prevHash := (lines.getLast?.map env.sha256).or w.prevHash, count := w.count + lines.length }
  | [], _, _ => rfl
  | line :: lines, w, ⟨⟨ms, hr, hp, hs⟩, hl⟩ => by
    have hstored : storedHash ms = .str (w.prevHash.getD []) := by rw [storedHash, hp]; rfl
    have hseq : storedSeq ms = none := by rw [storedSeq, hs]; rfl
    have hline : verifyLine env w line =
        .ok { w with prevHash := some (env.sha256 line), count := w.count + 1 } := by
      refine (verifyLine_eq_ok_iff hr.ne_nil).mpr ⟨ms, hr.recordAt, .inr ⟨hstored, ?_, ?_⟩⟩
      · rw [hseq]
        exact fun n hn => absurd hn (by simp)
      · rw [hseq]
        rfl
    have hlast : (lines.getLast?.map env.sha256).or (some (env.sha256 line)) =
        ((line :: lines).getLast?.map env.sha256).or w.prevHash := by
      rw [List.getLast?_cons]
      cases lines.getLast? <;> rfl
    rw [List.foldlM_cons, hline]
    refine (foldlM_legacy (w := { w with prevHash := some (env.sha256 line), count := w.count + 1 }) hl).trans ?_
    rw [hlast, List.length_cons, Nat.add_assoc, Nat.add_comm 1]

/-- The verifier passes over records without a hash at the beginning. -/
theorem consistent_plain {seq : ℤ} {lines : List Bytes} : ∀ {plain : List Bytes},
    (∀ line ∈ plain, PlainRecord env line) → Consistent env none seq (plain ++ lines) → Consistent env none seq lines
  | [], _, h => h
  | line :: plain, hp, h => by
    rw [List.forall_mem_cons] at hp
    obtain ⟨ms, hr, hnone⟩ := hp.1
    have hnull : storedHash ms = .null := by rw [storedHash, hnone]; rfl
    obtain ⟨ms', hms, ⟨-, -, hc⟩ | ⟨hs, -, -⟩⟩ := h
    · exact consistent_plain hp.2 hc
    · obtain rfl := Option.some.inj (hr.recordAt.symm.trans hms)
      rw [hnull] at hs
      cases hs

/-- The first record with a hash carries the empty one. -/
theorem eq_nil_of_consistent {seq : ℤ} {line : Bytes} {lines : List Bytes} {ms : List (Str × Json)} {prev : Str}
    (hr : RecordLine env line ms) (hp : ms.lookup (lit "prev_hash") = some (.str prev))
    (h : Consistent env none seq (line :: lines)) : prev = [] := by
  have hstored : storedHash ms = .str prev := by rw [storedHash, hp]; rfl
  obtain ⟨ms', hms, hcases⟩ := h
  obtain rfl := Option.some.inj (hr.recordAt.symm.trans hms)
  rw [hstored] at hcases
  rcases hcases with ⟨hnull, -⟩ | ⟨hs, -⟩
  · cases hnull
  · exact Json.str.inj hs

/-! ### Sessions with a chain after them -/

/-- Any number of sessions with a chain on a log that holds these octets. -/
def sessionsAfter (env : Env) (log : Bytes) : System State Action :=
  .ofStep (fun s => s = { disk := { log := log } } ∧ log.length ≤ maxFileSize) (step env)

theorem settledAfter_of_sessionsAfter {base : List Bytes} {s : State} (hb : Records env base)
    (h : ((sessionsAfter env (joinLines base)).restrict Settles).Reachable s) :
    SettledAfter env base s.disk ∧ s.disk.log.length ≤ maxFileSize := by
  have hI : (∀ h ∈ s.handles, h.hashChain = true) ∧ SettledAfter env base s.disk ∧
      s.disk.log.length ≤ maxFileSize := by
    refine h.inv (P := fun s => (∀ h ∈ s.handles, h.hashChain = true) ∧ SettledAfter env base s.disk ∧
      s.disk.log.length ≤ maxFileSize) ?_ ?_
    · rintro s ⟨rfl, hsize⟩
      exact ⟨fun x hx => absurd hx List.not_mem_nil, ⟨[], by rw [List.append_nil], trivial, .inl rfl⟩, hsize⟩
    · rintro s a s' ⟨hc, hd, -⟩ ⟨hs, hst⟩
      obtain ⟨returns, hp, hsize⟩ := step_eq_some hst
      exact ⟨hashChain_perform hc hp, settledAfter_perform hb hc hd hs hp, hsize⟩
  exact hI.2

theorem joinLines_append (lines lines' : List Bytes) : joinLines (lines ++ lines') = joinLines lines ++ joinLines lines' :=
  List.flatMap_append

/-- The hash of a record is not the empty one. -/
theorem eq_nil_of_tip_eq_nil {lines : List Bytes} (h : HashChain.tip env.sha256 [] lines = []) : lines = [] := by
  rcases List.eq_nil_or_concat' lines with rfl | ⟨ls, l, rfl⟩
  · rfl
  · rw [HashChain.tip_concat] at h
    have hlen := env.sha256_length l
    rw [h] at hlen
    cases hlen

/-- **Writer and verifier agree** on a log that sessions without a chain, old
versions and sessions with a chain have written, if and only if nothing comes
before the chain, or no chain comes after the first sessions, or old records
begin it, with the empty hash. -/
theorem agrees_iff {s0 s : State} {start : Str} {legacy : List Bytes}
    (h0 : ((plainSessions env).restrict WritesWhole).Reachable s0) (hq : LegacyChain env start legacy)
    (h : ((sessionsAfter env (s0.disk.log ++ joinLines legacy)).restrict Settles).Reachable s) :
    (∃ n, verifyChain env s.disk = .ok (true, n)) ↔
      (s0.disk.log = [] ∧ legacy = []) ∨ s.disk.log = s0.disk.log ∨ (legacy ≠ [] ∧ start = []) := by
  obtain ⟨-, ⟨plain, hplain, hp⟩, -⟩ := plainLog_of_plainSessions h0
  have hpr : Records env plain := fun line hm => (hp line hm).imp fun _ hr => hr.1
  have hb : Records env (plain ++ legacy) := hpr.append hq.records
  rw [hplain, ← joinLines_append] at h
  obtain ⟨hd, hsize⟩ := settledAfter_of_sessionsAfter hb h
  have hwalk := foldlM_plain (w := {}) hp rfl
  constructor
  · rintro ⟨n, hn⟩
    obtain ⟨lines, hlog, hl, -⟩ := hd
    have hc := consistent_of_verifyChain hn
    rw [hlog, nonEmptyLines_joinLines (hb.append hl.records), List.append_assoc] at hc
    have hc := consistent_plain hp hc
    cases legacy with
    | cons line rest =>
      obtain ⟨⟨ms, hr, hprev, -⟩, -⟩ := hq
      exact .inr (.inr ⟨List.cons_ne_nil _ _, eq_nil_of_consistent hr hprev hc⟩)
    | nil =>
      cases lines with
      | nil => exact .inr (.inl (by rw [hlog, hplain, List.append_nil, List.append_nil]))
      | cons line rest =>
        obtain ⟨ms, hr, hprev, -⟩ := hl.1.recordLine
        have htip := eq_nil_of_consistent hr hprev hc
        rw [List.append_nil] at htip
        rw [hplain, eq_nil_of_tip_eq_nil htip]
        exact .inl ⟨rfl, rfl⟩
  · rintro (⟨hnil, rfl⟩ | hsame | ⟨hne, rfl⟩)
    · rw [hplain] at hnil
      have hplain : plain = [] := by
        rw [← nonEmptyLines_joinLines hpr, hnil]
        rfl
      subst hplain
      exact ⟨_, verifyChain_of_settledAfter hb rfl rfl rfl hd hsize⟩
    · rw [verifyChain_eq, hsame, hplain, nonEmptyLines_joinLines hpr, hwalk]
      exact ⟨_, rfl⟩
    · obtain ⟨ls, l, rfl⟩ := (List.eq_nil_or_concat' legacy).resolve_left hne
      obtain ⟨ms, hr, hs⟩ := hq.last
      have hseq : nextSeq env (plain ++ (ls ++ [l])) = 0 := by
        rw [nextSeq, ← List.append_assoc, List.getLast?_concat]
        dsimp only
        rw [hr.seqAfter, hs]
        rfl
      have hfold : (plain ++ (ls ++ [l])).foldlM (verifyLine env) {} =
          .ok { prevHash := some (env.sha256 l), count := 0 + plain.length + (ls ++ [l]).length } := by
        rw [List.foldlM_append, hwalk]
        refine (foldlM_legacy (w := { count := 0 + plain.length }) hq).trans ?_
        rw [List.getLast?_concat]
        rfl
      refine ⟨_, verifyChain_of_settledAfter hb hfold ?_ (by rw [hseq]; rfl) hd hsize⟩
      rw [← List.append_assoc, HashChain.tip_concat]
      rfl

/-! ### Two logs

The real digests of the lines that are looked at below. -/

/-- What a session without a chain writes when it opens the log. -/
def plainOpened : Bytes :=
  ascii "\x7b\"actor\":\"u\",\"event\":\"audit_log_opened\",\"hash_chain\":false,\"outcome\":\"ok\"," ++
    ascii "\"ts\":\"2026-01-01T00:00:00Z\"\x7d"

/-- The same of a session with a chain, after a record with the hash `prev`;
`seq` is the field for the number. -/
def chainOpened (prev seq : String) : Bytes :=
  ascii "\x7b\"actor\":\"u\",\"event\":\"audit_log_opened\",\"hash_chain\":true,\"outcome\":\"ok\"," ++
    ascii "\"prev_hash\":\"" ++ ascii prev ++ ascii "\"," ++ ascii seq ++ ascii "\"ts\":\"2026-01-01T00:00:00Z\"\x7d"

def plainDigest : String := "30d7df749bb49946930bc113d49f036bef4f59ce9f76749e725afc3c05388d73"

def legacyDigest : String := "d4956cc5b5f92f3e2b640e2f25b7c7150f5a1dbe791a3fe05190ad4c3c4ec26d"

def mixedHash (data : Bytes) : Str :=
  if data = plainOpened then lit plainDigest
  else if data = chainOpened "" "" then lit legacyDigest
  else if data = chainOpened legacyDigest "\"seq\":0," then
    lit "075379c8568adf769cd0a1e534fac1daad62353a41cca1e1a2289bd50e6e45c7"
  else if data = chainOpened plainDigest "\"seq\":0," then
    lit "af35c4b93681bf2d3e0ce6c2c36a96715e7975f01bb616270d985d337a6d6cf3"
  else List.replicate 64 0x30

theorem mixedHash_spec (data : Bytes) :
    (mixedHash data).length = 64 ∧ ∀ c ∈ mixedHash data, c ∈ (List.range 16).map Json.hexDigit := by
  have h (d : Str) (hd : (d.length == 64 && d.all fun c => c ∈ (List.range 16).map Json.hexDigit) = true) :
      d.length = 64 ∧ ∀ c ∈ d, c ∈ (List.range 16).map Json.hexDigit := by
    simpa using hd
  unfold mixedHash
  split_ifs <;> exact h _ (by decide +kernel)

def mixedEnv : Env :=
  { sampleEnv with
    sha256 := mixedHash
    sha256_length := fun data => (mixedHash_spec data).1
    sha256_hex := fun data => (mixedHash_spec data).2 }

theorem parse_opened : ((Utf8.encode ((chainOpened "" "").map fun b => Fin.ofNat _ b.toNat) = some (chainOpened "" "")) &&
      match Json.loads 1000 ((chainOpened "" "").map fun b => Fin.ofNat _ b.toNat) with
      | .ok (.obj ms) =>
        (match ms.lookup (lit "prev_hash") with
        | some (.str s) => s = []
        | _ => false) && (ms.lookup (lit "seq")).isNone
      | _ => false) = true := by
  decide +kernel

/-- An old record that begins a chain. -/
theorem legacyChain_opened : LegacyChain mixedEnv [] [chainOpened "" ""] := by
  have hparse := parse_opened
  rw [Bool.and_eq_true, decide_eq_true_eq] at hparse
  obtain ⟨htext, hparse⟩ := hparse
  split at hparse
  · rename_i ms hms
    rw [Bool.and_eq_true, Option.isNone_iff_eq_none] at hparse
    obtain ⟨hprev, hseq⟩ := hparse
    split at hprev
    · rename_i s hs
      rw [of_decide_eq_true hprev] at hs
      refine ⟨⟨ms, ⟨⟨_, htext, hms⟩, by decide +kernel, ?_⟩, hs, hseq⟩, trivial⟩
      exact ⟨(chainOpened "" "").tail.tail.dropLast, by decide +kernel⟩
    · cases hprev
  · cases hparse

/-- A session without a chain, an old record and a session with a chain. -/
theorem agrees_opened : ∃ s0 s,
    System.runLabels (System.guarded WritesWhole (plainStep mixedEnv)) {} [.open (sampleCall .none)] = some s0 ∧
      System.runLabels (System.guarded Settles (step mixedEnv))
          { disk := { log := s0.disk.log ++ joinLines [chainOpened "" ""] } } [.open (sampleCall .none)] = some s ∧
      ∃ n, verifyChain mixedEnv s.disk = .ok (true, n) := by
  have hrun : ((System.runLabels (System.guarded WritesWhole (plainStep mixedEnv)) {}
      [.open (sampleCall .none)]).any fun s0 =>
        (s0.disk.log ++ joinLines [chainOpened "" ""]).length ≤ maxFileSize &&
          (System.runLabels (System.guarded Settles (step mixedEnv))
            { disk := { log := s0.disk.log ++ joinLines [chainOpened "" ""] } } [.open (sampleCall .none)]).isSome) =
      true := by
    decide +kernel
  obtain ⟨s0, h0, hlast⟩ := (Option.any_eq_true _ _).mp hrun
  rw [Bool.and_eq_true, decide_eq_true_eq] at hlast
  obtain ⟨s, hs⟩ := Option.isSome_iff_exists.mp hlast.2
  have hreach0 : ((plainSessions mixedEnv).restrict WritesWhole).Reachable s0 :=
    System.reachable_restrict_of_runLabels _ (.init rfl) h0
  have hreach : ((sessionsAfter mixedEnv (s0.disk.log ++ joinLines [chainOpened "" ""])).restrict Settles).Reachable s :=
    System.reachable_restrict_of_runLabels _ (.init ⟨rfl, hlast.1⟩) hs
  exact ⟨s0, s, h0, hs,
    (agrees_iff hreach0 legacyChain_opened hreach).mpr (.inr (.inr ⟨List.cons_ne_nil _ _, rfl⟩))⟩

/-- The hash-chain setting is switched on after one session. -/
theorem not_agrees_switched : ∃ s0 s,
    System.runLabels (plainStep mixedEnv) {} [.open (sampleCall .none)] = some s0 ∧
      System.runLabels (step mixedEnv) { disk := { log := s0.disk.log } } [.open (sampleCall .none)] = some s ∧
      verifyChain mixedEnv s.disk = .ok (false, 2) := by
  have hrun : ((System.runLabels (plainStep mixedEnv) {} [.open (sampleCall .none)]).any fun s0 =>
      (System.runLabels (step mixedEnv) { disk := { log := s0.disk.log } } [.open (sampleCall .none)]).any fun s =>
        verifyChain mixedEnv s.disk = .ok (false, 2)) = true := by
    decide +kernel
  obtain ⟨s0, h0, hlast⟩ := (Option.any_eq_true _ _).mp hrun
  obtain ⟨s, hs, hfalse⟩ := (Option.any_eq_true _ _).mp hlast
  exact ⟨s0, s, h0, hs, of_decide_eq_true hfalse⟩

end AuditLog
end GpgMeister
