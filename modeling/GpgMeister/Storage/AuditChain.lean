/-
# The audit log's hash chain

What sessions in hash-chain mode write is a chain that the verifier accepts,
as long as every record reaches the file whole: no bytes of an earlier record
are waiting in the buffer, the file ends with a line, and that line lies in
the part of the file that the writer looks at.

`verifyChain_of_clean`: then the verifier accepts, after every emit that
succeeds.
-/
import GpgMeister.Storage.AuditLog

namespace GpgMeister
namespace AuditLog

variable {env : Env}

/-! ### Records -/

/-- A line that is the text of a record with these items. -/
structure RecordLine (env : Env) (line : Bytes) (ms : List (Str × Json)) : Prop where
  parsed : ∃ text, Utf8.encode text = some line ∧ Json.loads env.recursionLimit text = .ok (.obj ms)
  lineFeed : lineFeedOctet ∉ line
  braces : ∃ r, line = 0x7B :: 0x22 :: r ++ [0x7D]

theorem RecordLine.ne_nil {line : Bytes} {ms : List (Str × Json)} (h : RecordLine env line ms) : line ≠ [] := by
  obtain ⟨r, rfl⟩ := h.braces
  simp

/-- No white space is stripped from a record. -/
theorem RecordLine.stripBytes {line : Bytes} {ms : List (Str × Json)} (h : RecordLine env line ms) :
    stripBytes line = line := by
  obtain ⟨r, rfl⟩ := h.braces
  have hl : ¬ isSpaceOctet 0x7B = true := by decide
  have hr : ¬ isSpaceOctet 0x7D = true := by decide
  rw [AuditLog.stripBytes, List.cons_append, List.dropWhile_cons_of_neg hl, ← List.cons_append,
    List.rdropWhile_concat_neg _ _ _ hr]

/-- The number after that of a record. -/
theorem RecordLine.seqAfter {line : Bytes} {ms : List (Str × Json)} (h : RecordLine env line ms) :
    seqAfter env line =
      .ok (match (ms.lookup (lit "seq")).bind asInt with
        | some seq => if 0 ≤ seq then seq.toNat + 1 else 0
        | none => 0) := by
  obtain ⟨text, ht, hm⟩ := h.parsed
  obtain ⟨r, rfl⟩ := h.braces
  have hl : Json.loadsBytes env.recursionLimit (0x7B :: 0x22 :: r ++ [0x7D]) =
      some (Json.loads env.recursionLimit text) := Json.loadsBytes_encode ht (by decide) (by decide)
  rw [hm] at hl
  rw [AuditLog.seqAfter, hl]
  dsimp only
  cases (ms.lookup (lit "seq")).bind asInt with
  | some seq => rfl
  | none => rfl

/-- A line that is the record with this hash and this counter. -/
structure ChainRecord (env : Env) (line : Bytes) (prev : Str) (seq : ℕ) : Prop where
  parsed : ∃ text ms, Utf8.encode text = some line ∧ Json.loads env.recursionLimit text = .ok (.obj ms) ∧
    ms.lookup (lit "prev_hash") = some (.str prev) ∧ ms.lookup (lit "seq") = some (.int seq)
  lineFeed : lineFeedOctet ∉ line
  braces : ∃ r, line = 0x7B :: 0x22 :: r ++ [0x7D]

theorem ChainRecord.recordLine {line : Bytes} {prev : Str} {seq : ℕ} (h : ChainRecord env line prev seq) :
    ∃ ms, RecordLine env line ms ∧ ms.lookup (lit "prev_hash") = some (.str prev) ∧
      ms.lookup (lit "seq") = some (.int seq) := by
  obtain ⟨text, ms, ht, hm, hp, hs⟩ := h.parsed
  exact ⟨ms, ⟨⟨text, ht, hm⟩, h.lineFeed, h.braces⟩, hp, hs⟩

theorem ChainRecord.ne_nil {line : Bytes} {prev : Str} {seq : ℕ} (h : ChainRecord env line prev seq) :
    line ≠ [] := by
  obtain ⟨ms, hr, -⟩ := h.recordLine
  exact hr.ne_nil

theorem ChainRecord.seqAfter {line : Bytes} {prev : Str} {seq : ℕ} (h : ChainRecord env line prev seq) :
    seqAfter env line = .ok (seq + 1) := by
  obtain ⟨ms, hr, -, hs⟩ := h.recordLine
  rw [hr.seqAfter, hs]
  simp [asInt]

/-- What the writer serialises. -/
theorem get_envelope (h : Handle) (record : Dict) (hc : h.hashChain = true) :
    (envelope h record).get (lit "prev_hash") = some (.str (h.prevHash.getD [])) ∧
      (envelope h record).get (lit "seq") = some (.int h.seq) ∧ (envelope h record).items ≠ [] := by
  have h1 : lit "prev_hash" ≠ lit "seq" := by decide
  have h2 : lit "prev_hash" ≠ lit "dropped_audit_records" := by decide
  have h3 : lit "seq" ≠ lit "dropped_audit_records" := by decide
  unfold envelope
  rw [if_pos hc]
  dsimp only
  split_ifs
  · refine ⟨?_, ?_, Dict.set_ne_nil _ _ _ _⟩
    · rw [Dict.get_set, Dict.get_set, if_neg h1, if_pos rfl]
    · rw [Dict.get_set, if_pos rfl]
  · refine ⟨?_, ?_, Dict.set_ne_nil _ _ _ _⟩
    · rw [Dict.get_set, Dict.get_set, Dict.get_set, if_neg h2, if_neg h1, if_pos rfl]
    · rw [Dict.get_set, Dict.get_set, if_neg h3, if_pos rfl]

theorem envelope_ne_nil {h : Handle} {record : Dict} (hne : record.items ≠ []) : (envelope h record).items ≠ [] := by
  unfold envelope
  split_ifs
  · exact Dict.set_ne_nil _ _ _ _
  · exact Dict.set_ne_nil _ _ _ _
  · exact hne
  · exact Dict.set_ne_nil _ _ _ _

/-- A record has the reserved keys that the writer sets, and no other. -/
theorem get_recordOf {event : Str} {payload : Dict} (outcome : Str) (call : Call)
    (h : checkPayload env event payload = none) :
    (recordOf event outcome payload call).get (lit "prev_hash") = none ∧
      (recordOf event outcome payload call).items ≠ [] := by
  have hreserved : ∀ key ∈ reservedEnvelopeKeys, payload.get key = none := by
    intro key hkey
    unfold checkPayload at h
    split_ifs at h
    have hfind : SecretKeys.findSecretViolation env.lower reservedEnvelopeKeys env.recursionLimit
        (.obj payload.items) = .ok none := by
      split at h
      · cases h
      · assumption
      · cases h
    cases hlimit : env.recursionLimit with
    | zero =>
      rw [hlimit] at hfind
      cases hfind
    | succ depth =>
      rw [hlimit] at hfind
      exact SecretKeys.lookup_of_findInMembers _ hkey hfind
  unfold recordOf
  refine ⟨?_, fun hnil => ?_⟩
  · rw [Dict.get_update (hreserved _ (by decide))]
    rfl
  · have hts := Dict.get_update (d := { items := [(lit "ts", .str call.ts), (lit "event", .str event),
      (lit "actor", .str call.actor), (lit "outcome", .str outcome)], unique := rfl }) (hreserved (lit "ts") (by decide))
    rw [Dict.get, hnil] at hts
    cases hts

theorem dumps_of_serialise {d : Dict} {line : Str} (h : serialise env d = .ok line) :
    Json.dumps env.recursionLimit (.obj d.items) = .ok line := by
  unfold serialise at h
  cases hx : Json.dumps env.recursionLimit (.obj d.items) with
  | error e =>
    rw [hx] at h
    cases h
  | ok t =>
    rw [hx] at h
    cases h
    rfl

theorem encode_of_encodeLine {line : Str} {data : Bytes} (h : encodeLine line = .ok data) :
    ∃ l, data = l ++ [lineFeedOctet] ∧ Utf8.encode line = some l := by
  unfold encodeLine at h
  split at h
  · rename_i x hx
    cases h
    obtain ⟨l, nl, h1, h2, rfl⟩ := Utf8.encode_append hx
    have hnl : Utf8.encode [lineFeed] = some [lineFeedOctet] := by decide
    rw [hnl] at h2
    cases h2
    exact ⟨l, rfl, h1⟩
  · cases h

/-- What the writer makes of a record is a line that is read back. -/
theorem recordLine_of_serialise {d : Dict} {line : Str} {data : Bytes} (hne : d.items ≠ [])
    (hl : serialise env d = .ok line) (hd : encodeLine line = .ok data) :
    ∃ l ms, data = l ++ [lineFeedOctet] ∧ RecordLine env l ms ∧
      ∀ key, ms.lookup key = (d.get key).map Json.canon := by
  obtain ⟨l, rfl, h1⟩ := encode_of_encodeLine hd
  have hdumps := dumps_of_serialise hl
  have hline : line = Json.encode (.obj d.items) := by
    unfold Json.dumps at hdumps
    split_ifs at hdumps
    exact (Except.ok.inj hdumps).symm
  obtain ⟨ms, hm, hk⟩ := Dict.loads_dumps hdumps
  refine ⟨l, ms, rfl, ⟨⟨line, h1, hm⟩, ?_, ?_⟩, hk⟩
  · exact Utf8.lineFeed_not_mem_encode h1 (hline ▸ Json.lineFeed_not_mem_encode _)
  · obtain ⟨t, ht⟩ := Json.encode_obj hne
    have hsplit : Json.encode (.obj d.items) = [ch '\x7b', ch '"'] ++ (t ++ [ch '\x7d']) := ht
    rw [hline, hsplit] at h1
    obtain ⟨a, b, ha, hb, rfl⟩ := Utf8.encode_append h1
    obtain ⟨b, c, -, hc, rfl⟩ := Utf8.encode_append hb
    have h2 : Utf8.encode [ch '\x7b', ch '"'] = some [0x7B, 0x22] := by decide
    have h3 : Utf8.encode [ch '\x7d'] = some [0x7D] := by decide
    rw [h2] at ha
    rw [h3] at hc
    cases ha
    cases hc
    exact ⟨b, rfl⟩

theorem chainRecord_of_serialise {d : Dict} {line : Str} {data : Bytes} {prev : Str} {seq : ℕ}
    (hp : d.get (lit "prev_hash") = some (.str prev)) (hs : d.get (lit "seq") = some (.int seq))
    (hne : d.items ≠ []) (hl : serialise env d = .ok line) (hd : encodeLine line = .ok data) :
    ∃ l, data = l ++ [lineFeedOctet] ∧ ChainRecord env l prev seq := by
  obtain ⟨l, ms, rfl, hr, hk⟩ := recordLine_of_serialise hne hl hd
  obtain ⟨text, ht, hm⟩ := hr.parsed
  refine ⟨l, rfl, ⟨text, ms, ht, hm, ?_, ?_⟩, hr.lineFeed, hr.braces⟩
  · rw [hk, hp]
    rfl
  · rw [hk, hs]
    rfl

/-! ### The tail of a chain -/

/-- Lines, each with its line feed. -/
def joinLines (lines : List Bytes) : Bytes := lines.flatMap (· ++ [lineFeedOctet])

/-- Records of which each carries the hash of the one before it and the next
number. -/
def Chained (env : Env) : Str → ℕ → List Bytes → Prop
  | _, _, [] => True
  | prev, seq, line :: lines => ChainRecord env line prev seq ∧ Chained env (env.sha256 line) (seq + 1) lines

theorem chained_concat {line : Bytes} : ∀ {prev : Str} {seq : ℕ} {lines : List Bytes},
    Chained env prev seq (lines ++ [line]) ↔ Chained env prev seq lines ∧
      ChainRecord env line (HashChain.tip env.sha256 prev lines) (seq + lines.length)
  | prev, seq, [] => by simp [Chained, HashChain.tip]
  | prev, seq, l :: lines => by
    rw [List.cons_append, Chained, Chained, chained_concat, HashChain.tip, and_assoc, List.length_cons,
      Nat.add_right_comm seq 1, Nat.add_assoc]

theorem Chained.mem {line : Bytes} : ∀ {prev : Str} {seq : ℕ} {lines : List Bytes},
    Chained env prev seq lines → line ∈ lines → ∃ p n, ChainRecord env line p n
  | _, _, l :: _, h, hm => by
    rcases List.mem_cons.mp hm with rfl | hm
    · exact ⟨_, _, h.1⟩
    · exact h.2.mem hm

theorem joinLines_concat (lines : List Bytes) (line : Bytes) :
    joinLines (lines ++ [line]) = joinLines lines ++ line ++ [lineFeedOctet] := by
  simp [joinLines, List.flatMap_append]

/-- Lines that end with a line feed are empty or end with it. -/
theorem joinLines_getLast? (lines : List Bytes) : ∀ b ∈ (joinLines lines).getLast?, b = lineFeedOctet := by
  rcases List.eq_nil_or_concat' lines with rfl | ⟨ls, l, rfl⟩
  · rintro b hb
    cases hb
  · rw [joinLines_concat]
    simp [eq_comm]

/-- A last line that lies in the octets after a line feed is found there. -/
theorem lastLine_append {a line : Bytes} (ha : ∀ b ∈ a.getLast?, b = lineFeedOctet)
    (hl : lineFeedOctet ∉ line) (hs : stripBytes line = line) (hne : line ≠ []) :
    lastLine (a ++ line ++ [lineFeedOctet]) = some line := by
  have hsplit : ∃ ls, (a ++ line ++ [lineFeedOctet]).splitOn lineFeedOctet = ls ++ [line, []] := by
    have h1 : (line ++ [lineFeedOctet]).splitOn lineFeedOctet = [line, []] := by
      rw [List.splitOn_append_cons_self_of_not_mem hl]
      rfl
    rcases List.eq_nil_or_concat' a with rfl | ⟨a, b, rfl⟩
    · exact ⟨[], h1⟩
    · have hb : b = lineFeedOctet := ha b (by simp)
      subst hb
      refine ⟨a.splitOn lineFeedOctet, ?_⟩
      rw [List.append_assoc, List.append_assoc, List.singleton_append, List.splitOn_append_cons_self, h1]
  obtain ⟨ls, hls⟩ := hsplit
  have hempty : stripBytes [] = [] := rfl
  rw [lastLine, hls, List.reverse_append]
  simp [hs, hne, hempty]

/-- What the writer finds at the end of a log whose last record lies in the
part it looks at. -/
theorem scanTailState_concat {lines : List Bytes} {line : Bytes} {ms : List (Str × Json)} {seq : ℕ}
    (h : RecordLine env line ms) (hfit : line.length < tailChunk) (hseq : seqAfter env line = .ok seq) :
    scanTailState env (joinLines (lines ++ [line])) = .ok (some (env.sha256 line), seq) := by
  rw [joinLines_concat]
  generalize hlog : joinLines lines ++ line ++ [lineFeedOctet] = log
  have hne : log ≠ [] := by rw [← hlog]; simp
  have hlen : log.length = (joinLines lines).length + line.length + 1 := by
    rw [← hlog, List.length_append, List.length_append]
    rfl
  -- the part the writer looks at begins before the last record
  have hk : log.length - min log.length tailChunk ≤ (joinLines lines).length := by omega
  have hlast : lastLine (log.drop (log.length - min log.length tailChunk)) = some line := by
    generalize log.length - min log.length tailChunk = k at hk
    rw [← hlog, List.append_assoc, List.drop_append_of_le_length hk, ← List.append_assoc]
    refine lastLine_append (fun b hb => ?_) h.lineFeed h.stripBytes h.ne_nil
    rw [List.getLast?_drop] at hb
    split_ifs at hb
    · cases hb
    · exact joinLines_getLast? lines b hb
  rw [scanTailState, if_neg hne]
  dsimp only
  rw [hlast]
  dsimp only [Option.orElse]
  rw [hseq]
  rfl

/-- Lines of which each is a record. -/
def Records (env : Env) (lines : List Bytes) : Prop := ∀ line ∈ lines, ∃ ms, RecordLine env line ms

theorem Records.lineFeed {lines : List Bytes} {line : Bytes} (h : Records env lines) (hm : line ∈ lines) :
    lineFeedOctet ∉ line := by
  obtain ⟨ms, hr⟩ := h line hm
  exact hr.lineFeed

theorem Records.append {lines lines' : List Bytes} (h : Records env lines) (h' : Records env lines') :
    Records env (lines ++ lines') := fun line hm => (List.mem_append.mp hm).elim (h line) (h' line)

theorem Chained.records {prev : Str} {seq : ℕ} {lines : List Bytes} (h : Chained env prev seq lines) :
    Records env lines := by
  intro line hm
  obtain ⟨p, n, hr⟩ := h.mem hm
  obtain ⟨ms, hms, -⟩ := hr.recordLine
  exact ⟨ms, hms⟩

/-- The number after that of the last line. -/
def nextSeq (env : Env) (lines : List Bytes) : ℕ :=
  match lines.getLast? with
  | none => 0
  | some line => (seqAfter env line).toOption.getD 0

/-- What the writer finds at the end of a chain that continues some records. -/
theorem scanTailState_joinLines {base lines : List Bytes} (hb : Records env base)
    (h : Chained env (HashChain.tip env.sha256 [] base) (nextSeq env base) lines)
    (hfit : ∀ line ∈ (base ++ lines).getLast?, line.length < tailChunk) :
    ∃ prev, scanTailState env (joinLines (base ++ lines)) = .ok (prev, nextSeq env base + lines.length) ∧
      prev.getD [] = HashChain.tip env.sha256 (HashChain.tip env.sha256 [] base) lines := by
  rcases List.eq_nil_or_concat' lines with rfl | ⟨ls, l, rfl⟩
  · rw [List.append_nil] at hfit ⊢
    rcases List.eq_nil_or_concat' base with rfl | ⟨bs, b, rfl⟩
    · exact ⟨none, rfl, rfl⟩
    · obtain ⟨ms, hm⟩ := hb b (by simp)
      have hseq : seqAfter env b = .ok (nextSeq env (bs ++ [b])) := by
        rw [nextSeq, List.getLast?_concat]
        dsimp only
        rw [hm.seqAfter]
        rfl
      exact ⟨_, scanTailState_concat hm (hfit b (by simp)) hseq, (HashChain.tip_concat b [] bs).symm⟩
  · have hr := (chained_concat.mp h).2
    obtain ⟨ms, hm, -⟩ := hr.recordLine
    rw [← List.append_assoc] at hfit ⊢
    refine ⟨some (env.sha256 l), ?_, (HashChain.tip_concat l _ ls).symm⟩
    rw [scanTailState_concat hm (hfit l (by simp)) hr.seqAfter, List.length_append, List.length_singleton,
      Nat.add_assoc]

/-! ### The verifier on a chain -/

theorem ChainRecord.verifyLine {line : Bytes} {w : Walk} {seq : ℕ}
    (h : ChainRecord env line (w.prevHash.getD []) seq) (hs : w.expectedSeq = seq) :
    verifyLine env w line =
      .ok { prevHash := some (env.sha256 line), expectedSeq := seq + 1, count := w.count + 1 } := by
  obtain ⟨text, ms, ht, hm, hp, hq⟩ := h.parsed
  have hne : Utf8.decodeReplace line ≠ [] := mt Utf8.decodeReplace_eq_nil.mp h.ne_nil
  have hd : Utf8.decodeReplace line = text := Utf8.decodeReplace_encode ht
  unfold AuditLog.verifyLine
  dsimp only
  rw [if_neg hne, hd, hm]
  simp only [hp, hq, hs, Option.getD_some, Option.bind_some, asInt, ne_eq, not_true_eq_false, if_false]

theorem foldlM_verifyLine : ∀ {lines : List Bytes} {w : Walk} {seq : ℕ},
    Chained env (w.prevHash.getD []) seq lines → w.expectedSeq = seq →
    lines.foldlM (verifyLine env) w =
      .ok { prevHash := (lines.getLast?.map env.sha256).or w.prevHash
            expectedSeq := (seq + lines.length : ℕ)
            count := w.count + lines.length }
  | [], w, seq, _, hs => by
    simp only [List.foldlM_nil, List.length_nil, Nat.add_zero, ← hs]
    rfl
  | line :: lines, w, seq, h, hs => by
    have ih := foldlM_verifyLine (w := ⟨some (env.sha256 line), seq + 1, w.count + 1⟩) h.2 (by simp)
    have hlen : seq + 1 + lines.length = seq + (line :: lines).length ∧
        w.count + 1 + lines.length = w.count + (line :: lines).length := by
      rw [List.length_cons]
      omega
    have hlast : (lines.getLast?.map env.sha256).or (some (env.sha256 line)) =
        ((line :: lines).getLast?.map env.sha256).or w.prevHash := by
      rw [List.getLast?_cons]
      cases lines.getLast? <;> rfl
    rw [List.foldlM_cons, h.1.verifyLine hs]
    refine ih.trans ?_
    rw [hlen.1, hlen.2, hlast]

theorem splitOn_joinLines : ∀ {lines : List Bytes}, (∀ line ∈ lines, lineFeedOctet ∉ line) →
    (joinLines lines).splitOn lineFeedOctet = lines ++ [[]]
  | [], _ => rfl
  | line :: lines, h => by
    rw [List.forall_mem_cons] at h
    rw [joinLines, List.flatMap_cons, List.append_assoc, List.singleton_append,
      List.splitOn_append_cons_self_of_not_mem h.1]
    exact congrArg _ (splitOn_joinLines h.2)

/-! ### The tip -/

theorem isDigit_spec {c : CodePoint} (h : Json.isDigit c = true) : isSpace c = false ∧ c.val < 0x80 := by
  simp only [Json.isDigit, Bool.and_eq_true, decide_eq_true_eq] at h
  refine ⟨?_, by omega⟩
  by_contra hs
  simp only [isSpace, Bool.not_eq_false, Bool.or_eq_true, Bool.and_eq_true, decide_eq_true_eq] at hs
  omega

theorem decimal_isDigit (n : ℕ) : Json.decimal n ≠ [] ∧ ∀ c ∈ Json.decimal n, Json.isDigit c = true := by
  rcases Json.decimal_cases n with ⟨-, h⟩ | ⟨d, ds, h, -, hd, hds, -⟩
  · rw [h, show lit "0" = [0x30] from rfl]
    exact ⟨List.cons_ne_nil _ _, List.forall_mem_singleton.mpr rfl⟩
  · rw [h]
    exact ⟨List.cons_ne_nil _ _, List.forall_mem_cons.mpr ⟨hd, hds⟩⟩

/-- ASCII text that fits is read back from the tip. -/
theorem readTip_map {text : Str} (hlen : text.length ≤ 256) (h : ∀ c ∈ text, c.val < 0x80) :
    readTip (text.map fun c => .ofNat c.val) = text := by
  rw [readTip, List.take_of_length_le (by rwa [List.length_map]), List.map_map]
  conv_rhs => rw [← List.map_id text]
  refine List.map_congr_left fun c hc => ?_
  have hlt := h c hc
  have hn : (UInt8.ofNat c.val).toNat = c.val := Utf8.toNat_ofNat (by omega)
  have hb : UInt8.ofNat c.val < 0x80 := by
    rw [UInt8.lt_iff_toNat_lt, hn]
    exact hlt
  simp only [Function.comp_apply, if_pos hb, hn, id_eq]
  exact Fin.ofNat_val_eq_self c

/-- The tip is read back. -/
theorem fields_tipContent {data : Bytes} {n : ℕ} (hn : (Nat.digits 10 n).length ≤ 100) :
    fields (strip (readTip (tipContent (env.sha256 data) n))) = [env.sha256 data, Json.decimal n] := by
  have hlen := env.sha256_length data
  have hhex : ∀ c ∈ env.sha256 data, isSpace c = false ∧ c.val < 0x80 := fun c hc =>
    Json.hexDigit_spec (env.sha256_hex data c hc)
  obtain ⟨hne, hdig⟩ := decimal_isDigit n
  have hdec : ∀ c ∈ Json.decimal n, isSpace c = false ∧ c.val < 0x80 := fun c hc => isDigit_spec (hdig c hc)
  have hdl : (Json.decimal n).length ≤ 100 := by
    rcases Json.decimal_cases n with ⟨-, h⟩ | ⟨d, ds, h, -, -, -, hl⟩
    · rw [h]
      decide
    · rw [h, hl]
      exact hn
  have hread : readTip (tipContent (env.sha256 data) n) =
      env.sha256 data ++ lit " " ++ Json.decimal n ++ [lineFeed] := by
    refine readTip_map ?_ ?_
    · simp only [List.length_append, hlen, List.length_singleton]
      have : (lit " ").length = 1 := rfl
      omega
    · intro c hc
      simp only [List.mem_append, List.mem_singleton] at hc
      rcases hc with ((hc | hc) | hc) | rfl
      · exact (hhex c hc).2
      · rw [show lit " " = [0x20] from rfl, List.mem_singleton] at hc
        rw [hc]
        decide
      · exact (hdec c hc).2
      · decide
  have h0 : env.sha256 data ≠ [] := fun h => by
    rw [h] at hlen
    cases hlen
  rw [hread, fields_strip, show lit " " = [0x20] from rfl, List.append_assoc, List.append_assoc,
    List.singleton_append, fields_append_space (by decide), fields_of_noSpace h0 fun c hc => (hhex c hc).1,
    fields_append_of_space (List.forall_mem_singleton.mpr rfl), fields_of_noSpace hne fun c hc => (hdec c hc).1]
  rfl

theorem verifyTip_tipContent {data : Bytes} {n : ℕ} (hn : (Nat.digits 10 n).length ≤ 100) :
    verifyTip (some (tipContent (env.sha256 data) n)) (env.sha256 data) (n + 1 : ℕ) = true := by
  have hall : (Json.decimal n).all Json.isDigit = true := List.all_eq_true.mpr (decimal_isDigit n).2
  rw [verifyTip, fields_tipContent hn]
  simp [env.sha256_length data, hall, Json.ofDecimal_decimal]

/-- A tip is accepted for no other hash. -/
theorem eq_of_verifyTip {data : Bytes} {n : ℕ} {prevHash : Str} {expectedSeq : ℤ}
    (hn : (Nat.digits 10 n).length ≤ 100)
    (h : verifyTip (some (tipContent (env.sha256 data) n)) prevHash expectedSeq = true) :
    prevHash = env.sha256 data := by
  rw [verifyTip, fields_tipContent hn] at h
  by_contra hne
  rw [← ne_eq, ne_comm] at hne
  simp [hne] at h

/-! ### One emit -/

/-- What an emit in hash-chain mode, with this buffer, can leave. -/
inductive Emitted (env : Env) (buffer : Bytes) (d : Disk) (call : Call) : (Handle × Disk) × Option Exc → Prop
  /-- It raises before it writes. -/
  | raised {h : Handle} (e : Exc) (hashChain : h.hashChain = true) (kept : h.buffer = buffer) :
    Emitted env buffer d call ((h, d), some e)
  /-- It writes a record that continues what it found at the end of the log. -/
  | wrote {h : Handle} {d' : Disk} {prev : Option Str} {seq : ℕ} {line : Bytes}
    (hashChain : h.hashChain = true) (scan : scanTailState env d.log = .ok (prev, seq))
    (record : ChainRecord env line (prev.getD []) seq)
    (written : writeData call.fault d.log buffer (line ++ [lineFeedOctet]) = (d'.log, h.buffer))
    (tip : call.fault = .none → call.tipFails = false → d'.tip = some (tipContent (env.sha256 line) seq)) :
    Emitted env buffer d call ((h, d'), none)

theorem writeRecord_emitted {h : Handle} {d : Disk} (hc : h.hashChain = true)
    (scan : scanTailState env d.log = .ok (h.prevHash, h.seq)) (record : Dict) (call : Call) :
    Emitted env h.buffer d call (writeRecord env h d record call.fault call.tipFails) := by
  obtain ⟨hp, hs, hne⟩ := get_envelope h record hc
  unfold writeRecord
  split
  · exact .raised _ hc rfl
  · rename_i text htext
    split
    · exact .raised _ hc rfl
    · rename_i data hdata
      obtain ⟨line, rfl, hr⟩ := chainRecord_of_serialise hp hs hne htext hdata
      rcases hw : writeData call.fault d.log h.buffer (line ++ [lineFeedOctet]) with ⟨log, buffer⟩
      dsimp only
      by_cases hf : call.fault = .none
      · rw [if_pos hf, if_pos hc, List.dropLast_concat]
        refine .wrote hc scan hr hw fun _ ht => ?_
        rw [ht]
        rfl
      · rw [if_neg hf]
        exact .wrote hc scan hr hw fun h => absurd h hf

theorem emit_emitted {h : Handle} (hc : h.hashChain = true) (d : Disk) (event outcome : Str) (payload : Dict)
    (call : Call) : Emitted env h.buffer d call (emit env h d event outcome payload call) := by
  unfold emit
  by_cases ho : outcome ∉ validOutcomes
  · rw [if_pos ho]
    exact .raised _ hc rfl
  · rw [if_neg ho]
    cases checkPayload env event payload with
    | some e => exact .raised _ hc rfl
    | none =>
      dsimp only
      rw [if_pos hc]
      cases hscan : scanTailState env d.log with
      | error e => exact .raised _ hc rfl
      | ok tail => exact writeRecord_emitted (h := { h with prevHash := tail.1, seq := tail.2 }) hc hscan _ call

/-- A session that opens begins with an emit of its own. -/
theorem openLog_cases (d : Disk) (call : Call) :
    openLog env d true call = (none, d) ∨
      ∃ h d', openLog env d true call = (some h, d') ∧ Emitted env [] d call ((h, d'), none) := by
  unfold openLog
  rw [if_pos rfl]
  split
  · exact .inl rfl
  · rename_i prev seq hscan
    let h : Handle := { hashChain := true, prevHash := prev, seq := seq }
    have he : Emitted env [] d call (emit env h d (lit "audit_log_opened") (lit "ok")
      { items := [(lit "hash_chain", .bool true)], unique := rfl } call) := emit_emitted (h := h) rfl ..
    dsimp only [h] at he ⊢
    generalize emit env _ d _ _ _ call = r at he ⊢
    cases he with
    | raised e => exact .inl rfl
    | wrote hc hscan hr hw ht => exact .inr ⟨_, _, rfl, .wrote hc hscan hr hw ht⟩

/-! ### Logs that sessions write -/

/-- A chain, and perhaps the beginning of a line. -/
def ChainedLog (env : Env) (log : Bytes) : Prop :=
  ∃ lines rest, log = joinLines lines ++ rest ∧ lineFeedOctet ∉ rest ∧ Chained env [] 0 lines

/-- A chain and the tip of its last record. -/
def Whole (env : Env) (d : Disk) : Prop :=
  ∃ lines line, d.log = joinLines (lines ++ [line]) ∧ Chained env [] 0 (lines ++ [line]) ∧
    d.tip = some (tipContent (env.sha256 line) lines.length)

/-- The log ends with a line of which the writer sees all, or is empty. -/
def EndsLine (log : Bytes) : Prop :=
  (∀ b ∈ log.getLast?, b = lineFeedOctet) ∧
    (log.dropLast.rtakeWhile (· ≠ lineFeedOctet)).length < tailChunk

instance (log : Bytes) : Decidable (EndsLine log) :=
  @instDecidableAnd _ _ (Option.decidableForallMem _) inferInstance

theorem endsLine_nil : EndsLine [] := by
  refine ⟨fun b hb => ?_, ?_⟩
  · cases hb
  · norm_num [tailChunk]

/-- The writer sees all of the last line. -/
theorem EndsLine.length_lt {lines : List Bytes} (h : EndsLine (joinLines lines))
    (hl : ∀ line ∈ lines, lineFeedOctet ∉ line) : ∀ line ∈ lines.getLast?, line.length < tailChunk := by
  intro line hline
  obtain ⟨ls, rfl⟩ := List.getLast?_eq_some_iff.mp hline
  have h2 := h.2
  have hall : ∀ b ∈ line.reverse, decide (b ≠ lineFeedOctet) = true := by
    intro b hb
    rw [decide_eq_true_eq]
    rintro rfl
    exact hl line (by simp) (List.mem_reverse.mp hb)
  rw [joinLines_concat, List.dropLast_concat, List.rtakeWhile, List.reverse_append,
    List.takeWhile_append_of_pos hall] at h2
  simp only [List.length_reverse, List.length_append] at h2
  omega

/-- A log that ends with a line is a chain whose last record is seen whole. -/
theorem ChainedLog.of_endsLine {log : Bytes} (h : ChainedLog env log) (he : EndsLine log) :
    ∃ lines, log = joinLines lines ∧ Chained env [] 0 lines ∧ ∀ line ∈ lines.getLast?, line.length < tailChunk := by
  obtain ⟨lines, rest, rfl, hrest, hl⟩ := h
  have hnil : rest = [] := by
    rcases List.eq_nil_or_concat' rest with rfl | ⟨rest, b, rfl⟩
    · rfl
    · have hb : b = lineFeedOctet := he.1 b (by simp)
      exact absurd (by simp [hb]) hrest
  subst hnil
  rw [List.append_nil] at he ⊢
  exact ⟨lines, rfl, hl, he.length_lt fun line hm => hl.records.lineFeed hm⟩

/-- What the writer puts after a chain that it sees the end of is the next
record, or a beginning of it. The chain may continue other records. -/
theorem Emitted.next {h : Handle} {d d' : Disk} {call : Call} {base lines : List Bytes}
    (he : Emitted env [] d call ((h, d'), none)) (hlog : d.log = joinLines (base ++ lines)) (hb : Records env base)
    (hl : Chained env (HashChain.tip env.sha256 [] base) (nextSeq env base) lines)
    (hfit : ∀ line ∈ (base ++ lines).getLast?, line.length < tailChunk) :
    ∃ line, Chained env (HashChain.tip env.sha256 [] base) (nextSeq env base) (lines ++ [line]) ∧
      (writeData call.fault (joinLines (base ++ lines)) [] (line ++ [lineFeedOctet])).1 = d'.log ∧
      (call.fault = .none → call.tipFails = false →
        d'.tip = some (tipContent (env.sha256 line) (nextSeq env base + lines.length))) := by
  cases he with
  | @wrote _ _ prev seq line hc hscan hr hw ht =>
    obtain ⟨prev', hscan', hprev⟩ := scanTailState_joinLines hb hl hfit
    rw [hlog, hscan'] at hscan
    obtain ⟨rfl, rfl⟩ := Prod.mk.inj (Except.ok.inj hscan)
    refine ⟨line, chained_concat.mpr ⟨hl, ?_⟩, ?_, ht⟩
    · rw [← hprev]
      exact hr
    · rw [← hlog, hw]

/-- The same after a chain from the beginning. -/
theorem Emitted.next_nil {h : Handle} {d d' : Disk} {call : Call} {lines : List Bytes}
    (he : Emitted env [] d call ((h, d'), none)) (hlog : d.log = joinLines lines) (hl : Chained env [] 0 lines)
    (hfit : ∀ line ∈ lines.getLast?, line.length < tailChunk) :
    ∃ line, Chained env [] 0 (lines ++ [line]) ∧
      (writeData call.fault (joinLines lines) [] (line ++ [lineFeedOctet])).1 = d'.log ∧
      (call.fault = .none → call.tipFails = false → d'.tip = some (tipContent (env.sha256 line) lines.length)) := by
  have h := @Emitted.next env h d d' call [] lines he hlog (fun _ h => absurd h List.not_mem_nil) hl hfit
  rwa [show nextSeq env [] + lines.length = lines.length from Nat.zero_add _] at h

/-- A beginning of a record after a chain. -/
theorem chainedLog_take {lines : List Bytes} {line : Bytes} (h : Chained env [] 0 (lines ++ [line])) (n : ℕ) :
    ChainedLog env (joinLines lines ++ (line ++ [lineFeedOctet]).take n) := by
  by_cases hn : n ≤ line.length
  · refine ⟨lines, line.take n, ?_, fun hm => ?_, (chained_concat.mp h).1⟩
    · rw [List.take_append_of_le_length hn]
    · exact (chained_concat.mp h).2.lineFeed (List.mem_of_mem_take hm)
  · refine ⟨lines ++ [line], [], ?_, List.not_mem_nil, h⟩
    rw [List.take_of_length_le (by rw [List.length_append, List.length_singleton]; omega), joinLines_concat,
      List.append_nil, List.append_assoc]

/-- With an empty buffer, what reaches the log is a beginning of the data. -/
theorem writeData_nil (fault : Fault) (log data : Bytes) :
    ∃ n, (writeData fault log [] data).1 = log ++ data.take n := by
  cases fault with
  | none => exact ⟨data.length, by simp [writeData]⟩
  | fsync => exact ⟨data.length, by simp [writeData]⟩
  | write n => exact ⟨n, rfl⟩
  | flush n => exact ⟨n, rfl⟩

theorem writeData_of_not_lands {fault : Fault} (h : ¬ fault.lands = true) (log buffer data : Bytes) :
    (writeData fault log buffer data).1 = log := by
  unfold Fault.lands at h
  cases fault with
  | none => exact absurd rfl h
  | fsync => exact absurd rfl h
  | write n =>
    have hn : n = 0 := by simpa using h
    simp [writeData, hn]
  | flush n =>
    have hn : n = 0 := by simpa using h
    simp [writeData, hn]

theorem Emitted.chainedLog {buffer : Bytes} {h : Handle} {d d' : Disk} {call : Call} {e : Option Exc}
    (he : Emitted env buffer d call ((h, d'), e)) (hd : ChainedLog env d.log)
    (hc : call.fault.lands = true → buffer = [] ∧ EndsLine d.log) : ChainedLog env d'.log := by
  cases e with
  | some e =>
    cases he
    exact hd
  | none =>
    by_cases hlands : call.fault.lands = true
    · obtain ⟨rfl, hends⟩ := hc hlands
      obtain ⟨lines, hlog, hl, hfit⟩ := hd.of_endsLine hends
      obtain ⟨line, hl', hw, -⟩ := he.next_nil hlog hl hfit
      obtain ⟨n, hn⟩ := writeData_nil call.fault (joinLines lines) (line ++ [lineFeedOctet])
      rw [← hw, hn]
      exact chainedLog_take hl' n
    · cases he with
      | wrote _ _ _ hw =>
        have hsame := congrArg Prod.fst hw
        rw [writeData_of_not_lands hlands] at hsame
        dsimp only at hsame
        exact hsame ▸ hd

theorem Emitted.whole {h : Handle} {d d' : Disk} {call : Call} (he : Emitted env [] d call ((h, d'), none))
    (hd : ChainedLog env d.log) (hends : EndsLine d.log) (hf : call.fault = .none) (ht : call.tipFails = false) :
    Whole env d' := by
  obtain ⟨lines, hlog, hl, hfit⟩ := hd.of_endsLine hends
  obtain ⟨line, hl', hw, htip⟩ := he.next_nil hlog hl hfit
  rw [hf] at hw
  refine ⟨lines, line, ?_, hl', htip hf ht⟩
  rw [← hw, joinLines_concat, List.append_assoc]
  simp [writeData]

/-! ### The verifier accepts -/

theorem length_le_joinLines : ∀ lines : List Bytes, lines.length ≤ (joinLines lines).length
  | [] => Nat.le_refl _
  | line :: lines => by
    have ih := length_le_joinLines lines
    simp only [joinLines, List.flatMap_cons, List.length_append, List.length_cons] at ih ⊢
    omega

/-- Counters of records that a file can hold are short. -/
theorem digits_length_le {n : ℕ} (h : n ≤ maxFileSize) : (Nat.digits 10 n).length ≤ 100 := by
  have hlt : n < 10 ^ 100 := lt_of_le_of_lt h (by norm_num [maxFileSize])
  exact (Nat.digits_length_le_iff (by decide) n).mpr hlt

theorem nonEmptyLines_joinLines {lines : List Bytes} (h : Records env lines) :
    nonEmptyLines (joinLines lines) = lines := by
  have hne : ∀ line ∈ lines, decide (line ≠ []) = true := by
    intro line hm
    obtain ⟨ms, hr⟩ := h line hm
    exact decide_eq_true hr.ne_nil
  rw [nonEmptyLines, splitOn_joinLines fun line hm => h.lineFeed hm, List.filter_append,
    List.filter_eq_self.mpr hne]
  simp

theorem verifyChain_of_whole {d : Disk} (h : Whole env d) (hsize : d.log.length ≤ maxFileSize) :
    verifyChain env d = .ok (true, records d.log) := by
  obtain ⟨lines, line, hlog, hl, htip⟩ := h
  have hne : d.log ≠ [] := by
    rw [hlog, joinLines_concat]
    simp
  have hlf : ∀ l ∈ lines ++ [line], lineFeedOctet ∉ l := fun l hm => hl.records.lineFeed hm
  have hlen : lines.length ≤ maxFileSize := by
    have := length_le_joinLines (lines ++ [line])
    rw [← hlog, List.length_append, List.length_singleton] at this
    omega
  have hwalk := foldlM_verifyLine (w := {}) hl rfl
  have hempty : ∀ w, verifyLine env w [] = .ok w := fun w => rfl
  rw [verifyChain, if_neg hne, hlog, records, nonEmptyLines_joinLines hl.records, splitOn_joinLines hlf,
    List.foldlM_append, hwalk]
  rw [List.getLast?_concat, List.length_append, List.length_singleton, htip]
  have htrue : verifyTip (some (tipContent (env.sha256 line) lines.length)) (env.sha256 line)
      (lines.length + 1 : ℕ) = true := verifyTip_tipContent (digits_length_le hlen)
  simp only [bind, Except.bind, List.foldlM_cons, List.foldlM_nil, pure, Except.pure, hempty, Option.map_some,
    Option.some_or, Nat.zero_add, htrue]

/-! ### Sessions -/

/-- What the `AuditLog` of an action has not yet written. -/
def Action.buffer (s : State) : Action → Bytes
  | .open _ => []
  | .emit i _ _ _ _ => (s.handles[i]?.map Handle.buffer).getD []

/-- What an action writes begins with its own record, on a line of its own,
and after a line that the writer sees whole. -/
def Clean (s : State) (a : Action) : Prop :=
  a.call.fault.lands = true → a.buffer s = [] ∧ EndsLine s.disk.log

instance (s : State) (a : Action) : Decidable (Clean s a) := by unfold Clean; infer_instance

/-- The action returns and its record and the tip are written. -/
def Succeeds (env : Env) (s : State) (a : Action) (s' : State) : Prop :=
  perform env s a = some (s', true) ∧ a.call.fault = .none ∧ a.call.tipFails = false

structure Inv (env : Env) (s : State) : Prop where
  hashChain : ∀ h ∈ s.handles, h.hashChain = true
  log : ChainedLog env s.disk.log

/-- What an action does is one emit. -/
theorem perform_cases {s s' : State} {a : Action} {returns : Bool} (hc : ∀ h ∈ s.handles, h.hashChain = true)
    (h : perform env s a = some (s', returns)) :
    (s' = s ∧ returns = false) ∨
      ∃ h' e, Emitted env (a.buffer s) s.disk a.call ((h', s'.disk), e) ∧ e.isNone = returns ∧
        ∀ x ∈ s'.handles, x ∈ s.handles ∨ x = h' := by
  unfold perform at h
  cases a with
  | «open» call =>
    dsimp only at h
    rcases openLog_cases s.disk call with hn | ⟨h', d', hs, he⟩
    · rw [hn] at h
      cases h
      exact .inl ⟨rfl, rfl⟩
    · rw [hs] at h
      cases h
      refine .inr ⟨h', none, he, rfl, fun x hx => ?_⟩
      simpa using hx
  | emit i event outcome payload call =>
    dsimp only at h
    cases hh : s.handles[i]? with
    | none =>
      rw [hh] at h
      cases h
    | some x =>
      rw [hh] at h
      cases h
      have hx : x ∈ s.handles := List.mem_of_getElem? hh
      refine .inr ⟨_, _, ?_, rfl, fun y hy => List.mem_or_eq_of_mem_set hy⟩
      have hbuf : Action.buffer s (.emit i event outcome payload call) = x.buffer := by
        simp [Action.buffer, hh]
      rw [hbuf]
      exact emit_emitted (hc x hx) _ _ _ _ _

theorem Emitted.hashChain {buffer : Bytes} {d d' : Disk} {call : Call} {h : Handle} {e : Option Exc}
    (he : Emitted env buffer d call ((h, d'), e)) : h.hashChain = true := by
  cases he with
  | raised e hc => exact hc
  | wrote hc => exact hc

theorem hashChain_perform {s s' : State} {a : Action} {returns : Bool} (hc : ∀ h ∈ s.handles, h.hashChain = true)
    (h : perform env s a = some (s', returns)) : ∀ h ∈ s'.handles, h.hashChain = true := by
  rcases perform_cases hc h with ⟨rfl, -⟩ | ⟨h', e, he, -, hmem⟩
  · exact hc
  · intro x hx
    rcases hmem x hx with hx | rfl
    · exact hc x hx
    · exact he.hashChain

/-- **A clean action** keeps the log a chain. -/
theorem inv_perform {s s' : State} {a : Action} {returns : Bool} (hI : Inv env s) (hc : Clean s a)
    (h : perform env s a = some (s', returns)) : Inv env s' := by
  refine ⟨hashChain_perform hI.hashChain h, ?_⟩
  rcases perform_cases hI.hashChain h with ⟨rfl, -⟩ | ⟨h', e, he, -, -⟩
  · exact hI.log
  · exact he.chainedLog hI.log hc

theorem step_eq_some {s s' : State} {a : Action} (h : step env s a = some s') :
    ∃ returns, perform env s a = some (s', returns) ∧ s'.disk.log.length ≤ maxFileSize := by
  unfold step at h
  split at h
  · rename_i s1 returns hp
    split_ifs at h with hsize
    cases h
    exact ⟨returns, hp, hsize⟩
  · cases h

theorem inv_of_clean {s : State} (h : ((sessions env).restrict Clean).Reachable s) : Inv env s := by
  refine h.inv ?_ ?_
  · rintro s rfl
    exact ⟨fun x hx => absurd hx List.not_mem_nil, [], [], rfl, List.not_mem_nil, trivial⟩
  · rintro s a s' hI ⟨hc, hst⟩
    obtain ⟨returns, hp, -⟩ := step_eq_some hst
    exact inv_perform hI hc hp

/-- After a clean action that succeeds, log and tip are those of a chain. -/
theorem whole_of_clean {s s' : State} {a : Action} (h : ((sessions env).restrict Clean).Reachable s)
    (hc : Clean s a) (hs : Succeeds env s a s') : Whole env s'.disk := by
  obtain ⟨hp, hf, ht⟩ := hs
  have hI := inv_of_clean h
  obtain ⟨hbuf, hends⟩ := hc (by rw [hf]; rfl)
  rcases perform_cases hI.hashChain hp with ⟨-, hr⟩ | ⟨h', e, he, hr, -⟩
  · cases hr
  · cases e with
    | some e => cases hr
    | none =>
      rw [hbuf] at he
      exact he.whole hI.log hends hf ht

/-- **The verifier accepts what sessions write**, after every action that
succeeds, in every run all of whose actions are clean. -/
theorem verifyChain_of_clean {s s' : State} {a : Action} (h : ((sessions env).restrict Clean).Reachable s)
    (hc : Clean s a) (hst : step env s a = some s') (hs : Succeeds env s a s') :
    verifyChain env s'.disk = .ok (true, records s'.disk.log) := by
  obtain ⟨returns, hp, hsize⟩ := step_eq_some hst
  exact verifyChain_of_whole (whole_of_clean h hc hs) hsize

/-! ### Two sessions

A user, a time, and the real digests of the two lines that are looked at
below. -/

/-- ASCII text. -/
def ascii (text : String) : Bytes := (lit text).map fun c => .ofNat c.val

/-- What a session that opens an empty log writes. -/
def openedRecord : Bytes :=
  ascii "\x7b\"actor\":\"u\",\"event\":\"audit_log_opened\",\"hash_chain\":true,\"outcome\":\"ok\"," ++
    ascii "\"prev_hash\":\"\",\"seq\":0,\"ts\":\"2026-01-01T00:00:00Z\"\x7d"

def emptyObject : Bytes := ascii "\x7b\x7d"

def sampleHash (data : Bytes) : Str :=
  if data = openedRecord then
    lit "75ab0a853af00ab630f44c0859854c98acb9da8dbe3dacaeb17fa3a0e4b5a466"
  else if data = emptyObject then lit "44136fa355b3678a1146ad16f7e8649e94fb4fc21fe77e8310c060f61caaff8a"
  else List.replicate 64 0x30

theorem sampleHash_spec (data : Bytes) :
    (sampleHash data).length = 64 ∧ ∀ c ∈ sampleHash data, c ∈ (List.range 16).map Json.hexDigit := by
  have h (d : Str) (hd : (d.length == 64 && d.all fun c => c ∈ (List.range 16).map Json.hexDigit) = true) :
      d.length = 64 ∧ ∀ c ∈ d, c ∈ (List.range 16).map Json.hexDigit := by
    simpa using hd
  unfold sampleHash
  split_ifs <;> exact h _ (by decide +kernel)

def sampleEnv : Env where
  lower := id
  repr := id
  recursionLimit := 1000
  sha256 := sampleHash
  sha256_length data := (sampleHash_spec data).1
  sha256_hex data := (sampleHash_spec data).2

def sampleCall (fault : Fault) : Call :=
  { ts := lit "2026-01-01T00:00:00Z", actor := lit "u", fault := fault }

/-- A record of session `i`. -/
def keyGenerated (i : ℕ) : Action :=
  .emit i (lit "key_generated") (lit "ok") { items := [], unique := rfl } (sampleCall .none)

/-- A session that cannot write its announcement, and another one that can. -/
def secondSession : List Action := [.open (sampleCall (.flush 0)), .open (sampleCall .none)]

theorem verifyChain_secondSession : ∃ s s',
    System.runLabels (System.guarded Clean (step sampleEnv)) {} secondSession = some s ∧
      step sampleEnv s (keyGenerated 1) = some s' ∧
      verifyChain sampleEnv s'.disk = .ok (true, records s'.disk.log) := by
  have hrun : ((System.runLabels (System.guarded Clean (step sampleEnv)) {} secondSession).any fun s =>
      Clean s (keyGenerated 1) && (perform sampleEnv s (keyGenerated 1)).any fun r =>
        r.2 && r.1.disk.log.length ≤ maxFileSize) = true := by
    decide +kernel
  obtain ⟨s, hs, hlast⟩ := (Option.any_eq_true _ _).mp hrun
  rw [Bool.and_eq_true, decide_eq_true_eq] at hlast
  obtain ⟨⟨s', returns⟩, hp, hr⟩ := (Option.any_eq_true _ _).mp hlast.2
  rw [Bool.and_eq_true, decide_eq_true_eq] at hr
  obtain ⟨rfl, hsize⟩ := hr
  have hst : step sampleEnv s (keyGenerated 1) = some s' := by
    rw [step, hp]
    exact if_pos hsize
  exact ⟨s, s', hs, hst, verifyChain_of_clean
    (System.reachable_restrict_of_runLabels secondSession (.init rfl) hs) hlast.1 hst ⟨hp, rfl, rfl⟩⟩

/-- Its own announcement, which it could not write, stays in the buffer of the
first session, and reaches the log with its next record: two records with one
number. -/
theorem not_verifyChain : ¬ ∀ env s s' a, (sessions env).Reachable s → step env s a = some s' →
    Succeeds env s a s' → verifyChain env s'.disk = .ok (true, records s'.disk.log) := by
  intro h
  have hrun : ((System.runLabels (step sampleEnv) {} [.open (sampleCall (.flush 0))]).any fun s =>
      (perform sampleEnv s (keyGenerated 0)).any fun r =>
        r.2 && (r.1.disk.log.length ≤ maxFileSize && verifyChain sampleEnv r.1.disk = .ok (false, 2))) = true := by
    decide +kernel
  obtain ⟨s, hs, hlast⟩ := (Option.any_eq_true _ _).mp hrun
  obtain ⟨⟨s', returns⟩, hp, hr⟩ := (Option.any_eq_true _ _).mp hlast
  rw [Bool.and_eq_true, Bool.and_eq_true, decide_eq_true_eq, decide_eq_true_eq] at hr
  obtain ⟨rfl, hsize, hfalse⟩ := hr
  have hst : step sampleEnv s (keyGenerated 0) = some s' := by
    rw [step, hp]
    exact if_pos hsize
  have htrue := h sampleEnv s s' (keyGenerated 0) (System.reachable_of_runLabels _ (.init rfl) hs) hst
    ⟨hp, rfl, rfl⟩
  rw [htrue] at hfalse
  cases hfalse

end AuditLog
end GpgMeister
