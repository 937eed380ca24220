/-
# The status stream

GnuPG writes `[GNUPG:]` records, one a line, to a pipe of its own. Two readers
of `services/gpg_service.py` take them apart: `_parse_status`, which decodes
what it was given and cuts it with `str.splitlines`, and `_answer_prompts`
with `_prompt_keyword`, which cut the octets at line feeds as they arrive.

* `promptLines_eq`: the chunks in which the stream arrives make no difference
  to the second.
* `parseStatus_eq_flatMap`: the first finds in the stream what it finds in
  each line of it.
* `sameLines_iff`: exactly when the two see the same lines.
-/
import GpgMeister.Lib.Utf8

namespace GpgMeister
namespace Gpg

/-! ### Reads -/

/-- What one `os.read(fd, 4096)` returns before the end of the stream. -/
structure Chunk where
  data : Bytes
  nonempty : data ≠ []
  bound : data.length ≤ 4096
  deriving DecidableEq

/-- The octets of a list of reads. -/
def stream (reads : List Chunk) : Bytes := reads.flatMap Chunk.data

def lineFeedOctet : UInt8 := 0x0A

/-- The lines of a buffer that a line feed ends, which `while b"\n" in buffer`
takes from it. -/
def completeLines (buffer : Bytes) : List Bytes := (buffer.splitOn lineFeedOctet).dropLast

/-- What that loop leaves in the buffer. -/
def lastLine (buffer : Bytes) : Bytes := (buffer.splitOn lineFeedOctet).getLastD []

/-- The lines `_answer_prompts` looks at. -/
def promptLines : Bytes → List Chunk → List Bytes
  | _, [] => []
  | buffer, c :: reads => completeLines (buffer ++ c.data) ++ promptLines (lastLine (buffer ++ c.data)) reads

theorem splitOn_eq (data : Bytes) :
    data.splitOn lineFeedOctet = completeLines data ++ [lastLine data] := by
  have h := List.splitOn_ne_nil lineFeedOctet data
  rw [completeLines, lastLine, List.getLastD_eq_getLast?, List.getLast?_eq_getLast_of_ne_nil h, Option.getD_some,
    List.dropLast_append_getLast h]

theorem splitOn_append (a r : Bytes) :
    (a ++ r).splitOn lineFeedOctet = completeLines a ++ (lastLine a ++ r).splitOn lineFeedOctet :=
  splitOnP_append_of_eq r (splitOn_eq a)

theorem completeLines_append (a r : Bytes) :
    completeLines (a ++ r) = completeLines a ++ completeLines (lastLine a ++ r) := by
  unfold completeLines
  rw [splitOn_append, List.dropLast_append_of_ne_nil (List.splitOn_ne_nil _ _)]
  rfl

/-- **The reads make no difference**: the lines are those of the whole stream. -/
theorem promptLines_eq : ∀ (reads : List Chunk) {buffer : Bytes}, completeLines buffer = [] →
    promptLines buffer reads = completeLines (buffer ++ stream reads)
  | [], buffer, h => by simp [promptLines, stream, h]
  | c :: reads, buffer, _ => by
    have h : completeLines (lastLine (buffer ++ c.data)) = [] := by
      have := splitOn_append (buffer ++ c.data) []
      rw [List.append_nil, List.append_nil, splitOn_eq] at this
      have := List.append_cancel_left this
      rw [completeLines, ← this]
      rfl
    have ih := promptLines_eq reads h
    rw [promptLines, ih, ← completeLines_append, List.append_assoc]
    rfl

/-! ### Records -/

abbrev Record := List Str

def statusPrefix : Str := lit "[GNUPG:] "

/-- `_decode_output` -/
def decodeOutput (data : Bytes) : Str := Utf8.decodeReplace data

/-- The record of a line, if it has one. -/
def statusRecord (line : Str) : Option Record :=
  if statusPrefix <+: line then some (fields (line.drop statusPrefix.length)) else none

/-- `_parse_status` -/
def parseStatus (stderr : Bytes) : List Record :=
  (splitlines (decodeOutput stderr)).filterMap statusRecord

/-- GnuPG's records: those of the lines that line feeds end, and of the last. -/
def statusRecords (data : Bytes) : List Record :=
  (data.splitOn lineFeedOctet).filterMap (statusRecord ∘ decodeOutput)

/-- `_PROMPT_PREFIXES` -/
def promptPrefixes : List Str := [lit "GET_LINE", lit "GET_BOOL", lit "GET_HIDDEN"]

/-- The keyword of a prompt record. -/
def promptOf : Record → Option Str
  | tag :: keyword :: _ => if tag ∈ promptPrefixes then some keyword else none
  | _ => none

/-- `_prompt_keyword` -/
def promptKeyword (line : Bytes) : Option Str :=
  (statusRecord (strip (decodeOutput line))).bind promptOf

/-! ### What `_parse_status` finds in a line -/

/-- A line, cut at every boundary at which `str.splitlines` would cut it. -/
def parts (line : Str) : List Str := line.splitOnP isLineBoundary

/-- The records `_parse_status` finds in a line. -/
def lineRecords (line : Str) : List Record := (parts line).filterMap statusRecord

theorem statusRecord_nil : statusRecord [] = none := if_neg (by decide)

theorem filterMap_eq (l : List Str) : l.filterMap statusRecord = l.flatMap fun s => (statusRecord s).toList :=
  List.filterMap_eq_flatMap_toList _ _

theorem parseStatus_eq_flatMap (data : Bytes) :
    parseStatus data = ((data.splitOn lineFeedOctet).map decodeOutput).flatMap lineRecords := by
  have hf : (statusRecord []).toList = [] := by rw [statusRecord_nil]; rfl
  have hb : ∀ c : CodePoint, (c == lineFeed) = true → isLineBoundary c = true := fun c hc => by
    rw [beq_iff_eq.mp hc]
    decide
  have hl := Utf8.splitOn_decodeReplace data
  rw [List.splitOn_eq_splitOnP] at hl
  calc parseStatus data
      = (splitlines (decodeOutput data)).flatMap fun s => (statusRecord s).toList := filterMap_eq _
    _ = ((decodeOutput data).splitOnP isLineBoundary).flatMap fun s => (statusRecord s).toList :=
        flatMap_splitlines _ hf _
    _ = (((data.splitOn lineFeedOctet).map decodeOutput).flatMap parts).flatMap
          fun s => (statusRecord s).toList := by
        rw [← splitOnP_flatMap hb, decodeOutput, hl]
        rfl
    _ = _ := by
        rw [List.flatMap_assoc, show lineRecords = _ from funext fun line => filterMap_eq (parts line)]

theorem statusRecords_eq_flatMap (data : Bytes) :
    statusRecords data =
      ((data.splitOn lineFeedOctet).map decodeOutput).flatMap fun line => (statusRecord line).toList := by
  rw [List.flatMap_map, statusRecords, List.filterMap_eq_flatMap_toList]
  rfl

theorem statusPrefix_noBoundary : ∀ c ∈ statusPrefix, isLineBoundary c = false := by
  have h : statusPrefix.all (fun c => ! isLineBoundary c) = true := by decide
  intro c hc
  simpa using List.all_eq_true.mp h c hc

/-- A line with the prefix keeps it when it is cut. -/
theorem parts_statusPrefix {r t : Str} {ts : List Str} (h : parts r = t :: ts) :
    parts (statusPrefix ++ r) = (statusPrefix ++ t) :: ts := by
  rw [parts, splitOnP_append statusPrefix_noBoundary, ← parts, h]
  rfl

theorem statusRecord_append (r : Str) : statusRecord (statusPrefix ++ r) = some (fields r) := by
  rw [statusRecord, if_pos (List.prefix_append _ _), List.drop_left]

/-- A line holds one record or none, wherever `str.splitlines` cuts it: what
follows the first part of a record is blank, and no other part begins a
record. -/
def LineIntact (line : Str) : Prop :=
  if statusPrefix <+: line then ∀ t ∈ (parts line).tail, fields t = []
  else ∀ t ∈ (parts line).tail, ¬ statusPrefix <+: t

instance (line : Str) : Decidable (LineIntact line) := by unfold LineIntact; infer_instance

/-- Cut or not, a line has its record. -/
theorem statusRecord_length_le (line : Str) :
    (statusRecord line).toList.length ≤ (lineRecords line).length := by
  by_cases h : statusPrefix <+: line
  · obtain ⟨r, rfl⟩ := h
    obtain ⟨t, ts, ht⟩ := List.exists_cons_of_ne_nil (List.splitOnP_ne_nil isLineBoundary r)
    rw [statusRecord_append, lineRecords, parts_statusPrefix ht, List.filterMap_cons, statusRecord_append]
    simp
  · rw [statusRecord, if_neg h]
    simp

/-- `_parse_status` reads a line as what it is exactly if the line is intact. -/
theorem lineRecords_eq_iff (line : Str) :
    lineRecords line = (statusRecord line).toList ↔ LineIntact line := by
  unfold LineIntact
  split_ifs with h
  · obtain ⟨r, rfl⟩ := h
    obtain ⟨t, ts, ht⟩ := List.exists_cons_of_ne_nil (List.splitOnP_ne_nil isLineBoundary r)
    have hr : fields r = fields t ++ ts.flatMap fields := by
      rw [fields_eq_flatMap r, ht, List.flatMap_cons]
    rw [statusRecord_append, lineRecords, parts_statusPrefix ht, List.filterMap_cons, statusRecord_append, hr]
    simp only [Option.toList_some, List.cons.injEq, List.self_eq_append_right, List.flatMap_eq_nil_iff,
      List.filterMap_eq_nil_iff, List.tail_cons]
    refine ⟨fun h => h.1, fun h => ⟨h, fun s hs => ?_⟩⟩
    -- a blank part does not begin with `[`
    refine if_neg fun hp => ?_
    have := fields_eq_nil.mp (h s hs) _ (hp.subset (List.mem_cons_self (a := codePoint '[')))
    exact absurd this (by decide)
  · obtain ⟨t, ts, ht⟩ := List.exists_cons_of_ne_nil (List.splitOnP_ne_nil isLineBoundary line)
    have h' : ¬ statusPrefix <+: t := fun hp => h (hp.trans (prefix_of_splitOnP ht))
    rw [lineRecords, parts, ht, List.filterMap_cons, statusRecord, if_neg h', statusRecord, if_neg h]
    simp only [Option.toList_none, List.filterMap_eq_nil_iff, List.tail_cons]
    exact forall₂_congr fun s _ => by rw [statusRecord]; split_ifs <;> simp_all

/-! ### Prompts -/

/-- The prompts of a line's record. -/
def linePrompt (line : Str) : Option Str := (statusRecord line).bind promptOf

theorem promptOf_fields_of_space {s : Str} (h : ∀ c ∈ s, isSpace c = true) : promptOf (fields s) = none := by
  rw [fields_eq_nil.mpr h]
  rfl

/-- White space at the end of a line is in no prompt. -/
theorem linePrompt_append_of_space {w : Str} (hw : ∀ c ∈ w, isSpace c = true) (t : Str) :
    linePrompt (t ++ w) = linePrompt t := by
  by_cases ht : statusPrefix <+: t
  · obtain ⟨r, rfl⟩ := ht
    rw [List.append_assoc, linePrompt, linePrompt, statusRecord_append, statusRecord_append,
      fields_append_of_space hw]
  have hn : linePrompt t = none := by rw [linePrompt, statusRecord, if_neg ht]; rfl
  rw [hn, linePrompt, statusRecord]
  split_ifs with h
  · -- the prefix ends in white space, so what follows it is blank
    have hlen : t.length ≤ statusPrefix.length := by
      by_contra hl
      exact ht (List.prefix_of_prefix_length_le h (List.prefix_append t w) (by omega))
    rw [Option.bind_some, List.drop_append, List.drop_eq_nil_of_le hlen, List.nil_append]
    exact promptOf_fields_of_space fun c hc => hw c (List.mem_of_mem_drop hc)
  · rfl

theorem promptKeyword_eq (line : Bytes) :
    promptKeyword line = linePrompt ((decodeOutput line).dropWhile isSpace) := by
  generalize ht : (decodeOutput line).dropWhile isSpace = t
  have h := linePrompt_append_of_space (w := t.rtakeWhile isSpace) (fun c hc => List.mem_rtakeWhile_imp hc)
    (t.rdropWhile isSpace)
  rw [List.rdropWhile_append_rtakeWhile] at h
  rw [h, promptKeyword, strip, ht]
  rfl

/-- A line is a prompt to `_prompt_keyword` only because it does not mind white
space before the prefix. -/
def IndentedPrompt (line : Str) : Prop :=
  line.head?.any isSpace = true ∧ (linePrompt (line.dropWhile isSpace)).isSome = true

instance (line : Str) : Decidable (IndentedPrompt line) := by unfold IndentedPrompt; infer_instance

/-- `_parse_status` wants the prefix at the very start. -/
theorem linePrompt_of_space {c : CodePoint} (hc : isSpace c = true) (line : Str) :
    linePrompt (c :: line) = none := by
  have h : ¬ statusPrefix <+: c :: line := by
    rintro ⟨r, hr⟩
    cases hr
    exact absurd hc (by decide)
  rw [linePrompt, statusRecord, if_neg h]
  rfl

theorem linePrompt_length_le : ∀ line : Str,
    (linePrompt line).toList.length ≤ (linePrompt (line.dropWhile isSpace)).toList.length
  | [] => le_rfl
  | c :: line => by
    by_cases hc : isSpace c = true
    · rw [linePrompt_of_space hc]
      exact Nat.zero_le _
    · rw [List.dropWhile_cons_of_neg hc]

theorem linePrompt_eq_iff : ∀ line : Str,
    linePrompt (line.dropWhile isSpace) = linePrompt line ↔ ¬ IndentedPrompt line
  | [] => by simp [IndentedPrompt]
  | c :: line => by
    unfold IndentedPrompt
    by_cases hc : isSpace c = true
    · rw [linePrompt_of_space hc]
      simp [hc]
    · rw [List.dropWhile_cons_of_neg hc]
      simp [hc]

/-! ### The two readers -/

/-- A stream up to its last line feed. -/
def terminated (data : Bytes) : Bytes := data.rdropWhile (· != lineFeedOctet)

theorem splitOn_terminated (data : Bytes) :
    (terminated data).splitOn lineFeedOctet = completeLines data ++ [[]] := by
  have hw : lineFeedOctet ∉ data.rtakeWhile (· != lineFeedOctet) := fun h => by
    simpa using List.mem_rtakeWhile_imp h
  have hd : terminated data ++ data.rtakeWhile (· != lineFeedOctet) = data :=
    List.rdropWhile_append_rtakeWhile
  rcases List.eq_nil_or_concat' (terminated data) with h | ⟨a, b, h⟩
  · rw [h, List.nil_append] at hd
    rw [h, completeLines, ← hd, List.splitOn_eq_singleton hw]
    rfl
  · have hb : b = lineFeedOctet := by
      have hne : terminated data ≠ [] := by rw [h]; simp
      have hl : ¬ ((terminated data).getLast hne != lineFeedOctet) = true := List.rdropWhile_last_not _ _ hne
      simpa [h] using hl
    subst hb
    have hs : data.splitOn lineFeedOctet = a.splitOn lineFeedOctet ++ [data.rtakeWhile (· != lineFeedOctet)] := by
      conv_lhs => rw [← hd, h, List.append_assoc]
      rw [List.cons_append, List.nil_append, List.splitOn_append_cons_self, List.splitOn_eq_singleton hw]
    rw [h, completeLines, hs, List.dropLast_concat, List.splitOn_append_cons_self]
    rfl

theorem parseStatus_terminated (data : Bytes) :
    parseStatus (terminated data) = ((completeLines data).map decodeOutput).flatMap lineRecords := by
  rw [parseStatus_eq_flatMap, splitOn_terminated, List.map_append, List.flatMap_append]
  exact List.append_nil _

/-- `_parse_status` returns the records of the lines, and among those the
prompts that `_answer_prompts` sees. -/
structure SameLines (reads : List Chunk) : Prop where
  records : parseStatus (stream reads) = statusRecords (stream reads)
  prompts : (promptLines [] reads).filterMap promptKeyword =
    (parseStatus (terminated (stream reads))).filterMap promptOf

/-- No line is one that the two readers read differently. -/
structure StreamIntact (data : Bytes) : Prop where
  lines : ∀ line ∈ data.splitOn lineFeedOctet, LineIntact (decodeOutput line)
  prompts : ∀ line ∈ completeLines data, ¬ IndentedPrompt (decodeOutput line)

theorem parseStatus_eq_iff (data : Bytes) : parseStatus data = statusRecords data ↔
    ∀ line ∈ data.splitOn lineFeedOctet, LineIntact (decodeOutput line) := by
  rw [parseStatus_eq_flatMap, statusRecords_eq_flatMap,
    flatMap_eq_iff fun line _ => statusRecord_length_le line, List.forall_mem_map]
  exact forall₂_congr fun line _ => lineRecords_eq_iff _

/-- Where every line is intact, the two readers find the same prompts unless
one is indented. -/
theorem prompts_eq_iff {data : Bytes} (h : ∀ line ∈ data.splitOn lineFeedOctet, LineIntact (decodeOutput line)) :
    (completeLines data).filterMap promptKeyword = (parseStatus (terminated data)).filterMap promptOf ↔
      ∀ line ∈ completeLines data, ¬ IndentedPrompt (decodeOutput line) := by
  have hr : (parseStatus (terminated data)).filterMap promptOf =
      (completeLines data).flatMap fun line => (linePrompt (decodeOutput line)).toList := by
    rw [parseStatus_terminated, List.filterMap_flatMap, List.flatMap_map]
    refine List.flatMap_congr fun line hl => ?_
    rw [(lineRecords_eq_iff _).mpr (h line (by rw [splitOn_eq]; exact List.mem_append_left _ hl)), linePrompt]
    cases statusRecord (decodeOutput line) with
    | none => rfl
    | some r => exact List.filterMap_eq_flatMap_toList promptOf [r] ▸ List.append_nil _
  rw [hr, List.filterMap_eq_flatMap_toList, flatMap_eq_iff fun line _ => by
    rw [promptKeyword_eq]
    exact linePrompt_length_le _]
  refine forall₂_congr fun line _ => ?_
  rw [promptKeyword_eq, ← linePrompt_eq_iff]
  refine ⟨fun h => ?_, congrArg Option.toList⟩
  have := congrArg List.head? h
  rwa [Option.head?_toList, Option.head?_toList] at this

/-- **The two readers see the same lines** exactly if no line holds a boundary
at which only `str.splitlines` cuts and after which it finds something, and
none is a prompt for the white space in front of it. -/
theorem sameLines_iff (reads : List Chunk) : SameLines reads ↔ StreamIntact (stream reads) := by
  have hp : promptLines [] reads = completeLines (stream reads) := promptLines_eq reads rfl
  constructor
  · rintro ⟨h1, h2⟩
    have hl := (parseStatus_eq_iff _).mp h1
    rw [hp] at h2
    exact ⟨hl, (prompts_eq_iff hl).mp h2⟩
  · rintro ⟨hl, hi⟩
    refine ⟨(parseStatus_eq_iff _).mpr hl, ?_⟩
    rw [hp]
    exact (prompts_eq_iff hl).mpr hi

/-- A user ID with a line separator in it. -/
def separatorInUserId : Chunk where
  data := ascii "[GNUPG:] USERID_HINT F x" ++ [0xE2, 0x80, 0xA8] ++ ascii "[GNUPG:] IMPORT_OK 1 F" ++ [0x0A]
  nonempty := by decide
  bound := by decide

/-- `_parse_status` finds two records in one line. -/
theorem not_sameLines : ¬ ∀ reads : List Chunk, SameLines reads := by
  intro h
  have := (h [separatorInUserId]).records
  exact absurd (congrArg List.length this) (by decide)

end Gpg
end GpgMeister
