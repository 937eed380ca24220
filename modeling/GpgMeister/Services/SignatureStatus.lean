/-
# The status of a signature

`GPGService.verify` and `GPGService.decrypt` judge a signature by the records
of the status stream: `_drain_pipe` keeps the stream up to a limit,
`_parse_status` takes the records from what was kept, and
`_evaluate_signature` weighs them.

* `evaluateSignature_valid_iff`: what makes the verdict VALID.
* `validOnly_readable`: a VALID is deserved if the stream is within the limit and
  no boundary inside a line makes up or hides a record that counts; and every
  such line, and one octet more, is misjudged in some stream.
-/
import GpgMeister.Errors
import GpgMeister.Services.StatusStream

namespace GpgMeister
namespace Gpg

/-- `SignatureStatus` -/
inductive SignatureStatus
  | none
  | valid
  | invalid
  | revokedKey
  | expiredKey
  | expiredSig
  | error
  deriving DecidableEq, Repr

/-! ### `_drain_pipe` -/

/-- `_STATUS_BUF_LIMIT` -/
def statusBufLimit : ℕ := 1 * 1024 * 1024

/-- `_drain_pipe`: the first read that goes over the limit ends it. -/
def drainPipe (limit : ℕ) : Bytes → List Chunk → Bytes
  | buffer, [] => buffer
  | buffer, c :: reads =>
    if buffer.length + c.data.length > limit then buffer else drainPipe limit (buffer ++ c.data) reads

/-- Within the limit, everything is kept. -/
theorem drainPipe_eq {limit : ℕ} : ∀ {reads : List Chunk} {buffer : Bytes},
    (buffer ++ stream reads).length ≤ limit → drainPipe limit buffer reads = buffer ++ stream reads
  | [], buffer, _ => by simp [drainPipe, stream]
  | c :: reads, buffer, h => by
    have hs : buffer ++ stream (c :: reads) = buffer ++ c.data ++ stream reads := by
      rw [List.append_assoc]
      rfl
    rw [hs] at h ⊢
    have hc : ¬ buffer.length + c.data.length > limit := by
      rw [List.length_append, List.length_append] at h
      omega
    rw [drainPipe, if_neg hc]
    exact drainPipe_eq h

/-! ### `_evaluate_signature` -/

def goodsig : Str := lit "GOODSIG"
def validsig : Str := lit "VALIDSIG"

/-- `_SIG_DOWNGRADE` -/
def sigDowngrade : List (Str × SignatureStatus) :=
  [(lit "REVKEYSIG", .revokedKey), (lit "EXPKEYSIG", .expiredKey), (lit "EXPSIG", .expiredSig),
    (lit "BADSIG", .invalid), (lit "ERRSIG", .error)]

section Evaluate

/- A point in time, and what `datetime.fromtimestamp(float(field))` makes of a
field; `none` stands for the exceptions that are suppressed. -/
variable {Time : Type} (fromTimestamp : Str → Option Time)

/-- The variables of the loop over the records. -/
structure Scan (Time : Type) where
  hasGoodsig : Bool := false
  hasValidsig : Bool := false
  downgrade : Option SignatureStatus := none
  signerFp : Option Str := none
  signedAt : Option Time := none

/-- The body of the loop. -/
def scanRecord (s : Scan Time) : Record → Scan Time
  | [] => s
  | tag :: values =>
    if tag = goodsig then { s with hasGoodsig := true }
    else if tag = validsig ∧ values ≠ [] then
      { s with
        hasValidsig := true
        signerFp := values.head?
        signedAt := (values[2]?.bind fromTimestamp).orElse fun _ => s.signedAt }
    else
      match sigDowngrade.lookup tag with
      | some d => { s with downgrade := some d }
      | none => s

/-- `_evaluate_signature` -/
def evaluateSignature (records : List Record) : SignatureStatus × Option Str × Option Time :=
  let s := records.foldl (scanRecord fromTimestamp) {}
  match s.downgrade with
  | some d => (d, s.signerFp, s.signedAt)
  | none =>
    if s.hasGoodsig && s.hasValidsig then (.valid, s.signerFp, s.signedAt)
    else if s.hasGoodsig || s.hasValidsig then (.error, s.signerFp, s.signedAt)
    else (.none, none, none)

/-- A good signature by some key. -/
def Record.isGoodsig (r : Record) : Bool := r.head? = some goodsig

/-- A `VALIDSIG` that names the key. -/
def Record.isValidsig (r : Record) : Bool := r.head? = some validsig && 1 < r.length

/-- The records that take a signature its validity. -/
def problemTags : List Str :=
  [lit "BADSIG", lit "ERRSIG", lit "EXPSIG", lit "EXPKEYSIG", lit "REVKEYSIG"]

def Record.isProblem (r : Record) : Bool := r.head?.any fun tag => tag ∈ problemTags

theorem lookup_isSome_iff (tag : Str) : (sigDowngrade.lookup tag).isSome = true ↔ tag ∈ problemTags := by
  have hp : problemTags.Perm (sigDowngrade.map Prod.fst) := by decide
  rw [List.lookup_isSome_iff, hp.mem_iff, List.mem_map]
  exact exists_congr fun p => and_congr_right fun _ => by rw [beq_iff_eq, eq_comm]

theorem scanRecord_downgrade (s : Scan Time) (tag : Str) (values : List Str) :
    (scanRecord fromTimestamp s (tag :: values)).downgrade = (sigDowngrade.lookup tag).or s.downgrade := by
  have hg : sigDowngrade.lookup goodsig = none := by decide
  have hv : sigDowngrade.lookup validsig = none := by decide
  rw [scanRecord]
  split_ifs with h1 h2
  · rw [h1, hg, Option.none_or]
  · rw [h2.1, hv, Option.none_or]
  · cases sigDowngrade.lookup tag <;> rfl

theorem scanRecord_hasGoodsig (s : Scan Time) (r : Record) :
    (scanRecord fromTimestamp s r).hasGoodsig = (s.hasGoodsig || r.isGoodsig) := by
  cases r with
  | nil => simp [scanRecord, Record.isGoodsig]
  | cons tag values =>
    rw [scanRecord, Record.isGoodsig]
    split_ifs with h1
    · simp [h1]
    · simp [h1]
    · split <;> simp [h1]

theorem scanRecord_hasValidsig (s : Scan Time) (r : Record) :
    (scanRecord fromTimestamp s r).hasValidsig = (s.hasValidsig || r.isValidsig) := by
  have hne : goodsig ≠ validsig := by decide
  cases r with
  | nil => simp [scanRecord, Record.isValidsig]
  | cons tag values =>
    have hv : Record.isValidsig (tag :: values) = decide (tag = validsig ∧ values ≠ []) := by
      cases values <;> simp [Record.isValidsig]
    rw [hv]
    rw [scanRecord]
    split_ifs with h1 h2
    · simp [h1, hne]
    · simp [h2]
    · split <;> simp [h2]

theorem scanRecord_downgrade_none (s : Scan Time) (r : Record) :
    (scanRecord fromTimestamp s r).downgrade = none ↔ s.downgrade = none ∧ r.isProblem = false := by
  cases r with
  | nil => simp [scanRecord, Record.isProblem]
  | cons tag values =>
    have h := lookup_isSome_iff tag
    rw [scanRecord_downgrade, Option.or_eq_none_iff, and_comm,
      ← Option.not_isSome_iff_eq_none (o := sigDowngrade.lookup tag), h]
    simp [Record.isProblem]

/-- What the loop has found at its end. -/
theorem foldl_scanRecord : ∀ (records : List Record) (s : Scan Time),
    let t := records.foldl (scanRecord fromTimestamp) s
    t.hasGoodsig = (s.hasGoodsig || records.any Record.isGoodsig) ∧
      t.hasValidsig = (s.hasValidsig || records.any Record.isValidsig) ∧
      (t.downgrade = none ↔ s.downgrade = none ∧ records.any Record.isProblem = false)
  | [], s => by simp
  | r :: records, s => by
    obtain ⟨h1, h2, h3⟩ := foldl_scanRecord records (scanRecord fromTimestamp s r)
    rw [scanRecord_hasGoodsig] at h1
    rw [scanRecord_hasValidsig] at h2
    rw [scanRecord_downgrade_none] at h3
    refine ⟨?_, ?_, ?_⟩
    · rw [List.foldl_cons, h1, List.any_cons, Bool.or_assoc]
    · rw [List.foldl_cons, h2, List.any_cons, Bool.or_assoc]
    · rw [List.foldl_cons, h3, List.any_cons, Bool.or_eq_false_iff, and_assoc]

theorem lookup_ne_valid (tag : Str) : sigDowngrade.lookup tag ≠ some .valid := by
  intro h
  obtain ⟨l1, l2, hl, -⟩ := List.lookup_eq_some_iff.mp h
  have hm : SignatureStatus.valid ∈ sigDowngrade.map Prod.snd := by simp [hl]
  exact absurd hm (by decide)

theorem foldl_downgrade_ne_valid : ∀ (records : List Record) (s : Scan Time), s.downgrade ≠ some .valid →
    (records.foldl (scanRecord fromTimestamp) s).downgrade ≠ some .valid
  | [], _, h => h
  | [] :: records, s, h => foldl_downgrade_ne_valid records s h
  | (tag :: values) :: records, s, h => by
    refine foldl_downgrade_ne_valid records _ ?_
    rw [scanRecord_downgrade]
    have hl := lookup_ne_valid tag
    cases ht : sigDowngrade.lookup tag with
    | none => exact h
    | some d =>
      rw [ht] at hl
      exact hl

/-- What the records have to show for a VALID. -/
structure ShowsValid (records : List Record) : Prop where
  goodsig : records.any Record.isGoodsig = true
  validsig : records.any Record.isValidsig = true
  problem : records.any Record.isProblem = false

theorem evaluateSignature_valid_iff (records : List Record) :
    (evaluateSignature fromTimestamp records).1 = .valid ↔ ShowsValid records := by
  obtain ⟨h1, h2, h3⟩ := foldl_scanRecord fromTimestamp records {}
  have h4 := foldl_downgrade_ne_valid fromTimestamp records {} (by simp)
  simp only [Bool.false_or, true_and] at h1 h2 h3
  unfold evaluateSignature
  dsimp only
  cases hd : (records.foldl (scanRecord fromTimestamp) {}).downgrade with
  | some d =>
    rw [hd] at h3 h4
    refine iff_of_false (fun h => h4 (congrArg some h)) fun h => ?_
    simpa using h3.mpr h.problem
  | none =>
    rw [h1, h2]
    split_ifs with hv hp
    · rw [Bool.and_eq_true] at hv
      exact iff_of_true rfl ⟨hv.1, hv.2, h3.mp hd⟩
    · refine iff_of_false (by simp) fun h => hv ?_
      rw [h.goodsig, h.validsig]
      rfl
    · refine iff_of_false (by simp) fun h => hv ?_
      rw [h.goodsig, h.validsig]
      rfl

end Evaluate

/-! ### A run of GnuPG -/

/-- What `_run_gpg` returns. -/
structure GPGRun where
  returncode : ℤ
  stdout : Bytes
  stderr : Bytes
  status : Bytes

/-- A run with a status pipe: the drain thread keeps what it does of the
stream. -/
def statusRun (returncode : ℤ) (stdout stderr : Bytes) (reads : List Chunk) : GPGRun where
  returncode := returncode
  stdout := stdout
  stderr := stderr
  status := drainPipe statusBufLimit [] reads

section Decrypt

/- `str.lower` -/
variable (lower : Str → Str)

/-- `_CARDCTRL_MISSING` -/
def cardctrlMissing : List Str := [lit "1", lit "5", lit "6"]

/-- `_CARD_MISSING_MARKERS` -/
def cardMissingMarkers : List Str :=
  [lit "no such device", lit "card not present", lit "no openpgp card", lit "openpgp card not available",
    lit "card removed", lit "selecting card failed", lit "no card reader", lit "card error"]

/-- `_CARD_PIN_MARKERS` -/
def cardPinMarkers : List Str :=
  [lit "bad pin", lit "wrong pin", lit "invalid pin", lit "pin blocked", lit "card is permanently locked",
    lit "chv retry counter"]

def cardPinReason : Str :=
  lit "the smartcard PIN was rejected — check the remaining attempts before retrying"

def cardMissingReason : Str := lit "no smartcard is available — insert your token and try again"

/-- A `CARDCTRL` record that says there is no card. -/
def isCardMissing : Record → Bool
  | tag :: code :: _ => tag = lit "CARDCTRL" && code ∈ cardctrlMissing
  | _ => false

/-- `_card_diagnosis` -/
def cardDiagnosis (records : List Record) (combinedText : Str) : Option (ErrorClass × Str) :=
  if cardPinMarkers.any (contains (lower combinedText)) then some (.gpgCardPinError, cardPinReason)
  else if records.any isCardMissing then some (.gpgCardError, cardMissingReason)
  else if cardMissingMarkers.any (contains (lower combinedText)) then some (.gpgCardError, cardMissingReason)
  else none

/-- `_raise_for_card_failure` -/
def raiseForCardFailure (records : List Record) (combinedText operation : Str) : Except Exc Unit :=
  match cardDiagnosis lower records combinedText with
  | none => .ok ()
  | some (errorType, reason) =>
    .error
      { cls := errorType
        message := operation ++ lit " failed: " ++ reason
        diagnostics := combinedText }

/-- `_require_decrypt_ok` -/
def requireDecryptOk (proc : GPGRun) : Except Exc Unit :=
  if proc.returncode = 0 then .ok ()
  else do
    let statusText := decodeOutput proc.status
    let stderrText := decodeOutput proc.stderr
    let combined := lower (statusText ++ lit "\n" ++ stderrText)
    let detail := (if stderrText ≠ [] then stderrText else statusText).take 200
    raiseForCardFailure lower (parseStatus proc.status) combined (lit "decryption")
    let message := lit "decryption failed: " ++ detail
    if contains combined (lit "bad_passphrase") || contains combined (lit "bad passphrase") ||
        contains combined (lit "no secret key") then
      .error { cls := .gpgPassphraseError, message }
    else .error { cls := .gpgProcessError, message }

/-- `_decryption_fingerprint` -/
def decryptionFingerprint : List Record → Option Str
  | [] => none
  | (tag :: fingerprint :: _) :: records =>
    if tag = lit "DECRYPTION_KEY" then some fingerprint else decryptionFingerprint records
  | _ :: records => decryptionFingerprint records

/-- What `GPGService.decrypt` returns. -/
structure Decrypted where
  plaintext : Bytes
  signer : Option Str
  signatureStatus : SignatureStatus
  decryptedWith : Option Str

variable {Time : Type} (fromTimestamp : Str → Option Time)

/-- `GPGService.decrypt`, from the run on. -/
def decrypt (proc : GPGRun) : Except Exc Decrypted := do
  requireDecryptOk lower proc
  let records := parseStatus proc.status
  let (status, signer, _) := evaluateSignature fromTimestamp records
  .ok
    { plaintext := proc.stdout
      signer := signer
      signatureStatus := status
      decryptedWith := decryptionFingerprint records }

/-- `GPGService.verify`, from the run on. -/
def verify (proc : GPGRun) : SignatureStatus × Option Str × Option Time :=
  let (status, fp, signedAt) := evaluateSignature fromTimestamp (parseStatus proc.status)
  if status = .none ∧ proc.returncode ∉ ([0, 1] : List ℤ) then (.error, none, none)
  else (status, fp, signedAt)

/-- A failed run raises. -/
theorem requireDecryptOk_ne_ok {proc : GPGRun} (h : proc.returncode ≠ 0) :
    requireDecryptOk lower proc ≠ .ok () := by
  rw [requireDecryptOk, if_neg h]
  intro he
  dsimp only at he
  cases hc : raiseForCardFailure lower (parseStatus proc.status)
    (lower (decodeOutput proc.status ++ lit "\n" ++ decodeOutput proc.stderr)) (lit "decryption") with
  | error e =>
    rw [hc] at he
    cases he
  | ok u =>
    rw [hc] at he
    change (if _ then _ else _) = _ at he
    split_ifs at he

theorem decrypt_valid {proc : GPGRun} {result : Decrypted} (h : decrypt lower fromTimestamp proc = .ok result)
    (hv : result.signatureStatus = .valid) : ShowsValid (parseStatus proc.status) := by
  rw [← evaluateSignature_valid_iff fromTimestamp, ← hv]
  unfold decrypt at h
  cases hr : requireDecryptOk lower proc with
  | error e =>
    rw [hr] at h
    cases h
  | ok u =>
    rw [hr] at h
    cases h
    rfl

theorem verify_valid_iff (proc : GPGRun) :
    (verify fromTimestamp proc).1 = .valid ↔ ShowsValid (parseStatus proc.status) := by
  rw [← evaluateSignature_valid_iff fromTimestamp, verify]
  obtain ⟨status, fp, signedAt⟩ := evaluateSignature fromTimestamp (parseStatus proc.status)
  dsimp only
  split_ifs with h
  · simp [h.1]
  · rfl

/-! ### VALID is deserved -/

/-- The stream GnuPG wrote vouches for the signature. -/
structure Vouches (data : Bytes) : Prop where
  goodsig : ∃ r ∈ statusRecords data, r.head? = some Gpg.goodsig
  validsig : ∃ r ∈ statusRecords data, r.head? = some Gpg.validsig
  problem : ∀ r ∈ statusRecords data, ∀ tag ∈ problemTags, r.head? ≠ some tag

/-- Neither `verify` nor `decrypt` reports VALID unless the stream vouches for
it. -/
structure ValidOnly (returncode : ℤ) (stdout stderr : Bytes) (reads : List Chunk) : Prop where
  verify : (verify fromTimestamp (statusRun returncode stdout stderr reads)).1 = .valid →
    Vouches (stream reads)
  decrypt : ∀ result, decrypt lower fromTimestamp (statusRun returncode stdout stderr reads) = .ok result →
    result.signatureStatus = .valid → Vouches (stream reads)

end Decrypt

/-! ### Streams that are read as what they are -/

/-- A record that vouches for the signature, with a fingerprint or without. -/
def Record.hasValidsig (r : Record) : Bool := r.head? = some validsig

/-- For the verdict, a line is one line to the parser: a boundary of
`str.splitlines` inside it hides no problem, and makes up no good signature
unless it makes up a problem too. -/
structure VerdictIntact (line : Str) : Prop where
  problem : (statusRecord line).any Record.isProblem = true → (lineRecords line).any Record.isProblem = true
  goodsig : (lineRecords line).any Record.isGoodsig = true →
    (statusRecord line).any Record.isGoodsig = true ∨ (lineRecords line).any Record.isProblem = true
  validsig : (lineRecords line).any Record.isValidsig = true →
    (statusRecord line).any Record.hasValidsig = true ∨ (lineRecords line).any Record.isProblem = true

theorem Record.hasValidsig_of_isValidsig {r : Record} (h : r.isValidsig = true) : r.hasValidsig = true := by
  rw [isValidsig, Bool.and_eq_true] at h
  exact h.1

/-- An intact line is intact for the verdict. -/
theorem LineIntact.verdictIntact {line : Str} (h : LineIntact line) : VerdictIntact line := by
  have hrecords : lineRecords line = (statusRecord line).toList := (lineRecords_eq_iff line).mpr h
  have hany (p : Record → Bool) : (lineRecords line).any p = (statusRecord line).any p := by
    rw [hrecords]
    cases statusRecord line <;> simp
  refine ⟨fun h => ?_, fun h => .inl ?_, fun h => .inl ?_⟩
  · rw [hany]
    exact h
  · rwa [hany] at h
  · rw [hany, Option.any_eq_true] at h
    obtain ⟨r, hr, hv⟩ := h
    exact (Option.any_eq_true _ _).mpr ⟨r, hr, Record.hasValidsig_of_isValidsig hv⟩

/-- The stream is within the limit of the drain thread, and its lines are
intact for the verdict. -/
structure Readable (data : Bytes) : Prop where
  size : data.length ≤ statusBufLimit
  lines : ∀ line ∈ data.splitOn lineFeedOctet, VerdictIntact (decodeOutput line)

theorem any_parseStatus (data : Bytes) (p : Record → Bool) : (parseStatus data).any p =
    (data.splitOn lineFeedOctet).any fun line => (lineRecords (decodeOutput line)).any p := by
  rw [parseStatus_eq_flatMap, List.any_flatMap, List.any_map]
  rfl

theorem any_statusRecords (data : Bytes) (p : Record → Bool) : (statusRecords data).any p =
    (data.splitOn lineFeedOctet).any fun line => (statusRecord (decodeOutput line)).any p := by
  unfold statusRecords
  rw [List.any_filterMap]
  rfl

theorem isProblem_iff (r : Record) : r.isProblem = true ↔ ∃ tag ∈ problemTags, r.head? = some tag := by
  rw [Record.isProblem, Option.any_eq_true]
  exact ⟨fun ⟨tag, h, ht⟩ => ⟨tag, of_decide_eq_true ht, h⟩, fun ⟨tag, ht, h⟩ => ⟨tag, h, decide_eq_true ht⟩⟩

theorem vouches_iff (data : Bytes) : Vouches data ↔ (statusRecords data).any Record.isGoodsig = true ∧
    (statusRecords data).any Record.hasValidsig = true ∧ (statusRecords data).any Record.isProblem = false := by
  rw [List.any_eq_true, List.any_eq_true, List.any_eq_false]
  constructor
  · rintro ⟨⟨g, hg, hgood⟩, ⟨v, hv, hvalid⟩, hp⟩
    refine ⟨⟨g, hg, decide_eq_true hgood⟩, ⟨v, hv, decide_eq_true hvalid⟩, fun r hr hproblem => ?_⟩
    obtain ⟨tag, ht, he⟩ := (isProblem_iff r).mp hproblem
    exact hp r hr tag ht he
  · rintro ⟨⟨g, hg, hgood⟩, ⟨v, hv, hvalid⟩, hp⟩
    refine ⟨⟨g, hg, of_decide_eq_true hgood⟩, ⟨v, hv, of_decide_eq_true hvalid⟩, fun r hr tag ht he => ?_⟩
    exact hp r hr ((isProblem_iff r).mpr ⟨tag, ht, he⟩)

/-- What the parser finds in a readable stream is what GnuPG wrote. -/
theorem Readable.vouches {data : Bytes} (h : Readable data) (hs : ShowsValid (parseStatus data)) : Vouches data := by
  obtain ⟨hgood, hvalid, hproblem⟩ := hs
  rw [any_parseStatus, List.any_eq_true] at hgood hvalid
  rw [any_parseStatus, List.any_eq_false] at hproblem
  rw [vouches_iff, any_statusRecords, any_statusRecords, any_statusRecords, List.any_eq_true, List.any_eq_true,
    List.any_eq_false]
  refine ⟨?_, ?_, fun line hline hp => hproblem line hline ((h.lines line hline).problem hp)⟩
  · obtain ⟨line, hline, hg⟩ := hgood
    exact ⟨line, hline, ((h.lines line hline).goodsig hg).resolve_right (hproblem line hline)⟩
  · obtain ⟨line, hline, hv⟩ := hvalid
    exact ⟨line, hline, ((h.lines line hline).validsig hv).resolve_right (hproblem line hline)⟩

section Judged

variable {Time : Type} (lower : Str → Str) (fromTimestamp : Str → Option Time) (returncode : ℤ) (stdout stderr : Bytes)

/-- The verdict hangs on the records that are found in what was kept. -/
theorem validOnly_iff_vouches (reads : List Chunk) :
    ValidOnly lower fromTimestamp returncode stdout stderr reads ↔
      (ShowsValid (parseStatus (drainPipe statusBufLimit [] reads)) → Vouches (stream reads)) := by
  constructor
  · intro h hs
    exact h.verify ((verify_valid_iff fromTimestamp _).mpr hs)
  · intro h
    refine ⟨fun hv => ?_, fun result hr hv => ?_⟩
    · exact h ((verify_valid_iff fromTimestamp _).mp hv)
    · exact h (decrypt_valid lower fromTimestamp hr hv)

/-- A readable stream is judged rightly. -/
theorem validOnly_of_readable {reads : List Chunk} (h : Readable (stream reads)) :
    ValidOnly lower fromTimestamp returncode stdout stderr reads := by
  have hkept : drainPipe statusBufLimit [] reads = stream reads := drainPipe_eq h.size
  rw [validOnly_iff_vouches, hkept]
  exact h.vouches

end Judged

/-! ### Streams that are not -/

/-- Lines, each with its line feed. -/
def unlines (lines : List Bytes) : Bytes := lines.flatMap (· ++ [lineFeedOctet])

theorem splitOn_unlines : ∀ {lines : List Bytes}, (∀ line ∈ lines, lineFeedOctet ∉ line) →
    (unlines lines).splitOn lineFeedOctet = lines ++ [[]]
  | [], _ => rfl
  | line :: lines, h => by
    rw [List.forall_mem_cons] at h
    have hcons : unlines (line :: lines) = line ++ lineFeedOctet :: unlines lines := by simp [unlines]
    rw [hcons, List.splitOn_append_cons_self, List.splitOn_eq_singleton h.1, splitOn_unlines h.2]
    rfl

theorem length_unlines (lines : List Bytes) : (unlines lines).length = (lines.map (·.length + 1)).sum := by
  simp [unlines, List.length_flatMap]

/-- What the lines show is valid, and is not what GnuPG wrote. -/
structure Misleads (lines : List Bytes) : Prop where
  goodsig : (lines.any fun line => (lineRecords (decodeOutput line)).any Record.isGoodsig) = true
  validsig : (lines.any fun line => (lineRecords (decodeOutput line)).any Record.isValidsig) = true
  problem : (lines.any fun line => (lineRecords (decodeOutput line)).any Record.isProblem) = false
  wrong : (lines.any fun line => (statusRecord (decodeOutput line)).any Record.isGoodsig) = false ∨
    (lines.any fun line => (statusRecord (decodeOutput line)).any Record.hasValidsig) = false ∨
    (lines.any fun line => (statusRecord (decodeOutput line)).any Record.isProblem) = true

theorem any_parseStatus_unlines {lines : List Bytes} (h : ∀ line ∈ lines, lineFeedOctet ∉ line) (p : Record → Bool) :
    (parseStatus (unlines lines)).any p = lines.any fun line => (lineRecords (decodeOutput line)).any p := by
  have hnil : (lineRecords (decodeOutput [])).any p = false := rfl
  rw [any_parseStatus, splitOn_unlines h, List.any_append, List.any_cons, hnil, List.any_nil, Bool.or_false,
    Bool.or_false]

theorem any_statusRecords_unlines {lines : List Bytes} (h : ∀ line ∈ lines, lineFeedOctet ∉ line)
    (p : Record → Bool) :
    (statusRecords (unlines lines)).any p = lines.any fun line => (statusRecord (decodeOutput line)).any p := by
  have hnil : (statusRecord (decodeOutput [])).any p = false := rfl
  rw [any_statusRecords, splitOn_unlines h, List.any_append, List.any_cons, hnil, List.any_nil, Bool.or_false,
    Bool.or_false]

theorem Misleads.showsValid {lines : List Bytes} (h : Misleads lines) (hlines : ∀ line ∈ lines, lineFeedOctet ∉ line) :
    ShowsValid (parseStatus (unlines lines)) :=
  ⟨(any_parseStatus_unlines hlines _).trans h.goodsig, (any_parseStatus_unlines hlines _).trans h.validsig,
    (any_parseStatus_unlines hlines _).trans h.problem⟩

theorem Misleads.not_vouches {lines : List Bytes} (h : Misleads lines)
    (hlines : ∀ line ∈ lines, lineFeedOctet ∉ line) : ¬ Vouches (unlines lines) := by
  rw [vouches_iff, any_statusRecords_unlines hlines, any_statusRecords_unlines hlines,
    any_statusRecords_unlines hlines]
  rintro ⟨hgood, hvalid, hproblem⟩
  rcases h.wrong with hwrong | hwrong | hwrong
  · exact Bool.false_ne_true (hwrong.symm.trans hgood)
  · exact Bool.false_ne_true (hwrong.symm.trans hvalid)
  · exact Bool.false_ne_true (hproblem.symm.trans hwrong)

/-- One octet a read. -/
def singly (data : Bytes) : List Chunk :=
  data.map fun octet => { data := [octet], nonempty := by simp, bound := by simp }

theorem stream_singly : ∀ data : Bytes, stream (singly data) = data
  | [] => rfl
  | octet :: data => congrArg (octet :: ·) (stream_singly data)

def goodLine : Bytes := ascii "[GNUPG:] GOODSIG K"
def validLine : Bytes := ascii "[GNUPG:] VALIDSIG F"
def badLine : Bytes := ascii "[GNUPG:] BADSIG K"

/-- The lines of a plain verdict. -/
def plainLines : List Bytes := [goodLine, validLine, badLine, []]

theorem verdictIntact_plain {line : Bytes} (h : line ∈ plainLines) : VerdictIntact (decodeOutput line) := by
  have hall : plainLines.all (fun line => LineIntact (decodeOutput line)) = true := by decide
  exact (of_decide_eq_true (List.all_eq_true.mp hall line h)).verdictIntact

theorem lineFeed_not_mem_plain {line : Bytes} (h : line ∈ plainLines) : lineFeedOctet ∉ line := by
  have hall : plainLines.all (fun line => lineFeedOctet ∉ line) = true := by decide
  exact of_decide_eq_true (List.all_eq_true.mp hall line h)

/-- A line that is not intact misleads behind plain ones. -/
theorem exists_misleads {line : Bytes} (h : ¬ VerdictIntact (decodeOutput line)) :
    ∃ before ∈ [[goodLine, validLine], [goodLine], [validLine]], Misleads (before ++ [line]) := by
  have hgood : (lineRecords (decodeOutput goodLine)).any Record.isGoodsig = true ∧
      (lineRecords (decodeOutput goodLine)).any Record.isProblem = false ∧
      (statusRecord (decodeOutput goodLine)).any Record.hasValidsig = false := by decide
  have hvalid : (lineRecords (decodeOutput validLine)).any Record.isValidsig = true ∧
      (lineRecords (decodeOutput validLine)).any Record.isProblem = false ∧
      (statusRecord (decodeOutput validLine)).any Record.isGoodsig = false := by decide
  rcases hproblem : (lineRecords (decodeOutput line)).any Record.isProblem with _ | _
  · -- the parser finds no problem: one is hidden, or something good is made up
    rcases hown : (statusRecord (decodeOutput line)).any Record.isProblem with _ | _
    · by_cases hfine : (lineRecords (decodeOutput line)).any Record.isGoodsig = true →
          (statusRecord (decodeOutput line)).any Record.isGoodsig = true
      · have hforged : (lineRecords (decodeOutput line)).any Record.isValidsig = true ∧
            (statusRecord (decodeOutput line)).any Record.hasValidsig = false := by
          by_contra hnot
          refine h ⟨fun hp => absurd (hown.symm.trans hp) Bool.false_ne_true, fun hg => .inl (hfine hg), fun hv => ?_⟩
          by_contra hw
          exact hnot ⟨hv, by simpa using fun he => hw (.inl he)⟩
        refine ⟨[goodLine], by simp, ⟨?_, ?_, ?_, .inr (.inl ?_)⟩⟩
        · simp [hgood.1]
        · simp [hforged.1]
        · simp [hgood.2.1, hproblem]
        · simp [hgood.2.2, hforged.2]
      · rw [Classical.not_imp, Bool.not_eq_true] at hfine
        refine ⟨[validLine], by simp, ⟨?_, ?_, ?_, .inl ?_⟩⟩
        · simp [hfine.1]
        · simp [hvalid.1]
        · simp [hvalid.2.1, hproblem]
        · simp [hvalid.2.2, hfine.2]
    · refine ⟨[goodLine, validLine], by simp, ⟨?_, ?_, ?_, .inr (.inr ?_)⟩⟩
      · simp [hgood.1]
      · simp [hvalid.1]
      · simp [hgood.2.1, hvalid.2.1, hproblem]
      · simp [hown]
  · -- a line that shows a problem is intact
    exact absurd ⟨fun _ => hproblem, fun _ => .inr hproblem, fun _ => .inr hproblem⟩ h

/-- The first reads are kept. -/
theorem drainPipe_append {limit : ℕ} (rest : List Chunk) : ∀ {reads : List Chunk} {buffer : Bytes},
    (buffer ++ stream reads).length ≤ limit → drainPipe limit buffer (reads ++ rest) =
      drainPipe limit (buffer ++ stream reads) rest
  | [], buffer, _ => by simp [stream]
  | c :: reads, buffer, h => by
    have hs : buffer ++ stream (c :: reads) = buffer ++ c.data ++ stream reads := by
      rw [List.append_assoc]
      rfl
    rw [hs] at h ⊢
    have hc : ¬ buffer.length + c.data.length > limit := by
      rw [List.length_append, List.length_append] at h
      omega
    rw [List.cons_append, drainPipe, if_neg hc]
    exact drainPipe_append rest h

/-- A good signature, and blank lines. -/
def paddedLines (n : ℕ) : List Bytes := goodLine :: validLine :: List.replicate n []

theorem length_paddedLines (n : ℕ) : (unlines (paddedLines n)).length = 39 + n := by
  have hgood : goodLine.length = 18 := by decide
  have hvalid : validLine.length = 19 := by decide
  rw [length_unlines, paddedLines, List.map_cons, List.map_cons, List.sum_cons, List.sum_cons, List.map_replicate,
    List.sum_replicate, hgood, hvalid, List.length_nil, smul_eq_mul]
  omega

theorem mem_paddedLines {n : ℕ} {line : Bytes} (h : line ∈ paddedLines n) : line ∈ [goodLine, validLine, []] := by
  rcases List.mem_cons.mp h with rfl | h
  · simp
  rcases List.mem_cons.mp h with rfl | h
  · simp
  · rw [List.eq_of_mem_replicate h]
    simp

theorem plain_of_mem_paddedLines {n : ℕ} {line : Bytes} (h : line ∈ paddedLines n) : line ∈ plainLines := by
  have hsub : [goodLine, validLine, []] ⊆ plainLines := by simp [plainLines]
  exact hsub (mem_paddedLines h)

theorem showsValid_paddedLines (n : ℕ) : ShowsValid (parseStatus (unlines (paddedLines n))) := by
  have hlines : ∀ line ∈ paddedLines n, lineFeedOctet ∉ line := fun line h =>
    lineFeed_not_mem_plain (plain_of_mem_paddedLines h)
  have hgood : (lineRecords (decodeOutput goodLine)).any Record.isGoodsig = true := by decide
  have hvalid : (lineRecords (decodeOutput validLine)).any Record.isValidsig = true := by decide
  have hproblem : [goodLine, validLine, []].all (fun line => ! (lineRecords (decodeOutput line)).any Record.isProblem) =
    true := by decide
  refine ⟨?_, ?_, ?_⟩
  · rw [any_parseStatus_unlines hlines, paddedLines, List.any_cons, hgood, Bool.true_or]
  · rw [any_parseStatus_unlines hlines, paddedLines, List.any_cons, List.any_cons, hvalid, Bool.true_or, Bool.or_true]
  · rw [any_parseStatus_unlines hlines, List.any_eq_false]
    intro line hline
    simpa using List.all_eq_true.mp hproblem line (mem_paddedLines hline)

def badRead : Chunk where
  data := badLine ++ [lineFeedOctet]
  nonempty := by decide
  bound := by decide

/-- A stream of one octet too many, whose last read is a problem. -/
def overfullReads : List Chunk := singly (unlines (paddedLines (statusBufLimit - 56))) ++ [badRead]

theorem stream_append (reads reads' : List Chunk) : stream (reads ++ reads') = stream reads ++ stream reads' :=
  List.flatMap_append

theorem stream_overfullReads :
    stream overfullReads = unlines (paddedLines (statusBufLimit - 56) ++ [badLine]) := by
  rw [overfullReads, stream_append, stream_singly, unlines, unlines, List.flatMap_append]
  rfl

theorem kept_overfullReads :
    drainPipe statusBufLimit [] overfullReads = unlines (paddedLines (statusBufLimit - 56)) := by
  have hlimit : statusBufLimit = 1048576 := rfl
  have hbad : badRead.data.length = 18 := by decide
  have hlength := length_paddedLines (statusBufLimit - 56)
  rw [overfullReads, drainPipe_append, stream_singly, List.nil_append, drainPipe, if_pos (by omega)]
  rw [stream_singly, List.nil_append]
  omega

section Judged

variable {Time : Type} (lower : Str → Str) (fromTimestamp : Str → Option Time) (returncode : ℤ) (stdout stderr : Bytes)

/-- A line that is not intact is misjudged in some stream within the limit. -/
theorem exists_misjudged {line : Bytes} (hline : lineFeedOctet ∉ line) (hsize : line.length + 40 ≤ statusBufLimit)
    (h : ¬ VerdictIntact (decodeOutput line)) : ∃ reads, (stream reads).length ≤ statusBufLimit ∧
      (∀ other ∈ (stream reads).splitOn lineFeedOctet, other ≠ line → VerdictIntact (decodeOutput other)) ∧
      ¬ ValidOnly lower fromTimestamp returncode stdout stderr reads := by
  obtain ⟨before, hbefore, hmisleads⟩ := exists_misleads h
  have hplain : ∀ other ∈ before, other ∈ plainLines := by
    have hall : [[goodLine, validLine], [goodLine], [validLine]].all (fun before =>
        before.all fun other => other ∈ plainLines) = true := by decide
    intro other hother
    exact of_decide_eq_true (List.all_eq_true.mp (List.all_eq_true.mp hall before hbefore) other hother)
  have hbound : (unlines before).length ≤ 39 := by
    have hall : [[goodLine, validLine], [goodLine], [validLine]].all (fun before => (unlines before).length ≤ 39) =
      true := by decide
    exact of_decide_eq_true (List.all_eq_true.mp hall before hbefore)
  have hlines : ∀ other ∈ before ++ [line], lineFeedOctet ∉ other := by
    intro other hother
    rcases List.mem_append.mp hother with hother | hother
    · exact lineFeed_not_mem_plain (hplain other hother)
    · rwa [List.mem_singleton.mp hother]
  have hlength : (unlines (before ++ [line])).length ≤ statusBufLimit := by
    have happend : unlines (before ++ [line]) = unlines before ++ (line ++ [lineFeedOctet]) := by simp [unlines]
    rw [happend, List.length_append, List.length_append, List.length_singleton]
    omega
  refine ⟨singly (unlines (before ++ [line])), ?_, ?_, ?_⟩
  · rwa [stream_singly]
  · rw [stream_singly, splitOn_unlines hlines]
    intro other hother hne
    rcases List.mem_append.mp hother with hother | hother
    · rcases List.mem_append.mp hother with hother | hother
      · exact verdictIntact_plain (hplain other hother)
      · exact absurd (List.mem_singleton.mp hother) hne
    · rw [List.mem_singleton.mp hother]
      exact verdictIntact_plain (by simp [plainLines])
  · have hkept : drainPipe statusBufLimit [] (singly (unlines (before ++ [line]))) = unlines (before ++ [line]) := by
      rw [drainPipe_eq] <;> simp [stream_singly, hlength]
    rw [validOnly_iff_vouches, hkept, stream_singly]
    exact fun hv => hmisleads.not_vouches hlines (hv (hmisleads.showsValid hlines))

/-- One octet beyond the limit a stream of intact lines is misjudged. -/
theorem misjudged_overfullReads : (stream overfullReads).length = statusBufLimit + 1 ∧
    (∀ line ∈ (stream overfullReads).splitOn lineFeedOctet, VerdictIntact (decodeOutput line)) ∧
      ¬ ValidOnly lower fromTimestamp returncode stdout stderr overfullReads := by
  have hlimit : statusBufLimit = 1048576 := rfl
  have hplain : ∀ line ∈ paddedLines (statusBufLimit - 56) ++ [badLine], line ∈ plainLines := by
    intro line hline
    rcases List.mem_append.mp hline with hline | hline
    · exact plain_of_mem_paddedLines hline
    · rw [List.mem_singleton.mp hline]
      simp [plainLines]
  have hlines := fun line hline => lineFeed_not_mem_plain (hplain line hline)
  refine ⟨?_, ?_, ?_⟩
  · have hbad : (unlines [badLine]).length = 18 := by decide
    have hlength := length_paddedLines (statusBufLimit - 56)
    have happend : unlines (paddedLines (statusBufLimit - 56) ++ [badLine]) =
        unlines (paddedLines (statusBufLimit - 56)) ++ unlines [badLine] := List.flatMap_append
    rw [stream_overfullReads, happend, List.length_append, hbad]
    omega
  · rw [stream_overfullReads, splitOn_unlines hlines]
    intro line hline
    rcases List.mem_append.mp hline with hline | hline
    · exact verdictIntact_plain (hplain line hline)
    · rw [List.mem_singleton.mp hline]
      exact verdictIntact_plain (by simp [plainLines])
  · have hbad : (statusRecord (decodeOutput badLine)).any Record.isProblem = true := by decide
    rw [validOnly_iff_vouches, kept_overfullReads, stream_overfullReads]
    intro h
    have hproblem := ((vouches_iff _).mp (h (showsValid_paddedLines _))).2.2
    rw [any_statusRecords_unlines hlines, List.any_append, List.any_cons, hbad, Bool.true_or, Bool.or_true] at hproblem
    cases hproblem

/-- **VALID is deserved** by every stream within the limit of the drain thread in
which no boundary inside a line makes up or hides a record that counts. No
more can be said of the lines or of the size alone: every line with such a
boundary is misjudged among plain ones, and so are intact lines of one octet
more. -/
theorem validOnly_readable :
    (∀ reads, Readable (stream reads) → ValidOnly lower fromTimestamp returncode stdout stderr reads) ∧
    (∀ line, lineFeedOctet ∉ line → line.length + 40 ≤ statusBufLimit → ¬ VerdictIntact (decodeOutput line) →
      ∃ reads, (stream reads).length ≤ statusBufLimit ∧
        (∀ other ∈ (stream reads).splitOn lineFeedOctet, other ≠ line → VerdictIntact (decodeOutput other)) ∧
        ¬ ValidOnly lower fromTimestamp returncode stdout stderr reads) ∧
    ∃ reads, (stream reads).length = statusBufLimit + 1 ∧
      (∀ line ∈ (stream reads).splitOn lineFeedOctet, VerdictIntact (decodeOutput line)) ∧
      ¬ ValidOnly lower fromTimestamp returncode stdout stderr reads :=
  ⟨fun _ => validOnly_of_readable lower fromTimestamp returncode stdout stderr,
    fun _ => exists_misjudged lower fromTimestamp returncode stdout stderr,
    overfullReads, misjudged_overfullReads lower fromTimestamp returncode stdout stderr⟩

end Judged

/-- A good signature. -/
theorem validOnly_readable_sample :
    (verify (fun _ => (none : Option ℕ)) (statusRun 0 [] [] (singly (unlines [goodLine, validLine])))).1 = .valid ∧
      Vouches (stream (singly (unlines [goodLine, validLine]))) := by
  have hplain : ∀ line ∈ [goodLine, validLine], line ∈ plainLines := by simp [plainLines]
  have hreadable : Readable (stream (singly (unlines [goodLine, validLine]))) := by
    rw [stream_singly]
    refine ⟨by decide, ?_⟩
    rw [splitOn_unlines fun line hline => lineFeed_not_mem_plain (hplain line hline)]
    intro line hline
    rcases List.mem_append.mp hline with hline | hline
    · exact verdictIntact_plain (hplain line hline)
    · rw [List.mem_singleton.mp hline]
      exact verdictIntact_plain (by simp [plainLines])
  have hvalid : (verify (fun _ => (none : Option ℕ)) (statusRun 0 [] []
      (singly (unlines [goodLine, validLine])))).1 = .valid := by
    decide +kernel
  exact ⟨hvalid, ((validOnly_readable id (fun _ => none) 0 [] []).1 _ hreadable).verify hvalid⟩

/-- A `GOODSIG` whose user ID holds a line separator and the text of a
`VALIDSIG`. -/
def separatorInGoodsig : Chunk where
  data := ascii "[GNUPG:] GOODSIG K x" ++ [0xE2, 0x80, 0xA8] ++ ascii "[GNUPG:] VALIDSIG F" ++ [0x0A]
  nonempty := by decide
  bound := by decide

/-- No `VALIDSIG` is in the stream, and the verdict is VALID. -/
theorem not_validOnly : ¬ ∀ (returncode : ℤ) (stdout stderr : Bytes) (reads : List Chunk),
    ValidOnly id (fun _ => (none : Option ℕ)) returncode stdout stderr reads := by
  intro h
  have hv := (h 0 [] [] [separatorInGoodsig]).verify (by decide)
  exact absurd hv.validsig (by decide)

end Gpg
end GpgMeister
