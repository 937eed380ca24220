/-
# The audit log

`storage/audit_log.py`: a log of one JSON object a line, of which each, in
hash-chain mode, carries the hash of the one before it and a counter. A log is
written through a handle that keeps what it could not write; a tip file holds
the hash and the counter of the last record.

* `emit`, `openLog`: what the writer does, with the failures of its system
  calls.
* `sessions`: any number of writers on one log.
* `verifyChain`: the verifier.
-/
import GpgMeister.Lib.HashChain
import GpgMeister.Lib.System
import GpgMeister.Lib.Dict
import GpgMeister.Storage.SecretKeys

namespace GpgMeister
namespace AuditLog

open SecretKeys

/-! ### Events -/

/-- `ALLOWED_EVENTS` -/
def allowedEvents : List Str :=
  [lit "audit_log_opened", lit "gpg_binary_resolved", lit "gpg_binary_rejected",
    lit "startup_environment_check", lit "key_generated", lit "key_deleted", lit "key_imported",
    lit "key_exported_public", lit "key_exported_private", lit "message_signed", lit "message_decrypted",
    lit "message_decrypt_failed", lit "folder_encrypted", lit "folder_decrypted", lit "folder_decrypt_failed",
    lit "smartcard_detected", lit "smartcard_keys_synced", lit "smartcard_pin_changed",
    lit "smartcard_key_moved", lit "smartcard_key_generated", lit "fido_enrolled", lit "fido_derived",
    lit "key_created_with_token", lit "key_bound_to_token", lit "key_unlocked_with_token",
    lit "key_unlocked_with_passphrase", lit "key_unlock_forgotten", lit "vault_created", lit "vault_imported",
    lit "vault_import_failed", lit "config_loaded", lit "config_saved"]

/-- `_VALID_OUTCOMES` -/
def validOutcomes : List Str := [lit "ok", lit "failed", lit "warning"]

/-- `_RESERVED_ENVELOPE_KEYS` -/
def reservedEnvelopeKeys : List Str :=
  [lit "event", lit "ts", lit "actor", lit "outcome", lit "prev_hash"]

/-- `_TAIL_CHUNK` -/
def tailChunk : ℕ := 64 * 1024

/-- What the surroundings of the log are asked for: `str.lower`, `repr` of a
string, the limit of recursion, and `hashlib.sha256(data).hexdigest()`. -/
structure Env where
  lower : Str → Str
  repr : Str → Str
  recursionLimit : ℕ
  sha256 : Bytes → Str
  sha256_length : ∀ data, (sha256 data).length = 64
  sha256_hex : ∀ data, ∀ c ∈ sha256 data, c ∈ (List.range 16).map Json.hexDigit

variable (env : Env)

/-- `_check_payload`; `none` if it accepts. -/
def checkPayload (event : Str) (payload : Dict) : Option Exc :=
  if event ∉ allowedEvents then
    some
      { cls := .auditLogError
        message := lit "event " ++ env.repr event ++ lit " is not in the audit whitelist" }
  else
    match findSecretViolation env.lower reservedEnvelopeKeys env.recursionLimit (.obj payload.items) with
    | .error e => some e
    | .ok none => none
    | .ok (some v) => some { cls := .auditLogError, message := v.text env.repr }

/-! ### JSON, as exceptions -/

def jsonExc : Json.Error → Exc
  | .decode => { cls := .jsonDecodeError, message := [] }
  | .digits =>
    { cls := .valueError
      message := lit "Exceeds the limit (4300 digits) for integer string conversion" }
  | .recursion => recursionError

/-- `_serialise` -/
def serialise (record : Dict) : Except Exc Str :=
  (Json.dumps env.recursionLimit (.obj record.items)).mapError jsonExc

/-- `(line + "\n").encode("utf-8")` -/
def encodeLine (line : Str) : Except Exc Bytes :=
  match Utf8.encode (line ++ [lineFeed]) with
  | some data => .ok data
  | none => .error { cls := .unicodeEncodeError, message := lit "surrogates not allowed" }

/-- The value of `seq` as an `int`, which a `bool` is too. -/
def asInt : Json → Option ℤ
  | .int i => some i
  | .bool b => some (if b then 1 else 0)
  | _ => none

/-- `_seq_after`: a line that is no JSON object counts as one without `seq`,
but other failures of the decoder go through. -/
def seqAfter (line : Bytes) : Except Exc ℕ :=
  match Json.loadsBytes env.recursionLimit line with
  | none => .error { cls := .unicodeDecodeError, message := [] }
  | some (.error .decode) => .ok 0
  | some (.error e) => .error (jsonExc e)
  | some (.ok (.obj ms)) =>
    match (ms.lookup (lit "seq")).bind asInt with
    | some seq => .ok (if 0 ≤ seq then seq.toNat + 1 else 0)
    | none => .ok 0
  | some (.ok _) => .ok 0

/-! ### The tail of the log -/

/-- White space, as `bytes.strip` reads it. -/
def isSpaceOctet (b : UInt8) : Bool := b = 0x20 || (0x09 ≤ b.toNat && b.toNat ≤ 0x0D)

/-- `raw.strip()` -/
def stripBytes (raw : Bytes) : Bytes := (raw.dropWhile isSpaceOctet).rdropWhile isSpaceOctet

def lineFeedOctet : UInt8 := 0x0A

/-- The last line of some octets that is not blank. -/
def lastLine (data : Bytes) : Option Bytes :=
  ((data.splitOn lineFeedOctet).reverse.map stripBytes).find? (· ≠ [])

/-- `_scan_tail_state`: the last line of the last 64 KiB, or of the log if
those are blank. -/
def scanTailState (log : Bytes) : Except Exc (Option Str × ℕ) :=
  if log = [] then .ok (none, 0)
  else
    let tail := log.drop (log.length - min log.length tailChunk)
    match (lastLine tail).orElse fun _ => lastLine log with
    | none => .ok (none, 0)
    | some last => do
      let seq ← seqAfter env last
      .ok (some (env.sha256 last), seq)

/-! ### Writing -/

/-- How the write of a record fails: in `write`, in `flush` or in `fsync`.
Before the failure, `landed` octets have reached the file. -/
inductive Fault
  | none
  | write (landed : ℕ)
  | flush (landed : ℕ)
  | fsync
  deriving DecidableEq

/-- Octets reach the file. -/
def Fault.lands : Fault → Bool
  | .write n | .flush n => n ≠ 0
  | .none | .fsync => true

/-- What `write`, `flush` and `fsync` make of the log and of the buffer. After
a failed flush the buffer keeps what did not reach the file; a failed write
loses the new data. -/
def writeData (fault : Fault) (log buffer data : Bytes) : Bytes × Bytes :=
  match fault with
  | .none | .fsync => (log ++ buffer ++ data, [])
  | .write n => (log ++ (buffer ++ data).take n, buffer.drop n)
  | .flush n => (log ++ (buffer ++ data).take n, (buffer ++ data).drop n)

/-- One `AuditLog`. -/
structure Handle where
  hashChain : Bool
  buffer : Bytes := []
  prevHash : Option Str := none
  seq : ℕ := 0
  dropped : ℕ := 0

/-- The log file and its tip file. -/
structure Disk where
  log : Bytes := []
  tip : Option Bytes := none

/-- `f"{prev_hash} {seq}\n".encode("ascii")`, of text that is ASCII. -/
def tipContent (prevHash : Str) (seq : ℕ) : Bytes :=
  (prevHash ++ lit " " ++ Json.decimal seq ++ [lineFeed]).map fun c => .ofNat c.val

/-- The record with its place in the chain and the count of lost records. -/
def envelope (h : Handle) (record : Dict) : Dict :=
  let record :=
    if h.hashChain then
      (record.set (lit "prev_hash") (.str (h.prevHash.getD [])) (Json.uniqueKeys_str _)).set (lit "seq")
        (.int h.seq) (Json.uniqueKeys_int _)
    else record
  if h.dropped = 0 then record
  else record.set (lit "dropped_audit_records") (.int h.dropped) (Json.uniqueKeys_int _)

/-- `_write_record`. The tip is written unless that fails, which is ignored. -/
def writeRecord (h : Handle) (d : Disk) (record : Dict) (fault : Fault) (tipFails : Bool) :
    (Handle × Disk) × Option Exc :=
  match serialise env (envelope h record) with
  | .error e => ((h, d), some e)
  | .ok line =>
    match encodeLine line with
    | .error e => ((h, d), some e)
    | .ok data =>
      let (log, buffer) := writeData fault d.log h.buffer data
      if fault = .none then
        let h := { h with buffer := buffer, dropped := 0, seq := h.seq + 1 }
        if h.hashChain then
          let hash := env.sha256 data.dropLast
          (({ h with prevHash := some hash },
            { log := log, tip := if tipFails then d.tip else some (tipContent hash (h.seq - 1)) }), none)
        else ((h, { d with log := log }), none)
      else (({ h with buffer := buffer, dropped := h.dropped + 1 }, { d with log := log }), none)

/-- What a call is given from outside: the time, the user, and the failures of
its system calls. -/
structure Call where
  ts : Str
  actor : Str
  fault : Fault := .none
  tipFails : Bool := false

/-- The record of an event. -/
def recordOf (event outcome : Str) (payload : Dict) (call : Call) : Dict :=
  let envelope : Dict :=
    { items := [(lit "ts", .str call.ts), (lit "event", .str event), (lit "actor", .str call.actor),
        (lit "outcome", .str outcome)]
      unique := rfl }
  envelope.update payload

/-- `AuditLog.emit`, once it holds the lock -/
def emit (h : Handle) (d : Disk) (event outcome : Str) (payload : Dict) (call : Call) :
    (Handle × Disk) × Option Exc :=
  if outcome ∉ validOutcomes then
    ((h, d), some { cls := .auditLogError, message := lit "invalid outcome " ++ env.repr outcome })
  else
    match checkPayload env event payload with
    | some e => ((h, d), some e)
    | none =>
      let record := recordOf event outcome payload call
      if h.hashChain then
        match scanTailState env d.log with
        | .error e => ((h, d), some e)
        | .ok (prevHash, seq) =>
          writeRecord env { h with prevHash := prevHash, seq := seq } d record call.fault call.tipFails
      else writeRecord env h d record call.fault call.tipFails

/-- `AuditLog(path, hash_chain=…)`: no log if the constructor raises. -/
def openLog (d : Disk) (hashChain : Bool) (call : Call) : Option Handle × Disk :=
  let h : Handle := { hashChain := hashChain }
  let announce (h : Handle) : Option Handle × Disk :=
    let payload : Dict := { items := [(lit "hash_chain", .bool hashChain)], unique := rfl }
    match emit env h d (lit "audit_log_opened") (lit "ok") payload call with
    | ((h, d), none) => (some h, d)
    | ((_, d), some _) => (none, d)
  if hashChain then
    match scanTailState env d.log with
    | .error _ => (none, d)
    | .ok (prevHash, seq) => announce { h with prevHash := prevHash, seq := seq }
  else announce h

/-! ### Sessions -/

/-- The files and every `AuditLog` that is open, in hash-chain mode. The file
lock makes an emit one step. -/
structure State where
  disk : Disk := {}
  handles : List Handle := []

inductive Action
  /-- `AuditLog(path, hash_chain=True)` -/
  | open (call : Call)
  /-- `emit` of the `i`-th `AuditLog` -/
  | emit (i : ℕ) (event outcome : Str) (payload : Dict) (call : Call)

def Action.call : Action → Call
  | .open call | .emit _ _ _ _ call => call

/-- What an action leaves, and whether it returns rather than raises. -/
def perform (s : State) : Action → Option (State × Bool)
  | .open call =>
    match openLog env s.disk true call with
    | (some h, d) => some ({ disk := d, handles := s.handles ++ [h] }, true)
    | (none, d) => some ({ s with disk := d }, false)
  | .emit i event outcome payload call =>
    match s.handles[i]? with
    | none => none
    | some h =>
      let ((h, d), e) := emit env h s.disk event outcome payload call
      some ({ disk := d, handles := s.handles.set i h }, e.isNone)

/-- The largest size of a file, the largest value of `off_t`. -/
def maxFileSize : ℕ := 2 ^ 63 - 1

/-- An action, as far as the file system holds what it writes. -/
def step (s : State) (a : Action) : Option State :=
  match perform env s a with
  | some (s, _) => if s.disk.log.length ≤ maxFileSize then some s else none
  | none => none

/-- Any number of sessions on a log that is empty at first. -/
def sessions : System State Action := .ofStep (· = {}) (step env)

/-! ### Verifying -/

/-- The variables of the walk over the lines. -/
structure Walk where
  prevHash : Option Str := none
  expectedSeq : ℤ := 0
  count : ℕ := 0

/-- How the walk ends early. -/
inductive Stop
  | broken (count : ℕ)
  | raised (e : Exc)

/-- The body of the loop of `verify_chain`. -/
def verifyLine (w : Walk) (raw : Bytes) : Except Stop Walk :=
  let line := Utf8.decodeReplace raw
  if line = [] then .ok w
  else
    let count := w.count + 1
    match Json.loads env.recursionLimit line with
    | .error .decode => .error (.broken count)
    | .error e => .error (.raised (jsonExc e))
    | .ok (.obj ms) =>
      match (ms.lookup (lit "prev_hash")).getD .null with
      | .null => if w.prevHash = none then .ok { w with count := count } else .error (.broken count)
      | .str stored =>
        if stored ≠ w.prevHash.getD [] then .error (.broken count)
        else
          match (ms.lookup (lit "seq")).bind asInt with
          | none => .ok { w with prevHash := some (env.sha256 raw), count := count }
          | some seq =>
            if seq ≠ w.expectedSeq then .error (.broken count)
            else .ok { prevHash := some (env.sha256 raw), expectedSeq := seq + 1, count := count }
      | _ => .error (.broken count)
    | .ok _ => .error (.raised { cls := .attributeError, message := [] })

/-- `tf.read(256).decode("ascii", errors="replace")` -/
def readTip (tip : Bytes) : Str :=
  (tip.take 256).map fun b => if b < 0x80 then Fin.ofNat _ b.toNat else Utf8.replacement

/-- `_verify_tip` -/
def verifyTip (tip : Option Bytes) (prevHash : Str) (expectedSeq : ℤ) : Bool :=
  match tip with
  | none => true
  | some tip =>
    match fields (strip (readTip tip)) with
    | [] => false
    | tipHash :: rest =>
      if tipHash.length ≠ 64 ∨ tipHash ≠ prevHash then false
      else
        match rest with
        | [] => true
        | seq :: _ => ! (seq.all Json.isDigit && (Json.ofDecimal seq : ℤ) ≠ expectedSeq - 1)

/-- `verify_chain` -/
def verifyChain (d : Disk) : Except Exc (Bool × ℕ) :=
  if d.log = [] then .ok (true, 0)
  else
    match (d.log.splitOn lineFeedOctet).foldlM (verifyLine env) {} with
    | .error (.broken count) => .ok (false, count)
    | .error (.raised e) => .error e
    | .ok w =>
      match w.prevHash with
      | none => .ok (true, w.count)
      | some prevHash => .ok (verifyTip d.tip prevHash w.expectedSeq, w.count)

def nonEmptyLines (log : Bytes) : List Bytes := (log.splitOn lineFeedOctet).filter (· ≠ [])

/-- How many records the log holds. -/
def records (log : Bytes) : ℕ := (nonEmptyLines log).length

end AuditLog
end GpgMeister
