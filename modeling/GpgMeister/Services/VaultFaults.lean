/-
# Faults of a vault

What the steps of `_open` raise up to the key of the vault, and what has been
recorded by then, in surroundings that say nothing about the vault: the
operating system, GnuPG, the audit log and the MessagePack decoder raise other
errors than `VaultFormatError` and `DecryptionError`.

* `gives_tryPassphraseSlots`: the search for a slot of the passphrase is a pure
  function, apart from the calls of `derive_key`.
* `reports_vaultKey`: a key that is not found is recorded once, unless the
  parameters are beyond the limits; `run_vaultKey_of_beyondLimits`: then it is
  not recorded at all.
-/
import GpgMeister.Services.VaultSlotSearch

namespace GpgMeister
namespace VaultService

open VaultFormat VaultKeyslots VaultPayload Program

variable {γ Time α : Type} (env : Platform γ Time)

/-! ### Faults of the vault -/

/-- The exceptions that say that the vault, or what it is opened with, is at
fault. -/
def atFault : List ErrorClass := [.decryptionError, .vaultFormatError]

/-- An exception of another kind. -/
def Foreign (e : Exc) : Prop := ¬ e.isA atFault = true

theorem foreign_of_cls {cls : ErrorClass} {message diagnostics : Str} (h : atFault.any cls.isSubclass = false) :
    Foreign { cls, message, diagnostics } := by
  simp [Foreign, Exc.isA, h]

theorem onlyRaises_jsonExc {β : Type} {r : Except Json.Error β} : OnlyRaises Foreign (r.mapError AuditLog.jsonExc) := by
  intro e he
  cases r with
  | ok a => cases he
  | error err =>
    obtain rfl := Except.error.inj he
    cases err <;> exact foreign_of_cls (by decide)

/-! ### What the audit log raises -/

mutual

theorem onlyRaises_findSecretViolation (lower : Str → Str) : ∀ (reserved : List Str) (depth : ℕ) (v : Json),
    OnlyRaises Foreign (SecretKeys.findSecretViolation lower reserved depth v)
  | reserved, 0, v => by
    rw [SecretKeys.findSecretViolation]
    exact .error (foreign_of_cls (by decide))
  | reserved, depth + 1, .obj ms => by
    rw [SecretKeys.findSecretViolation]
    exact onlyRaises_findInMembers lower reserved depth ms
  | _, depth + 1, .arr xs => by
    rw [SecretKeys.findSecretViolation]
    exact onlyRaises_findInItems lower depth xs
  | _, _ + 1, .null | _, _ + 1, .bool _ | _, _ + 1, .int _ | _, _ + 1, .float _ | _, _ + 1, .str _ => by
    rw [SecretKeys.findSecretViolation]
    · exact .ok _
    all_goals simp

theorem onlyRaises_findInMembers (lower : Str → Str) (reserved : List Str) (depth : ℕ) : ∀ ms : List (Str × Json),
    OnlyRaises Foreign (SecretKeys.findInMembers lower reserved depth ms)
  | [] => .ok _
  | (key, val) :: ms => by
    rw [SecretKeys.findInMembers]
    by_cases h1 : SecretKeys.isForbiddenKey lower key = true
    · simp only [h1, if_true]
      exact .ok _
    · by_cases h2 : key ∈ reserved
      · simp only [h1, h2, if_true]
        exact .ok _
      · by_cases h3 : SecretKeys.containsSecretMarker val = true
        · simp only [h1, h2, h3, if_true]
          exact .ok _
        · simp only [h1, h2, h3]
          apply (onlyRaises_findSecretViolation lower [] depth val).bind
          intro v
          cases v with
          | some v => exact .ok _
          | none => exact onlyRaises_findInMembers lower reserved depth ms

theorem onlyRaises_findInItems (lower : Str → Str) (depth : ℕ) : ∀ xs : List Json,
    OnlyRaises Foreign (SecretKeys.findInItems lower depth xs)
  | [] => .ok _
  | x :: xs => by
    rw [SecretKeys.findInItems]
    by_cases h : SecretKeys.containsSecretMarker x = true
    · simp only [h, if_true]
      exact .ok _
    · simp only [h]
      apply (onlyRaises_findSecretViolation lower [] depth x).bind
      intro v
      cases v with
      | some v => exact .ok _
      | none => exact onlyRaises_findInItems lower depth xs

end

theorem foreign_jsonExc (err : Json.Error) : Foreign (AuditLog.jsonExc err) := by
  cases err <;> exact foreign_of_cls (by decide)

theorem onlyRaises_seqAfter (env : AuditLog.Env) (line : Bytes) : OnlyRaises Foreign (AuditLog.seqAfter env line) := by
  unfold AuditLog.seqAfter
  split
  · exact .error (foreign_of_cls (by decide))
  · exact .ok _
  · exact .error (foreign_jsonExc _)
  · split
    · exact .ok _
    · exact .ok _
  · exact .ok _

theorem onlyRaises_scanTailState (env : AuditLog.Env) (log : Bytes) :
    OnlyRaises Foreign (AuditLog.scanTailState env log) := by
  unfold AuditLog.scanTailState
  by_cases hl : log = []
  · rw [if_pos hl]
    exact .ok _
  · rw [if_neg hl]
    dsimp only
    split
    · exact .ok _
    · exact (onlyRaises_seqAfter env _).bind fun seq => .ok _

theorem foreign_of_writeRecord {env : AuditLog.Env} {h : AuditLog.Handle} {d : AuditLog.Disk} {record : Dict}
    {fault : AuditLog.Fault} {tipFails : Bool} {e : Exc}
    (he : (AuditLog.writeRecord env h d record fault tipFails).2 = some e) : Foreign e := by
  unfold AuditLog.writeRecord at he
  cases hs : AuditLog.serialise env (AuditLog.envelope h record) with
  | error e' =>
    rw [hs] at he
    obtain rfl : e' = e := Option.some.inj he
    exact onlyRaises_jsonExc e' hs
  | ok line =>
    rw [hs] at he
    dsimp only at he
    cases hd : AuditLog.encodeLine line with
    | error e' =>
      rw [hd] at he
      obtain rfl : e' = e := Option.some.inj he
      unfold AuditLog.encodeLine at hd
      split at hd
      · cases hd
      · obtain rfl := Except.error.inj hd
        exact foreign_of_cls (by decide)
    | ok data =>
      rw [hd] at he
      dsimp only at he
      split at he
      · split at he <;> cases he
      · cases he

/-- What the audit log raises says nothing about a vault. -/
theorem foreign_of_emit {env : AuditLog.Env} {h : AuditLog.Handle} {d : AuditLog.Disk} {event outcome : Str}
    {payload : Dict} {call : AuditLog.Call} {e : Exc}
    (he : (AuditLog.emit env h d event outcome payload call).2 = some e) : Foreign e := by
  unfold AuditLog.emit at he
  by_cases ho : outcome ∉ AuditLog.validOutcomes
  · rw [if_pos ho] at he
    obtain rfl := Option.some.inj he
    exact foreign_of_cls (by decide)
  · rw [if_neg ho] at he
    cases hp : AuditLog.checkPayload env event payload with
    | some e' =>
      rw [hp] at he
      obtain rfl : e' = e := Option.some.inj he
      unfold AuditLog.checkPayload at hp
      split at hp
      · obtain rfl := Option.some.inj hp
        exact foreign_of_cls (by decide)
      · split at hp
        · rename_i e' hf
          obtain rfl := Option.some.inj hp
          exact onlyRaises_findSecretViolation _ _ _ _ e' hf
        · cases hp
        · obtain rfl := Option.some.inj hp
          exact foreign_of_cls (by decide)
    | none =>
      rw [hp] at he
      dsimp only at he
      split at he
      · cases hs : AuditLog.scanTailState env d.log with
        | error e' =>
          rw [hs] at he
          obtain rfl : e' = e := Option.some.inj he
          exact onlyRaises_scanTailState env d.log e' hs
        | ok r =>
          rw [hs] at he
          exact foreign_of_writeRecord he
      · exact foreign_of_writeRecord he

/-! ### Calm surroundings -/

/-- How many records of the failure there are. -/
def importFailures (w : World γ Time) : ℕ := w.history.count (.emit (lit "vault_import_failed") (lit "failed") none)

/-- What the surroundings have in store says nothing about a vault. -/
structure Sane (w : World γ Time) : Prop where
  faults : ∀ n e, w.faults n = some e → Foreign e
  locks : ∀ n e, w.audit.locks n = some e → Foreign e

/-- Nothing is recorded, and no plaintext is in memory beyond this. -/
structure Quiet (n : ℕ) (buffers : List Buffer) (w : World γ Time) : Prop where
  sane : Sane w
  failures : importFailures w = n
  buffers : w.buffers = buffers

variable {n : ℕ} {b : List Buffer}

theorem stays_syscall : Stays (Quiet n b) Foreign (syscall : Program (World γ Time) Exc Unit) := by
  intro w hw
  have hnext : Quiet n b { w with faults := fun n => w.faults (n + 1) } :=
    ⟨⟨fun n => hw.sane.faults (n + 1), hw.sane.locks⟩, hw.failures, hw.buffers⟩
  unfold Meets syscall
  simp only [EStateM.run]
  cases hf : w.faults 0 with
  | none => exact hnext
  | some e => exact ⟨hnext, hw.sane.faults 0 e hf⟩

theorem stays_readFile (path : Path) : Stays (Quiet n b) Foreign (readFile path : Program (World γ Time) Exc Bytes) := by
  apply stays_syscall.bind
  intro _
  apply Stays.get.bind
  intro w
  cases w.files path with
  | none => exact .raise (foreign_of_cls (by decide))
  | some data => exact .pure data

theorem stays_fileExists (path : Path) : Stays (Quiet n b) Foreign (fileExists path : Program (World γ Time) Exc Bool) :=
  stays_syscall.bind fun _ => Stays.get.bind fun _ => .pure _

theorem stays_readVaultBytes (src : Path) :
    Stays (Quiet n b) Foreign (readVaultBytes src : Program (World γ Time) Exc Bytes) := by
  apply stays_syscall.bind
  intro _
  apply (stays_readFile src).bind
  intro data
  by_cases hl : (data.take (maxVaultFrameSize + 1)).length > maxVaultFrameSize
  · rw [if_pos hl]
    exact .raise (foreign_of_cls (by decide))
  · rw [if_neg hl]
    exact .pure data

theorem stays_readSidecarDigest (path : Path) :
    Stays (Quiet n b) Foreign (readSidecarDigest env path : Program (World γ Time) Exc Str) := by
  apply (stays_readFile path).bind
  intro data
  have hdecode : OnlyRaises Foreign (decodeAscii (data.take 256)) := by
    unfold decodeAscii
    split
    · exact .ok _
    · exact .error (foreign_of_cls (by decide))
  apply (Stays.ofExcept hdecode).bind
  intro text
  apply Stays.ofExcept
  unfold sidecarDigest
  split
  · exact .error (foreign_of_cls (by decide))
  · dsimp only
    split
    · exact .error (foreign_of_cls (by decide))
    · exact .ok _

/-- The errors of GnuPG's runs, and of the MessagePack decoder, are not those
of the vault. -/
structure ForeignLibraries (env : Platform γ Time) : Prop where
  popen : ∀ args input passphrase g e g', env.gpg.popen args input passphrase g = (.error e, g') → Foreign e
  unpackb : ∀ strLimit arrayLimit data e, env.msgpack.unpackb strLimit arrayLimit data = .error e →
    ¬ e.isA [.decryptionError] = true

variable {env} (hlib : ForeignLibraries env)

include hlib in
theorem stays_runGpg (args : List Str) (input passphrase : Option Bytes) (statusFd : Bool) :
    Stays (Quiet n b) Foreign (GPGService.runGpg env args input passphrase statusFd) := by
  apply stays_syscall.bind
  intro _
  have hpass : OnlyRaises Foreign (GPGService.validatedPassphraseBytes passphrase) := by
    unfold GPGService.validatedPassphraseBytes
    split
    · exact .error (foreign_of_cls (by decide))
    · exact .ok _
  apply (Stays.ofExcept hpass).bind
  intro passBytes
  apply stays_syscall.bind
  intro _
  apply Stays.get.bind
  intro w
  have hargv (argv : List Str) : OnlyRaises Foreign (GPGService.rejectPassphraseInArgv argv passBytes) := by
    unfold GPGService.rejectPassphraseInArgv
    split
    · exact .error (foreign_of_cls (by decide))
    · exact .ok _
  apply (Stays.ofExcept (hargv _)).bind
  intro _
  apply Stays.bind
  · intro w hw
    unfold Meets GPGService.onGnupg
    simp only [EStateM.run]
    cases hp : env.gpg.popen args input passphrase w.gnupg with
    | mk r g =>
      have hnext : Quiet n b { w with gnupg := g } := ⟨⟨hw.sane.faults, hw.sane.locks⟩, hw.failures, hw.buffers⟩
      cases r with
      | ok out => exact hnext
      | error e => exact ⟨hnext, hlib.popen _ _ _ _ _ _ hp⟩
  · intro out
    exact .pure _

theorem onlyRaises_decrypt (lower : Str → Str) (fromTimestamp : Str → Option Time) (proc : Gpg.GPGRun) :
    OnlyRaises Foreign (Gpg.decrypt lower fromTimestamp proc) := by
  have hcard (records : List Gpg.Record) (text : Str) (operation : Str) :
      OnlyRaises Foreign (Gpg.raiseForCardFailure lower records text operation) := by
    unfold Gpg.raiseForCardFailure Gpg.cardDiagnosis
    split
    · exact .ok _
    · rename_i errorType reason hd
      refine .error ?_
      split at hd
      · cases hd
        exact foreign_of_cls (by decide)
      · split at hd
        · cases hd
          exact foreign_of_cls (by decide)
        · split at hd
          · cases hd
            exact foreign_of_cls (by decide)
          · cases hd
  unfold Gpg.decrypt
  apply OnlyRaises.bind
  · unfold Gpg.requireDecryptOk
    by_cases hr : proc.returncode = 0
    · rw [if_pos hr]
      exact .ok _
    · rw [if_neg hr]
      dsimp only
      apply (hcard _ _ _).bind
      intro _
      split
      · exact .error (foreign_of_cls (by decide))
      · exact .error (foreign_of_cls (by decide))
  · intro _
    exact .ok _

theorem quiet_note {w : World γ Time} {call : Call} (hw : Quiet n b w)
    (hc : call ≠ .emit (lit "vault_import_failed") (lit "failed") none) : Quiet n b (w.note call) where
  sane := ⟨hw.sane.faults, hw.sane.locks⟩
  failures := by
    have hcount := hw.failures
    unfold importFailures World.note at *
    rw [List.count_append, hcount, List.count_singleton, beq_eq_false_iff_ne.mpr hc]
    rfl
  buffers := hw.buffers

include hlib in
theorem stays_decrypt (ciphertext : Bytes) (pin : Option Bytes) :
    Stays (Quiet n b) Foreign (GPGService.decrypt env ciphertext pin) := by
  apply ((stays_runGpg hlib _ _ _ _).bind fun proc => .ofExcept (onlyRaises_decrypt _ _ proc)).recorded
  intro w raised hw
  exact quiet_note hw (by simp)

/-! ### The record -/

theorem meets_auditEmit {s : AuditSink} (hs : ∀ n e, s.locks n = some e → Foreign e) (event outcome : Str)
    (payload : Dict) :
    (AuditSink.emit env.toEnv event outcome payload).Meets s (fun _ s' => ∀ n e, s'.locks n = some e → Foreign e)
      fun e s' => (∀ n e, s'.locks n = some e → Foreign e) ∧ Foreign e := by
  have hlocks (n : ℕ) (e : Exc) (h : s.locks (n + 1) = some e) : Foreign e := hs (n + 1) e h
  unfold Meets AuditSink.emit
  simp only [EStateM.run]
  cases hl : s.locks 0 with
  | some e => exact ⟨hlocks, hs 0 e hl⟩
  | none =>
    dsimp only
    obtain ⟨r, hr⟩ : ∃ r, AuditLog.emit env.toEnv s.handle s.disk event outcome payload (s.calls 0) = r := ⟨_, rfl⟩
    rw [hr]
    obtain ⟨⟨h, d⟩, raised⟩ := r
    cases raised with
    | none => exact hlocks
    | some e => exact ⟨hlocks, foreign_of_emit (by rw [hr])⟩

/-- A record, or an exception that says nothing about the vault. -/
theorem meets_emitImportFailed {w : World γ Time} (hw : Quiet n b w) (src : Path) (reason : Str) :
    (emitImportFailed env src reason).Meets w (fun _ w' => Quiet (n + 1) b w') fun e _ => Foreign e := by
  rw [emitImportFailed, emit, meets_recorded, meets_onPart]
  apply (meets_auditEmit hw.sane.locks _ _ _).mono
  · intro _ audit haudit
    have hcount := hw.failures
    refine ⟨⟨hw.sane.faults, haudit⟩, ?_, hw.buffers⟩
    unfold importFailures World.note at *
    rw [List.count_append, hcount, List.count_singleton_self]
  · intro e audit h
    exact h.2

/-- The vault was found at fault, and there is a record more of it. -/
def Reports (n : ℕ) (b : List Buffer) (x : Program (World γ Time) Exc α) (w : World γ Time) : Prop :=
  x.Meets w (fun _ w' => Quiet n b w') fun e w' => Foreign e ∨ Quiet (n + 1) b w'

theorem Reports.bind {β : Type} {x : Program (World γ Time) Exc α} {f : α → Program (World γ Time) Exc β}
    {w : World γ Time} (hx : Reports n b x w) (hf : ∀ a w', Quiet n b w' → Reports n b (f a) w') :
    Reports n b (x >>= f) w := by
  rw [Reports, meets_bind]
  exact hx.mono hf fun _ _ h => h

theorem Reports.of_stays {x : Program (World γ Time) Exc α} {w : World γ Time} (hx : Stays (Quiet n b) Foreign x)
    (hw : Quiet n b w) : Reports n b x w :=
  (hx w hw).mono (fun _ _ h => h) fun _ _ h => .inl h.2

/-- An error that is recorded. -/
theorem meets_emitRaise {w : World γ Time} (hw : Quiet n b w) (src : Path) (reason : Str) (e : Exc)
    (classes : List ErrorClass) (he : Foreign e ∨ e.isA classes = true) :
    (if e.isA classes then do emitImportFailed env src reason; raise e else raise e :
      Program (World γ Time) Exc α).Meets w (fun _ _ => False) fun e' w' => Foreign e' ∨ Quiet (n + 1) b w' := by
  by_cases hc : e.isA classes = true
  · simp only [if_pos hc, meets_bind, meets_raise]
    exact (meets_emitImportFailed hw src reason).mono (fun _ _ h => .inr h) fun _ _ h => .inl h
  · simp only [if_neg hc, meets_raise]
    exact .inl (he.resolve_right hc)

theorem reports_emitRaise {w : World γ Time} (hw : Quiet n b w) (src : Path) (reason : Str) {r : Except Exc α}
    {classes : List ErrorClass} (hr : OnlyRaises (fun e => Foreign e ∨ e.isA classes = true) r) :
    Reports n b (Program.catching (Program.ofExcept r) fun e =>
      if e.isA classes then do emitImportFailed env src reason; raise e else raise e) w := by
  rw [Reports, meets_catching]
  cases r with
  | ok a => exact hw
  | error e =>
    exact (meets_emitRaise hw src reason e classes (hr e rfl)).mono (fun _ _ h => h.elim) fun _ _ h => h

/-! ### The frame -/

theorem onlyRaises_parseHeader (headerBytes : Bytes) :
    OnlyRaises (fun e => Foreign e ∨ e.isA [.vaultFormatError] = true) (parseHeader env headerBytes) := by
  have hformat (message : Str) : Foreign (formatError message) ∨ (formatError message).isA [.vaultFormatError] = true :=
    .inr rfl
  unfold parseHeader
  dsimp only
  split
  · exact .error (hformat _)
  · split
    · exact .error (hformat _)
    · exact .error (.inl (foreign_jsonExc _))
    · split
      · exact .error (hformat _)
      · exact .ok _

theorem onlyRaises_unpack (data : Bytes) :
    OnlyRaises (fun e => Foreign e ∨ e.isA [.vaultFormatError] = true) (unpack env data) := by
  have hformat (message : Str) : Foreign (formatError message) ∨ (formatError message).isA [.vaultFormatError] = true :=
    .inr rfl
  unfold unpack
  dsimp only
  repeat' split
  all_goals first | exact .ok _ | exact .error (hformat _) | skip
  rename_i he
  exact fun e' he' => by
    obtain rfl := Except.error.inj he'
    exact onlyRaises_parseHeader _ _ he

theorem reports_readFrame {w : World γ Time} (hw : Quiet n b w) (src : Path) : Reports n b (readFrame env src) w := by
  apply (Reports.of_stays (stays_fileExists _) hw).bind
  intro there w1 hw1
  cases there with
  | false => exact .of_stays (.raise (foreign_of_cls (by decide))) hw1
  | true =>
    apply (Reports.of_stays (stays_readVaultBytes src) hw1).bind
    intro data w2 hw2
    apply (reports_emitRaise hw2 src _ (onlyRaises_unpack data)).bind
    intro frame w3 hw3
    exact .of_stays (.pure _) hw3

/-! ### Slots of a passphrase -/

/-- What the turn of one slot of a passphrase gives, in any world. -/
def slotKey (env : Platform γ Time) (masterPassphrase : Bytes) (cipher : CipherAlgorithm) (slot : VaultKeySlot) :
    Except Exc Bytes :=
  match slot.kdf, slot.nonce with
  | some kdf, some nonce => do
    validateImportKdf kdf.toParams
    let slotKey ← deriveKeyOf env masterPassphrase kdf.salt kdf.toParams
    let raw ← env.aead.decryptChecked slot.wrappedKey slotKey nonce (slotAssociatedData .passphrase) cipher
    fileKeyFromBytes raw
  | _, _ => .error { cls := .valueError, message := [] }

/-- What the loop over the slots gives. -/
def searchSlots (env : Platform γ Time) (masterPassphrase : Bytes) (cipher : CipherAlgorithm) :
    List VaultKeySlot → Option Exc → Except Exc Bytes
  | [], lastError =>
    .error (lastError.getD { cls := .decryptionError, message := lit "no key slot accepted this passphrase" })
  | slot :: slots, _ =>
    match slotKey env masterPassphrase cipher slot with
    | .ok key => .ok key
    | .error e => if e.isA atFault then searchSlots env masterPassphrase cipher slots (some e) else .error e

/-- The second world is the first, with keys derived. -/
def Derived (w w' : World γ Time) : Prop :=
  ∃ calls, w' = { w with history := w.history ++ calls } ∧ ∀ c ∈ calls, ∃ params n raised, c = .deriveKey params n raised

theorem Derived.refl (w : World γ Time) : Derived w w := ⟨[], by simp, by simp⟩

theorem Derived.trans {w w' w'' : World γ Time} (h : Derived w w') (h' : Derived w' w'') : Derived w w'' := by
  obtain ⟨calls, rfl, hc⟩ := h
  obtain ⟨calls', rfl, hc'⟩ := h'
  refine ⟨calls ++ calls', by simp, ?_⟩
  intro c hmem
  rcases List.mem_append.mp hmem with h | h
  · exact hc c h
  · exact hc' c h

theorem derived_note (w : World γ Time) (params : KDFParams) (n : ℕ) (raised : Option Exc) :
    Derived w (w.note (.deriveKey params n raised)) := ⟨[.deriveKey params n raised], rfl, by simp⟩

theorem Derived.quiet {w w' : World γ Time} (h : Derived w w') (hw : Quiet n b w) : Quiet n b w' := by
  obtain ⟨calls, rfl, hc⟩ := h
  refine ⟨⟨hw.sane.faults, hw.sane.locks⟩, ?_, hw.buffers⟩
  have hcount := hw.failures
  unfold importFailures at *
  rw [List.count_append, hcount, Nat.add_eq_left, List.count_eq_zero]
  intro hmem
  obtain ⟨params, n, raised, h⟩ := hc _ hmem
  cases h

/-- The result of a program that derives keys and does nothing else. -/
def Gives (x : Program (World γ Time) Exc α) (r : Except Exc α) : Prop :=
  ∀ w, ∃ w', Derived w w' ∧ x.run w = match r with
    | .ok a => .ok a w'
    | .error e => .error e w'

theorem gives_ofExcept (r : Except Exc α) : Gives (Program.ofExcept r : Program (World γ Time) Exc α) r := by
  intro w
  refine ⟨w, .refl w, ?_⟩
  cases r <;> rfl

theorem Gives.bind {β : Type} {x : Program (World γ Time) Exc α} {f : α → Program (World γ Time) Exc β}
    {r : Except Exc α} {g : α → Except Exc β} (hx : Gives x r) (hf : ∀ a, Gives (f a) (g a)) :
    Gives (x >>= f) (r >>= g) := by
  intro w
  obtain ⟨w1, hd, hr⟩ := hx w
  rw [EStateM.run_bind, hr]
  cases r with
  | error e => exact ⟨w1, hd, rfl⟩
  | ok a =>
    obtain ⟨w2, hd', hr'⟩ := hf a w1
    exact ⟨w2, hd.trans hd', hr'⟩

theorem gives_deriveKey (passphrase salt : Bytes) (params : KDFParams) :
    Gives (deriveKey env passphrase salt params) (deriveKeyOf env passphrase salt params) := by
  intro w
  cases hd : deriveKeyOf env passphrase salt params with
  | ok key => exact ⟨_, derived_note w params salt.length none, by rw [run_deriveKey, hd]⟩
  | error e => exact ⟨_, derived_note w params salt.length (some e), by rw [run_deriveKey, hd]⟩

theorem gives_unwrapSlot (masterPassphrase : Bytes) (cipher : CipherAlgorithm) {slot : VaultKeySlot}
    (htype : slot.type = .passphrase) :
    Gives (unwrapSlot env masterPassphrase cipher slot) (slotKey env masterPassphrase cipher slot) := by
  obtain ⟨kdf, nonce, hkdf, hnonce⟩ := passphrase_shape htype
  simp only [unwrapSlot, slotKey, unwrapWithPassphrase, htype, hkdf, hnonce]
  apply (gives_ofExcept _).bind
  intro _
  apply (gives_deriveKey _ _ _).bind
  intro slotKey
  apply (gives_ofExcept _).bind
  intro raw
  exact gives_ofExcept _

/-- The loop, apart from the calls of `derive_key`. -/
theorem gives_tryPassphraseSlots (masterPassphrase : Bytes) (cipher : CipherAlgorithm) :
    ∀ (slots : List VaultKeySlot) (lastError : Option Exc), (∀ slot ∈ slots, slot.type = .passphrase) →
      Gives (firstOf (unwrapSlot env masterPassphrase cipher) (·.isA atFault)
        (fun lastError => raise
          (lastError.getD { cls := .decryptionError, message := lit "no key slot accepted this passphrase" }))
        slots lastError) (searchSlots env masterPassphrase cipher slots lastError)
  | [], lastError, _ => fun w => ⟨w, .refl w, rfl⟩
  | slot :: slots, lastError, htype => by
    rw [List.forall_mem_cons] at htype
    intro w
    obtain ⟨w1, hd, hr⟩ := gives_unwrapSlot masterPassphrase cipher htype.1 w
    rw [firstOf, run_catching, hr, searchSlots]
    cases hk : slotKey env masterPassphrase cipher slot with
    | ok key => exact ⟨w1, hd, rfl⟩
    | error e =>
      dsimp only
      by_cases hc : e.isA atFault = true
      · rw [if_pos hc, if_pos hc]
        obtain ⟨w2, hd', hr'⟩ := gives_tryPassphraseSlots masterPassphrase cipher slots (some e) htype.2 w1
        exact ⟨w2, hd.trans hd', hr'⟩
      · rw [if_neg hc, if_neg hc]
        exact ⟨w1, hd, rfl⟩

/-! ### Parameters beyond the limits -/

/-- The slot is passed over. -/
def Refused (env : Platform γ Time) (masterPassphrase : Bytes) (cipher : CipherAlgorithm) (slot : VaultKeySlot) : Prop :=
  ∃ e, slotKey env masterPassphrase cipher slot = .error e ∧ e.isA atFault = true

/-- The parameters of the slot are not within the limits for a file to be
opened. -/
def SlotBeyondLimits (slot : VaultKeySlot) : Prop := ∃ kdf, slot.kdf = some kdf ∧ ¬ kdf.toParams.Importable

/-- The search gets to the last slot, whose parameters are beyond the limits. -/
def EndsBeyondLimits (env : Platform γ Time) (masterPassphrase : Bytes) (cipher : CipherAlgorithm)
    (slots : List VaultKeySlot) : Prop :=
  ∃ before slot, slots = before ++ [slot] ∧ (∀ s ∈ before, Refused env masterPassphrase cipher s) ∧
    SlotBeyondLimits slot

theorem isA_of_cls {e : Exc} {cls : ErrorClass} (h : e.cls = cls) (classes : List ErrorClass) :
    e.isA classes = classes.any cls.isSubclass := by
  rw [Exc.isA, h]

/-- Only `_validate_import_kdf` finds a slot's format at fault. -/
theorem beyondLimits_of_slotKey {masterPassphrase : Bytes} {cipher : CipherAlgorithm} {slot : VaultKeySlot} {e : Exc}
    (h : slotKey env masterPassphrase cipher slot = .error e) (he : e.isA [.vaultFormatError] = true) :
    SlotBeyondLimits slot := by
  unfold slotKey at h
  cases hkdf : slot.kdf with
  | none =>
    rw [hkdf] at h
    obtain rfl := Except.error.inj h
    exact absurd he (by decide)
  | some kdf =>
    cases hnonce : slot.nonce with
    | none =>
      rw [hkdf, hnonce] at h
      obtain rfl := Except.error.inj h
      exact absurd he (by decide)
    | some nonce =>
      rw [hkdf, hnonce] at h
      dsimp only [bind, Except.bind] at h
      cases hv : validateImportKdf kdf.toParams with
      | error e' => exact ⟨kdf, hkdf, (validateImportKdf_error hv).2⟩
      | ok u =>
        rw [hv, deriveKeyOf_toParams] at h
        dsimp only at h
        cases ha : env.argon2 masterPassphrase kdf.salt kdf.toParams with
        | error text =>
          rw [ha] at h
          obtain rfl := Except.error.inj h
          simp only [Exc.isA] at he
          exact absurd he (by decide)
        | ok slotKey =>
          rw [ha] at h
          dsimp only at h
          cases hd : env.aead.decryptChecked slot.wrappedKey slotKey nonce (slotAssociatedData .passphrase) cipher with
          | error e' =>
            rw [hd] at h
            obtain rfl := Except.error.inj h
            rw [isA_of_cls (Aead.decryptChecked_error hd)] at he
            exact absurd he (by decide)
          | ok raw =>
            rw [hd] at h
            dsimp only at h
            unfold fileKeyFromBytes at h
            split at h
            · obtain rfl := Except.error.inj h
              exact absurd he (by decide)
            · cases h

/-- A slot beyond the limits is passed over, for its format. -/
theorem slotKey_of_beyondLimits {slot : VaultKeySlot} (htype : slot.type = .passphrase)
    (h : SlotBeyondLimits slot) (masterPassphrase : Bytes) (cipher : CipherAlgorithm) :
    ∃ e, slotKey env masterPassphrase cipher slot = .error e ∧ e.cls = .vaultFormatError := by
  obtain ⟨kdf, hkdf, hi⟩ := h
  obtain ⟨kdf', nonce, -, hnonce⟩ := passphrase_shape htype
  cases hv : validateImportKdf kdf.toParams with
  | ok u => exact absurd (validateImportKdf_eq_ok.mp hv) hi
  | error e =>
    refine ⟨e, ?_, (validateImportKdf_error hv).1⟩
    simp only [slotKey, hkdf, hnonce, hv]
    rfl

/-- The search ends with an error of the format if it gets to a last slot that
is beyond the limits, -/
theorem searchSlots_of_endsBeyondLimits {masterPassphrase : Bytes} {cipher : CipherAlgorithm} :
    ∀ {before : List VaultKeySlot} {slot : VaultKeySlot} (lastError : Option Exc),
      (∀ s ∈ before, Refused env masterPassphrase cipher s) → slot.type = .passphrase →
      SlotBeyondLimits slot → ∃ e,
        searchSlots env masterPassphrase cipher (before ++ [slot]) lastError = .error e ∧ e.cls = .vaultFormatError
  | [], slot, lastError, _, htype, hslot => by
    obtain ⟨e, he, hcls⟩ := slotKey_of_beyondLimits htype hslot masterPassphrase cipher
    have hcaught : e.isA atFault = true := by
      rw [isA_of_cls hcls]
      decide
    refine ⟨e, ?_, hcls⟩
    rw [List.nil_append, searchSlots, he]
    dsimp only
    rw [if_pos hcaught]
    rfl
  | first :: before, slot, lastError, hbefore, htype, hslot => by
    rw [List.forall_mem_cons] at hbefore
    obtain ⟨⟨e, he, hcaught⟩, hbefore⟩ := hbefore
    rw [List.cons_append, searchSlots, he]
    dsimp only
    rw [if_pos hcaught]
    exact searchSlots_of_endsBeyondLimits (some e) hbefore htype hslot

/-- and only then. -/
theorem endsBeyondLimits_of_searchSlots {masterPassphrase : Bytes} {cipher : CipherAlgorithm} {e : Exc} :
    ∀ {slots : List VaultKeySlot} {lastError : Option Exc}, slots ≠ [] →
      searchSlots env masterPassphrase cipher slots lastError = .error e → e.isA [.vaultFormatError] = true →
      EndsBeyondLimits env masterPassphrase cipher slots
  | [], _, hne, _, _ => absurd rfl hne
  | slot :: slots, lastError, _, h, he => by
    rw [searchSlots] at h
    cases hk : slotKey env masterPassphrase cipher slot with
    | ok key =>
      rw [hk] at h
      cases h
    | error e' =>
      rw [hk] at h
      dsimp only at h
      by_cases hc : e'.isA atFault = true
      · rw [if_pos hc] at h
        cases slots with
        | nil =>
          obtain rfl : e' = e := Except.error.inj h
          exact ⟨[], slot, rfl, by simp, beyondLimits_of_slotKey hk he⟩
        | cons next slots =>
          obtain ⟨before, last, hslots, hbefore, hlast⟩ := endsBeyondLimits_of_searchSlots (by simp) h he
          refine ⟨slot :: before, last, by rw [hslots]; rfl, ?_, hlast⟩
          rw [List.forall_mem_cons]
          exact ⟨⟨e', hk, hc⟩, hbefore⟩
      · rw [if_neg hc] at h
        obtain rfl : e' = e := Except.error.inj h
        refine absurd ?_ hc
        simp only [Exc.isA, atFault, List.any_cons, List.any_nil, Bool.or_false, Bool.or_eq_true] at he ⊢
        exact .inr he

/-! ### The key of the vault -/

include hlib in
theorem reports_tryOpenpgpSlots (pin : Bytes) (src : Path) : ∀ (slots : List VaultKeySlot) {lastError : Option Exc}
    {w : World γ Time}, Quiet n b w → (∀ e, lastError = some e → Foreign e) →
      Reports n b (tryOpenpgpSlots env pin src slots lastError) w
  | [], lastError, w, hw, _ => by
    rw [tryOpenpgpSlots, Reports, meets_bind]
    exact (meets_emitImportFailed hw src _).mono (fun _ _ h => .inr h) fun _ _ h => .inl h
  | slot :: slots, lastError, w, hw, _ => by
    have hd := stays_decrypt hlib (n := n) (b := b) slot.wrappedKey (some pin) w hw
    rw [tryOpenpgpSlots, Reports, Meets, EStateM.run_bind]
    cases hr : (GPGService.decrypt env slot.wrappedKey (some pin)).run w with
    | ok decrypted w1 =>
      have hfile : OnlyRaises Foreign (fileKeyFromBytes decrypted.plaintext) := by
        unfold fileKeyFromBytes
        split
        · exact .error (foreign_of_cls (by decide))
        · exact .ok _
      rw [run_attempt_of_ok hr]
      exact Reports.of_stays (.ofExcept hfile) (hd.of_run_eq_ok hr)
    | error e w1 =>
      obtain ⟨hw1, he⟩ := hd.of_run_eq_error hr
      by_cases hc : e.isA caughtErrors = true
      · rw [run_attempt_of_caught hr hc]
        refine reports_tryOpenpgpSlots pin src slots hw1 ?_
        intro e' he'
        obtain rfl := Option.some.inj he'
        exact he
      · rw [run_attempt_of_not_caught hr hc]
        exact .inl he

/-- What a program that only derives keys raises, in the handler of
`_vault_key`. -/
theorem Gives.reports {x : Program (World γ Time) Exc α} {r : Except Exc α} (hx : Gives x r) {w : World γ Time}
    (hw : Quiet n b w) {handler : Exc → Program (World γ Time) Exc α}
    (hh : ∀ e w', r = .error e → Quiet n b w' →
      (handler e).Meets w' (fun _ _ => False) fun e' w'' => Foreign e' ∨ Quiet (n + 1) b w'') :
    Reports n b (x.catching handler) w := by
  obtain ⟨w1, hd, hr⟩ := hx w
  rw [Reports, meets_catching, Meets, hr]
  cases r with
  | ok a => exact hd.quiet hw
  | error e => exact (hh e w1 rfl (hd.quiet hw)).mono (fun _ _ h => h.elim) fun _ _ h => h

/-- The header's parameters are beyond the limits and nothing stands in
front of them. -/
def BeyondLimits (env : Platform γ Time) (header : VaultHeader) (credentials : Credentials) : Prop :=
  if header.usesKeySlots then
    credentials.smartcardPin = none ∧ ∃ masterPassphrase, credentials.masterPassphrase = some masterPassphrase ∧
      EndsBeyondLimits env masterPassphrase header.cipher.algorithm (header.slotsOf .passphrase)
  else
    credentials.masterPassphrase ≠ none ∧ ∃ kdf, header.kdf = some kdf ∧ ¬ kdf.toParams.Importable

theorem kdf_of_not_usesKeySlots {header : VaultHeader} (h : ¬ header.usesKeySlots = true) :
    ∃ kdf, header.kdf = some kdf := by
  have hok := header.ok
  unfold headerOk at hok
  rw [Bool.and_eq_true] at hok
  by_cases hv : header.version = vaultFormatVersion
  · rw [if_pos hv, Bool.and_eq_true] at hok
    exact Option.isSome_iff_exists.mp hok.2.1
  · rw [if_neg hv, Bool.and_eq_true, Bool.and_eq_true] at hok
    exact absurd hok.2.2.1 h

/-- The search for a slot of the passphrase, apart from the calls of
`derive_key`. -/
theorem gives_unwrapPassphraseSlot {header : VaultHeader} (hn : header.slotsOf .passphrase ≠ [])
    (masterPassphrase : Bytes) (cipher : CipherAlgorithm) :
    Gives (unwrapPassphraseSlot env header masterPassphrase cipher)
      (searchSlots env masterPassphrase cipher (header.slotsOf .passphrase) none) := by
  have hkdf : ∀ slot ∈ header.slotsOf .passphrase, slot.kdf.isSome = true := by
    intro slot hslot
    obtain ⟨kdf, nonce, hkdf, -⟩ := passphrase_shape (type_of_mem_slotsOf hslot)
    simp [hkdf]
  rw [unwrapPassphraseSlot, if_neg hn, tryPassphraseSlots_eq_firstOf env _ _ _ _ hkdf]
  exact gives_tryPassphraseSlots masterPassphrase cipher _ none fun slot hslot => type_of_mem_slotsOf hslot

theorem foreign_or_isA (e : Exc) : Foreign e ∨ e.isA [.decryptionError] = true ∨ e.isA [.vaultFormatError] = true := by
  simp only [Foreign, Exc.isA, atFault, List.any_cons, List.any_nil, Bool.or_false, Bool.or_eq_true]
  tauto

include hlib in
theorem reports_vaultKey {w : World γ Time} (hw : Quiet n b w) {frame : UnpackedFrame} {credentials : Credentials}
    (src : Path) (hlimits : ¬ BeyondLimits env frame.header credentials) :
    Reports n b (vaultKey env frame credentials src) w := by
  unfold vaultKey
  unfold BeyondLimits at hlimits
  by_cases hs : frame.header.usesKeySlots = true
  · simp only [hs, if_true] at hlimits ⊢
    cases hpin : credentials.smartcardPin with
    | some pin =>
      dsimp only
      unfold unwrapOpenpgpSlot
      by_cases hn : frame.header.slotsOf .openpgp = []
      · rw [if_pos hn]
        exact .of_stays (.raise (foreign_of_cls (by decide))) hw
      · rw [if_neg hn]
        exact reports_tryOpenpgpSlots hlib pin src _ hw (by simp)
    | none =>
      cases hpass : credentials.masterPassphrase with
      | none => exact .of_stays (.raise (foreign_of_cls (by decide))) hw
      | some masterPassphrase =>
        dsimp only
        by_cases hn : frame.header.slotsOf .passphrase = []
        · rw [unwrapPassphraseSlot, if_pos hn, Reports, meets_catching, meets_raise]
          exact (meets_emitRaise hw src _ _ _ (.inl (foreign_of_cls (by decide)))).mono (fun _ _ h => h.elim) fun _ _ h => h
        · apply (gives_unwrapPassphraseSlot hn _ _).reports hw
          intro e w' he hw'
          refine meets_emitRaise hw' src _ e _ ?_
          rcases foreign_or_isA e with h | h | h
          · exact .inl h
          · exact .inr h
          · exact absurd ⟨hpin, masterPassphrase, hpass, endsBeyondLimits_of_searchSlots hn he h⟩ hlimits
  · simp only [hs, Bool.false_eq_true, if_false] at hlimits ⊢
    obtain ⟨kdf, hkdf⟩ := kdf_of_not_usesKeySlots hs
    rw [hkdf]
    cases hpass : credentials.masterPassphrase with
    | none => exact .of_stays (.raise (foreign_of_cls (by decide))) hw
    | some masterPassphrase =>
      have hi : kdf.toParams.Importable := by
        by_contra hi
        exact hlimits ⟨by simp [hpass], kdf, hkdf, hi⟩
      have hderive : OnlyRaises Foreign (deriveKeyOf env masterPassphrase kdf.salt kdf.toParams) := by
        rw [deriveKeyOf_toParams]
        cases env.argon2 masterPassphrase kdf.salt kdf.toParams with
        | ok raw => exact .ok _
        | error text => exact .error (foreign_of_cls (by decide))
      dsimp only
      rw [validateImportKdf_eq_ok.mpr hi]
      apply (Reports.of_stays (.pure ()) hw).bind
      intro _ w1 hw1
      obtain ⟨w2, hd, hr⟩ := gives_deriveKey masterPassphrase kdf.salt kdf.toParams w1
      rw [Reports, Meets, hr]
      cases hk : deriveKeyOf env masterPassphrase kdf.salt kdf.toParams with
      | ok key => exact hd.quiet hw1
      | error e => exact .inl (hderive e hk)

/-- With parameters beyond the limits nothing is recorded. -/
theorem run_vaultKey_of_beyondLimits {frame : UnpackedFrame} {credentials : Credentials} (src : Path)
    (hlimits : BeyondLimits env frame.header credentials) (w : World γ Time) :
    ∃ e w', (vaultKey env frame credentials src).run w = .error e w' ∧ e.cls = .vaultFormatError ∧ Derived w w' := by
  unfold vaultKey
  unfold BeyondLimits at hlimits
  by_cases hs : frame.header.usesKeySlots = true
  · simp only [hs, if_true] at hlimits ⊢
    obtain ⟨hpin, masterPassphrase, hpass, before, slot, hslots, hbefore, hslot⟩ := hlimits
    have hn : frame.header.slotsOf .passphrase ≠ [] := by simp [hslots]
    have htype : slot.type = .passphrase := by
      refine @type_of_mem_slotsOf frame.header _ _ ?_
      simp [hslots]
    obtain ⟨e, he, hcls⟩ := searchSlots_of_endsBeyondLimits none hbefore htype hslot
    obtain ⟨w1, hd, hr⟩ := gives_unwrapPassphraseSlot hn masterPassphrase frame.header.cipher.algorithm w
    rw [hslots, he] at hr
    refine ⟨e, w1, ?_, hcls, hd⟩
    have hnot : ¬ e.isA [.decryptionError] = true := by
      rw [isA_of_cls hcls]
      decide
    rw [hpin, hpass]
    dsimp only
    rw [run_catching, hr]
    dsimp only
    rw [if_neg hnot, run_raise]
  · simp only [hs, Bool.false_eq_true, if_false] at hlimits ⊢
    obtain ⟨hpass, kdf, hkdf, hi⟩ := hlimits
    obtain ⟨masterPassphrase, hpass⟩ := Option.ne_none_iff_exists'.mp hpass
    cases hv : validateImportKdf kdf.toParams with
    | ok u => exact absurd (validateImportKdf_eq_ok.mp hv) hi
    | error e =>
      refine ⟨e, w, ?_, (validateImportKdf_error hv).1, .refl w⟩
      rw [hkdf, hpass]
      dsimp only
      rw [hv, EStateM.run_bind, run_ofExcept_error]

end VaultService
end GpgMeister
