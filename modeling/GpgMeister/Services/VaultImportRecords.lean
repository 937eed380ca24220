/-
# The record of a vault that is not opened

A vault whose frame, parameters, slots, ciphertext or payload are at fault is
not opened: `_open` raises `VaultFormatError` or `DecryptionError`. It should
then have written one record of the failure, and nothing of the plaintext
should be left in memory.

* `failureRecorded_iff`: exactly when opening a vault writes that record and
  leaves nothing of the plaintext.
-/
import GpgMeister.Services.VaultFaults

namespace GpgMeister
namespace VaultService

open VaultFormat VaultKeyslots VaultPayload Program

variable {γ Time α : Type} {env : Platform γ Time} (hlib : ForeignLibraries env) {n : ℕ} {b : List Buffer}

/-! ### The payload -/

/-- What a payload is refused with. -/
def NotDecryption (e : Exc) : Prop := ¬ e.isA [.decryptionError] = true

theorem notDecryption_formatError (message : Str) : NotDecryption (formatError message) := by
  simp only [NotDecryption, Exc.isA, formatError]
  decide

theorem onlyRaises_readU32 (view : Bytes) (offset : ℕ) : OnlyRaises NotDecryption (readU32 view offset) := by
  unfold readU32
  split
  · exact .error (notDecryption_formatError _)
  · exact .ok _

theorem onlyRaises_readKeySlice (view : Bytes) (offset : ℕ) (entry : VaultKeyEntry Time) :
    OnlyRaises NotDecryption (readKeySlice view offset entry) := by
  have hformat {β : Type} (message : Str) : OnlyRaises NotDecryption (.error (formatError message) : Except Exc β) :=
    .error (notDecryption_formatError message)
  unfold readKeySlice
  split
  · exact hformat _
  · apply (onlyRaises_readU32 _ _).bind
    intro (publicLen, publicStart)
    dsimp only
    split
    · exact hformat _
    · split
      · exact hformat _
      · apply (onlyRaises_readU32 _ _).bind
        intro (privateLen, privateStart)
        dsimp only
        split
        · exact hformat _
        · split
          · exact hformat _
          · split
            · exact hformat _
            · split
              · exact hformat _
              · exact .ok _

theorem onlyRaises_readKeySlices (view : Bytes) : ∀ (entries : List (VaultKeyEntry Time)) (offset : ℕ)
    (slices : KeySlices), OnlyRaises NotDecryption (readKeySlices view entries offset slices)
  | [], _, _ => .ok _
  | entry :: entries, offset, slices => by
    rw [readKeySlices]
    exact (onlyRaises_readKeySlice view offset entry).bind fun r => onlyRaises_readKeySlices view entries r.2 _

theorem onlyRaises_rebuildLegacySegmentedPayload (payload : Bytes) :
    OnlyRaises NotDecryption (rebuildLegacySegmentedPayload env payload) := by
  intro e he
  unfold rebuildLegacySegmentedPayload at he
  cases hr : rebuildLegacy env payload with
  | ok r =>
    rw [hr] at he
    cases he
  | error e' =>
    rw [hr] at he
    obtain rfl := Except.error.inj he
    dsimp only
    by_cases hc : e'.isA [.vaultFormatError] = true
    · rw [if_pos hc]
      -- no class is below both
      have hall : ∀ c : ErrorClass, c.isSubclass .vaultFormatError = true → c.isSubclass .decryptionError = false := by
        intro c
        cases c <;> decide
      simp only [Exc.isA, List.any_cons, List.any_nil, Bool.or_false] at hc
      simp [NotDecryption, Exc.isA, hall e'.cls hc]
    · rw [if_neg hc]
      exact notDecryption_formatError _

include hlib in
theorem onlyRaises_splitPayload (payload : Bytes) : OnlyRaises NotDecryption (splitPayload env payload) := by
  have hformat {β : Type} (message : Str) : OnlyRaises NotDecryption (.error (formatError message) : Except Exc β) :=
    .error (notDecryption_formatError message)
  unfold splitPayload
  split
  · exact hformat _
  · split
    · exact onlyRaises_rebuildLegacySegmentedPayload _
    · apply (onlyRaises_readU32 _ _).bind
      intro r
      dsimp only
      split
      · exact hformat _
      · apply OnlyRaises.bind
        · unfold deserialiseManifest
          apply OnlyRaises.bind
          · exact fun e he => hlib.unpackb _ _ _ e he
          · intro obj
            split
            · split
              · exact .ok _
              · exact hformat _
            · exact hformat _
        · intro manifest
          exact .ok _

include hlib in
theorem onlyRaises_deserialise (payload : Bytes) : OnlyRaises NotDecryption (deserialiseSegmentedPayload env payload) := by
  unfold deserialiseSegmentedPayload
  apply (onlyRaises_splitPayload hlib payload).bind
  intro r
  apply (onlyRaises_readKeySlices _ _ _ _).bind
  intro r'
  dsimp only
  split
  · exact .error (notDecryption_formatError _)
  · exact .ok _

/-! ### The plaintext in memory -/

/-- The octets of a buffer are wiped; an object of one octet is shared by the
interpreter and not one of the plaintext's own. -/
def Buffer.Wiped (buffer : Buffer) : Prop :=
  buffer.isMutable = true ∨ 1 < buffer.octets.length → ∀ o ∈ buffer.octets, o = 0

theorem wiped_zeros {isMutable : Bool} (octets : Bytes) : Buffer.Wiped { isMutable, octets := zeros octets } :=
  fun _ _ ho => List.eq_of_mem_replicate ho

theorem wiped_zeroBytesObject (octets : Bytes) :
    Buffer.Wiped { isMutable := false, octets := if octets.length ≤ 1 then octets else zeros octets } := by
  by_cases hl : octets.length ≤ 1
  · rw [if_pos hl]
    intro h
    rcases h with h | h
    · cases h
    · exact absurd h (not_lt.mpr hl)
  · rw [if_neg hl]
    exact wiped_zeros octets

theorem modify_append {β : Type} (b tail : List β) (k : ℕ) (f : β → β) :
    (b ++ tail).modify (b.length + k) f = b ++ tail.modify k f := by
  induction b with
  | nil => simp
  | cons x b ih =>
    rw [List.cons_append, List.length_cons, Nat.add_right_comm, List.modify_succ_cons, ih, List.cons_append]

theorem Quiet.modifyBuffer {w : World γ Time} {b' : List Buffer} (hw : Quiet n b w) {buffer : ℕ} {f : Bytes → Bytes}
    (h : b.modify buffer (fun x => { x with octets := f x.octets }) = b') :
    (modifyBuffer buffer f : Program (World γ Time) Exc Unit).Meets w (fun _ w' => Quiet n b' w') fun _ _ => False :=
  ⟨⟨hw.sane.faults, hw.sane.locks⟩, hw.failures, by
    rw [← h, ← hw.buffers]⟩

theorem Quiet.allocate {w : World γ Time} (hw : Quiet n b w) (isMutable : Bool) (octets : Bytes) :
    (allocate isMutable octets : Program (World γ Time) Exc ℕ).Meets w
      (fun buffer w' => buffer = b.length ∧ Quiet n (b ++ [Buffer.mk isMutable octets]) w') fun _ _ => False := by
  rw [← hw.buffers]
  exact ⟨rfl, ⟨hw.sane.faults, hw.sane.locks⟩, hw.failures, rfl⟩

theorem Quiet.zeroBytesObject {w : World γ Time} {octets : Bytes} {buffer : Buffer}
    (hw : Quiet n (b ++ [Buffer.mk false octets, buffer]) w) :
    (zeroBytesObject b.length : Program (World γ Time) Exc Unit).Meets w
      (fun _ => Quiet n (b ++ [Buffer.mk false (if octets.length ≤ 1 then octets else zeros octets), buffer]))
      fun _ _ => False :=
  hw.modifyBuffer (modify_append b _ 0 _)

/-- The buffers after the plaintext has been copied into its own. -/
def withPlaintext (b : List Buffer) (source : Buffer) (octets : Bytes) : List Buffer :=
  b ++ [source, { isMutable := true, octets }]

/-- The plaintext is in its buffer, and the object it came in is wiped. -/
theorem meets_decryptFrame {w : World γ Time} {frame : UnpackedFrame} {credentials : Credentials} {src : Path}
    (hkey : Reports n b (vaultKey env frame credentials src) w) :
    (decryptFrame env frame credentials src).Meets w
      (fun payload w' => ∃ source, Buffer.Wiped source ∧ payload.buffer = b.length + 1 ∧
        Quiet n (withPlaintext b source payload.octets) w')
      fun e w' => Foreign e ∨ Quiet (n + 1) b w' := by
  rw [decryptFrame, meets_bind]
  refine hkey.mono (fun key w1 hw1 => ?_) fun _ _ h => h
  have haead : OnlyRaises (fun e => Foreign e ∨ e.isA [.decryptionError] = true)
      (env.aead.decryptChecked frame.ciphertext key frame.header.cipher.nonce frame.headerBytes
        frame.header.cipher.algorithm) := by
    intro e he
    rw [isA_of_cls (Aead.decryptChecked_error he)]
    exact .inr (by decide)
  rw [meets_bind]
  refine (reports_emitRaise hw1 src (lit "decryption") haead).mono (fun octets w2 hw2 => ?_) fun _ _ h => h
  rw [meets_bind]
  refine (hw2.allocate false octets).mono (fun source w3 h3 => ?_) fun _ _ h => h.elim
  obtain ⟨rfl, hw3⟩ := h3
  rw [meets_bind]
  refine (hw3.allocate true octets).mono (fun buffer w4 h4 => ?_) fun _ _ h => h.elim
  obtain ⟨rfl, hw4⟩ := h4
  rw [meets_bind]
  rw [List.append_assoc, List.singleton_append] at hw4
  refine hw4.zeroBytesObject.mono (fun _ w5 hw5 => ?_) fun _ _ h => h.elim
  exact ⟨_, wiped_zeroBytesObject octets, by simp, hw5⟩

theorem meets_verifySidecar {w : World γ Time} (hw : Quiet n b w) (src : Path) (data : Bytes) :
    (verifySidecar env src data).Meets w (fun _ w' => Quiet n b w') fun e _ => Foreign e := by
  rw [verifySidecar, meets_bind]
  refine (stays_fileExists (sidecarOf src) w hw).mono (fun there w1 hw1 => ?_) fun _ _ h => h.2
  cases there with
  | false => exact hw1
  | true =>
    simp only [if_true, meets_bind]
    refine (stays_readSidecarDigest env (sidecarOf src) w1 hw1).mono (fun expected w2 hw2 => ?_) fun _ _ h => h.2
    by_cases hd : expected ≠ env.lower (env.sha256 data)
    · simp only [if_pos hd, meets_bind, meets_raise]
      exact (meets_emitImportFailed hw2 src _).mono (fun _ _ _ => foreign_of_cls (by decide)) fun _ _ h => h
    · simp only [if_neg hd]
      exact hw2

theorem Quiet.modifyPlaintext {w : World γ Time} {source : Buffer} {octets : Bytes}
    (hw : Quiet n (withPlaintext b source octets) w) (f : Bytes → Bytes) :
    (GpgMeister.modifyBuffer (b.length + 1) f : Program (World γ Time) Exc Unit).Meets w
      (fun _ => Quiet n (withPlaintext b source (f octets))) fun _ _ => False :=
  hw.modifyBuffer (modify_append b _ 1 _)

/-- The audit log takes the record of the failure. -/
def TakesRecord (env : Platform γ Time) (src : Path) (reason : Str) (audit : AuditSink) : Prop :=
  ∃ w w', w.audit = audit ∧ (emitImportFailed env src reason).run w = .ok () w'

/-- Whether a record is taken is up to the audit log alone. -/
theorem run_emitImportFailed {w : World γ Time} {src : Path} {reason : Str} (h : TakesRecord env src reason w.audit) :
    ∃ w', (emitImportFailed env src reason).run w = .ok () w' ∧ w'.buffers = w.buffers := by
  obtain ⟨v, v', haudit, h⟩ := h
  rw [emitImportFailed, emit, run_recorded_eq_ok] at h
  obtain ⟨v1, h, -⟩ := h
  rw [run_onPart, haudit] at h
  split at h
  next audit hemit =>
    have hrun : (emitImportFailed env src reason).run w = .ok ()
        ({ w with audit := audit }.note (.emit (lit "vault_import_failed") (lit "failed") none)) := by
      refine run_recorded_eq_ok.mpr ⟨{ w with audit := audit }, ?_, rfl⟩
      rw [run_onPart, hemit]
    exact ⟨_, hrun, rfl⟩
  next => cases h

/-- What is made of the payload is `VaultFormatError`. -/
def PayloadRefused (env : Platform γ Time) (frame : UnpackedFrame) (octets : Bytes) : Prop :=
  match deserialiseSegmentedPayload env octets with
  | .error e => e.isA [.vaultFormatError] = true
  | .ok _ => frame.header.cipher.nonce.length ≠ nonceLen

/-- A legacy payload gets past the checksum, is refused, and the refusal is
recorded. -/
structure LegacyRefused (env : Platform γ Time) (src : Path) (data : Bytes) (frame : UnpackedFrame)
    (skipChecksum : Bool) (octets : Bytes) (w : World γ Time) : Prop where
  legacy : isLegacy octets = true
  refused : PayloadRefused env frame octets
  recorded : ∃ w', (if skipChecksum = false then verifySidecar env src data else pure ()).run w = .ok () w' ∧
    TakesRecord env src (lit "payload") w'.audit

/-- What is left of a payload that is refused: it is in its buffer, and if it is
a legacy payload there are copies of it. -/
def Kept (env : Platform γ Time) (src : Path) (n : ℕ) (b : List Buffer) (source : Buffer) (w : World γ Time) : Prop :=
  (∃ octets, Quiet n (withPlaintext b source octets) w) ∨
    (∃ b', Quiet n b' w) ∧ ¬ TakesRecord env src (lit "payload") w.audit

/-- What is made of the plaintext after it was copied. -/
def restOfPayload (env : Platform γ Time) (src : Path) (frame : UnpackedFrame) (payload : Plaintext) :
    Program (World γ Time) Exc (OpenedVault Time) := do
  let (manifest, keySlices, plaintext) ← Program.ofExcept (deserialiseSegmentedPayload env payload.octets)
  modifyBuffer payload.buffer fun _ => plaintext
  if frame.header.cipher.nonce.length ≠ nonceLen then
    Program.raise (formatError (lit "vault nonce length mismatch"))
  else return { manifest, srcPath := src, plaintext, keySlices }

theorem openPayload_skip_eq (src : Path) (data : Bytes) (frame : UnpackedFrame) (payload : Plaintext) :
    openPayload env src data frame true payload =
      copyLegacyPayload env payload.octets >>= fun _ => restOfPayload env src frame payload := by
  rfl

include hlib in
/-- The payload is refused with `VaultFormatError`, and its buffer may have been
written. -/
theorem meets_restOfPayload {payload : Plaintext} {w : World γ Time} (hw : Quiet n b w) (src : Path)
    (frame : UnpackedFrame) : (restOfPayload env src frame payload).Meets w (fun _ _ => True) fun e w' =>
      Foreign e ∨ e.isA [.vaultFormatError] = true ∧ PayloadRefused env frame payload.octets ∧ w'.audit = w.audit ∧
        ∃ f : Bytes → Bytes, Quiet n (b.modify payload.buffer fun x => { x with octets := f x.octets }) w' := by
  rw [restOfPayload, meets_bind]
  cases hr : deserialiseSegmentedPayload env payload.octets with
  | error e =>
    rcases foreign_or_isA e with h | h | h
    · exact .inl h
    · exact absurd h (onlyRaises_deserialise hlib _ e hr)
    · refine .inr ⟨h, ?_, rfl, id, ?_⟩
      · simp only [PayloadRefused, hr, h]
      · show Quiet n (b.modify payload.buffer id) w
        rwa [List.modify_id]
  | ok r =>
    obtain ⟨manifest, keySlices, plaintext⟩ := r
    rw [meets_ofExcept_ok]
    dsimp only
    rw [meets_bind]
    have hwritten : (GpgMeister.modifyBuffer payload.buffer (fun _ => plaintext) :
        Program (World γ Time) Exc Unit).Meets w (fun _ w' => w'.audit = w.audit ∧
          Quiet n (b.modify payload.buffer fun x => { x with octets := plaintext }) w') fun _ _ => False :=
      ⟨rfl, hw.modifyBuffer (f := fun _ => plaintext) rfl⟩
    refine hwritten.mono (fun _ w' h => ?_) fun _ _ h => h.elim
    by_cases hn : frame.header.cipher.nonce.length ≠ nonceLen
    · simp only [if_pos hn, meets_raise]
      refine .inr ⟨by decide, ?_, h.1, fun _ => plaintext, h.2⟩
      simpa only [PayloadRefused, hr] using hn
    · simp only [if_neg hn]
      trivial

include hlib in
theorem meets_openPayload_skip {w : World γ Time} {source : Buffer} {payload : Plaintext}
    (hw : Quiet n (withPlaintext b source payload.octets) w) (hbuffer : payload.buffer = b.length + 1) (src : Path)
    (data : Bytes) (frame : UnpackedFrame) (hlegacy : isLegacy payload.octets = true →
      PayloadRefused env frame payload.octets → ¬ TakesRecord env src (lit "payload") w.audit) :
    (openPayload env src data frame true payload).Meets w (fun _ _ => True) fun e w' =>
      Foreign e ∨ e.isA [.vaultFormatError] = true ∧ Kept env src n b source w' := by
  rw [openPayload_skip_eq, meets_bind]
  by_cases hl : isLegacy payload.octets = true
  · refine (meets_copyLegacyPayload env hl w).mono (fun _ w1 h => ?_) fun _ _ h => h.elim
    obtain ⟨b1, -, rfl⟩ := h
    have hw1 : Quiet n b1 { w with buffers := b1 } := ⟨⟨hw.sane.faults, hw.sane.locks⟩, hw.failures, rfl⟩
    refine (meets_restOfPayload hlib hw1 src frame).mono (fun _ _ h => h) fun e w' h => h.imp_right ?_
    rintro ⟨hc, hrefused, haudit, f, hw'⟩
    exact ⟨hc, .inr ⟨⟨_, hw'⟩, by rw [haudit]; exact hlegacy hl hrefused⟩⟩
  · rw [copyLegacyPayload_of_not_legacy env hl, meets_pure]
    refine (meets_restOfPayload hlib hw src frame).mono (fun _ _ h => h) fun e w' h => h.imp_right ?_
    rintro ⟨hc, -, -, f, hw'⟩
    refine ⟨hc, .inl ⟨f payload.octets, ?_⟩⟩
    rwa [hbuffer, withPlaintext, modify_append b _ 1 _] at hw'

include hlib in
/-- A payload that is refused is still in its buffer. -/
theorem meets_openPayload {w : World γ Time} {source : Buffer} {payload : Plaintext}
    (hw : Quiet n (withPlaintext b source payload.octets) w) (hbuffer : payload.buffer = b.length + 1) (src : Path)
    (data : Bytes) (frame : UnpackedFrame) (skipChecksum : Bool)
    (hlegacy : ¬ LegacyRefused env src data frame skipChecksum payload.octets w) :
    (openPayload env src data frame skipChecksum payload).Meets w (fun _ _ => True) fun e w' =>
      Foreign e ∨ e.isA [.vaultFormatError] = true ∧ Kept env src n b source w' := by
  cases skipChecksum with
  | true =>
    exact meets_openPayload_skip hlib hw hbuffer src data frame fun hl hr ht => hlegacy ⟨hl, hr, w, rfl, ht⟩
  | false =>
    rw [openPayload_eq]
    have hverify : (verifySidecar env src data).Meets w
        (fun _ w' => Quiet n (withPlaintext b source payload.octets) w') fun e _ => Foreign e :=
      meets_verifySidecar hw src data
    unfold Meets
    rw [EStateM.run_bind]
    cases hrun : (verifySidecar env src data).run w with
    | error e w1 => exact .inl (hverify.of_run_eq_error hrun)
    | ok _ w1 =>
      exact meets_openPayload_skip hlib (hverify.of_run_eq_ok hrun) hbuffer src data frame fun hl hr ht =>
        hlegacy ⟨hl, hr, w1, hrun, ht⟩

/-! ### Opening a vault -/

/-- What a failed opening of the vault leaves behind: a record of the failure,
and nothing of the plaintext. -/
def FailureRecorded (env : Platform γ Time) (sourcePath : Path) (credentials : Credentials) (skipChecksum : Bool)
    (w : World γ Time) : Prop :=
  ∀ e w', (openVault env sourcePath credentials skipChecksum).run w = .error e w' → e.isA atFault = true →
    importFailures w' = importFailures w + 1 ∧
      ∃ new, w'.buffers = w.buffers ++ new ∧ ∀ buffer ∈ new, Buffer.Wiped buffer

/-- The payload, and the handler of `_open`. -/
def openOrEmit (env : Platform γ Time) (src : Path) (data : Bytes) (frame : UnpackedFrame) (skipChecksum : Bool)
    (payload : Plaintext) : Program (World γ Time) Exc (OpenedVault Time) :=
  Program.catching (openPayload env src data frame skipChecksum payload) fun e => do
    zeroMutableBuffer payload.buffer
    if e.isA [.vaultFormatError] then do
      emitImportFailed env src (lit "payload")
      raise e
    else raise e

include hlib in
theorem meets_openOrEmit {w : World γ Time} {source : Buffer} {payload : Plaintext} (hsource : Buffer.Wiped source)
    (hw : Quiet n (withPlaintext b source payload.octets) w) (hbuffer : payload.buffer = b.length + 1) (src : Path)
    (data : Bytes) (frame : UnpackedFrame) (skipChecksum : Bool)
    (hlegacy : ¬ LegacyRefused env src data frame skipChecksum payload.octets w) :
    (openOrEmit env src data frame skipChecksum payload).Meets w (fun _ _ => True) fun e w' =>
        Foreign e ∨ importFailures w' = n + 1 ∧ ∃ new, w'.buffers = b ++ new ∧ ∀ buffer ∈ new, Buffer.Wiped buffer := by
  rw [openOrEmit, meets_catching]
  refine (meets_openPayload hlib hw hbuffer src data frame skipChecksum hlegacy).mono (fun _ _ h => h) fun e w1 h => ?_
  rw [hbuffer]
  rcases h with h | ⟨hc, hkept⟩
  · -- the exception says nothing about the vault, and goes on
    have hc : ¬ e.isA [.vaultFormatError] = true := by
      intro hc
      refine h ?_
      simp only [Exc.isA, atFault, List.any_cons, List.any_nil, Bool.or_false, Bool.or_eq_true] at hc ⊢
      exact .inr hc
    simp only [if_neg hc]
    exact .inl h
  · simp only [if_pos hc]
    rcases hkept with ⟨octets, hw1⟩ | ⟨⟨b', hw1⟩, htakes⟩
    · rw [meets_bind]
      refine (hw1.modifyPlaintext _).mono (fun _ w2 hw2 => ?_) fun _ _ h => h.elim
      rw [meets_bind]
      refine (meets_emitImportFailed hw2 src _).mono (fun _ w3 hw3 => ?_) fun _ _ h => .inl h
      refine .inr ⟨hw3.failures, _, hw3.buffers, ?_⟩
      intro buffer hmem
      rcases List.mem_pair.mp hmem with rfl | rfl
      · exact hsource
      · exact wiped_zeros octets
    · -- there are copies, and the record of the failure is refused
      have hzeroed : (zeroMutableBuffer (b.length + 1) : Program (World γ Time) Exc Unit).Meets w1 (fun _ w2 =>
          w2.audit = w1.audit ∧ ∃ b', Quiet n b' w2) fun _ _ => False := ⟨rfl, _, hw1.modifyBuffer (f := zeros) rfl⟩
      rw [meets_bind]
      refine hzeroed.mono (fun _ w2 h2 => ?_) fun _ _ h => h.elim
      obtain ⟨haudit, b2, hw2⟩ := h2
      have hemit : (emitImportFailed env src (lit "payload")).Meets w2 (fun _ w' => Quiet (n + 1) b2 w')
          fun e _ => Foreign e := meets_emitImportFailed hw2 src (lit "payload")
      unfold Meets
      rw [EStateM.run_bind]
      cases hrun : (emitImportFailed env src (lit "payload")).run w2 with
      | ok _ w3 => exact absurd ⟨w2, w3, haudit, hrun⟩ htakes
      | error e' w3 => exact .inl (hemit.of_run_eq_error hrun)

/-! ### Copies of a legacy payload -/

theorem run_restOfPayload {payload : Plaintext} {frame : UnpackedFrame}
    (h : PayloadRefused env frame payload.octets) (src : Path) (w : World γ Time) :
    ∃ e w', (restOfPayload env src frame payload).run w = .error e w' ∧ e.isA [.vaultFormatError] = true ∧
      w'.audit = w.audit ∧ ∃ f : Buffer → Buffer, w'.buffers = w.buffers.modify payload.buffer f := by
  unfold PayloadRefused at h
  unfold restOfPayload
  rw [EStateM.run_bind]
  cases hr : deserialiseSegmentedPayload env payload.octets with
  | error e =>
    rw [hr] at h
    exact ⟨e, w, rfl, h, rfl, id, (List.modify_id _ _).symm⟩
  | ok r =>
    rw [hr] at h
    obtain ⟨manifest, keySlices, plaintext⟩ := r
    have hnonce : frame.header.cipher.nonce.length ≠ nonceLen := h
    simp only [if_pos hnonce]
    exact ⟨_, _, rfl, by decide, rfl, _, rfl⟩

/-- The stream of a legacy payload that is refused is not wiped. -/
theorem run_openOrEmit {w : World γ Time} {source : Buffer} {payload : Plaintext}
    (hw : Quiet n (withPlaintext b source payload.octets) w) (hbuffer : payload.buffer = b.length + 1) {src : Path}
    {data : Bytes} {frame : UnpackedFrame} {skipChecksum : Bool}
    (h : LegacyRefused env src data frame skipChecksum payload.octets w) :
    ∃ e w', (openOrEmit env src data frame skipChecksum payload).run w = .error e w' ∧
      e.isA [.vaultFormatError] = true ∧
      w'.buffers[b.length + 2]? = some { isMutable := true, octets := payload.octets } := by
  obtain ⟨hl, hrefused, w1, hverify, htakes⟩ := h
  have hw1 : Quiet n (withPlaintext b source payload.octets) w1 := by
    cases skipChecksum with
    | true =>
      obtain ⟨-, rfl⟩ := run_pure_eq_ok.mp hverify
      exact hw
    | false => exact (meets_verifySidecar hw src data).of_run_eq_ok hverify
  obtain ⟨w2, hcopy, b2, hb2, hw2⟩ : ∃ w2, (copyLegacyPayload env payload.octets).run w1 = .ok () w2 ∧ ∃ b2,
      w1.buffers ++ [{ isMutable := true, octets := payload.octets }] <+: b2 ∧ w2 = { w1 with buffers := b2 } := by
    have hmeets := meets_copyLegacyPayload env hl w1
    cases hrun : (copyLegacyPayload env payload.octets).run w1 with
    | error e w2 => exact (hmeets.of_run_eq_error hrun).elim
    | ok _ w2 => exact ⟨w2, rfl, hmeets.of_run_eq_ok hrun⟩
  obtain ⟨e, w3, hrest, he, haudit, f, hbuffers⟩ := run_restOfPayload hrefused src w2
  have hopen : (openPayload env src data frame skipChecksum payload).run w = .error e w3 := by
    have hskip : (openPayload env src data frame true payload).run w1 = .error e w3 := by
      rw [openPayload_skip_eq, EStateM.run_bind, hcopy]
      exact hrest
    cases skipChecksum with
    | true =>
      obtain ⟨-, rfl⟩ := run_pure_eq_ok.mp hverify
      exact hskip
    | false =>
      rw [openPayload_eq, EStateM.run_bind, show (verifySidecar env src data).run w = .ok () w1 from hverify]
      exact hskip
  have htakes' : TakesRecord env src (lit "payload")
      { w3 with buffers := w3.buffers.modify payload.buffer fun x => { x with octets := zeros x.octets } }.audit := by
    show TakesRecord env src _ w3.audit
    rw [haudit, hw2]
    exact htakes
  obtain ⟨w4, hemit, hw4⟩ := run_emitImportFailed htakes'
  refine ⟨e, w4, ?_, he, ?_⟩
  · rw [openOrEmit, run_catching, hopen]
    dsimp only
    rw [EStateM.run_bind]
    simp only [if_pos he]
    show (emitImportFailed env src (lit "payload") >>= fun _ => raise e).run _ = _
    rw [EStateM.run_bind, hemit]
    rfl
  · have hlength : w1.buffers.length = b.length + 2 := by
      rw [hw1.buffers]
      simp [withPlaintext]
    have hne : payload.buffer ≠ b.length + 2 := by omega
    have hstream : b2[b.length + 2]? = some { isMutable := true, octets := payload.octets } := by
      rw [← hlength]
      exact (List.prefix_iff_getElem?.mp hb2 _ (by simp)).trans (by simp)
    rw [hw4]
    dsimp only
    rw [List.getElem?_modify_ne _ _ hne, hbuffers, List.getElem?_modify_ne _ _ hne, hw2]
    exact hstream

theorem passphrase_of_beyondLimits {header : VaultHeader} {credentials : Credentials}
    (h : BeyondLimits env header credentials) :
    ¬ (credentials.masterPassphrase = none ∧ credentials.smartcardPin = none) := by
  unfold BeyondLimits at h
  intro hc
  split at h
  · obtain ⟨-, masterPassphrase, hpass, -⟩ := h
    rw [hc.1] at hpass
    cases hpass
  · exact h.1 hc.1

theorem passphrase_of_decryptFrame {frame : UnpackedFrame} {credentials : Credentials} {src : Path}
    {w w' : World γ Time} {payload : Plaintext} (h : (decryptFrame env frame credentials src).run w = .ok payload w') :
    ¬ (credentials.masterPassphrase = none ∧ credentials.smartcardPin = none) := by
  rintro ⟨hpassphrase, hpin⟩
  obtain ⟨key, w1, hkey, -⟩ := run_decryptFrame_eq_ok env h
  unfold vaultKey at hkey
  rw [hpassphrase, hpin] at hkey
  by_cases hs : frame.header.usesKeySlots = true
  · simp only [hs, if_true] at hkey
    cases hkey
  · simp only [hs] at hkey
    cases hk : frame.header.kdf with
    | none => simp [hk] at hkey
    | some kdf => simp [hk] at hkey

theorem openVault_eq {sourcePath : Path} {credentials : Credentials} {skipChecksum : Bool}
    (h : ¬ (credentials.masterPassphrase = none ∧ credentials.smartcardPin = none)) :
    openVault env sourcePath credentials skipChecksum = readFrame env (env.resolve sourcePath) >>= fun (data, frame) =>
      decryptFrame env frame credentials (env.resolve sourcePath) >>=
        openOrEmit env (env.resolve sourcePath) data frame skipChecksum := by
  unfold openVault
  rw [if_neg h]
  rfl

/-- Nothing of the vault is refused without a record, and no copy is made of
what is refused. -/
structure Judged (env : Platform γ Time) (src : Path) (credentials : Credentials) (skipChecksum : Bool)
    (data : Bytes) (frame : UnpackedFrame) (w : World γ Time) : Prop where
  limits : ¬ BeyondLimits env frame.header credentials
  legacy : ∀ payload w', (decryptFrame env frame credentials src).run w = .ok payload w' →
    ¬ LegacyRefused env src data frame skipChecksum payload.octets w'

include hlib in
theorem meets_openVault (sourcePath : Path) (credentials : Credentials) (skipChecksum : Bool) {w : World γ Time}
    (hw : Quiet n b w) (hjudged : ∀ data frame w1, (readFrame env (env.resolve sourcePath)).run w = .ok (data, frame) w1 →
      Judged env (env.resolve sourcePath) credentials skipChecksum data frame w1) :
    (openVault env sourcePath credentials skipChecksum).Meets w (fun _ _ => True) fun e w' =>
      Foreign e ∨ importFailures w' = n + 1 ∧ ∃ new, w'.buffers = b ++ new ∧ ∀ buffer ∈ new, Buffer.Wiped buffer := by
  have hrecorded (w' : World γ Time) (hw' : Quiet (n + 1) b w') :
      importFailures w' = n + 1 ∧ ∃ new, w'.buffers = b ++ new ∧ ∀ buffer ∈ new, Buffer.Wiped buffer :=
    ⟨hw'.failures, [], by rw [hw'.buffers, List.append_nil], by simp⟩
  by_cases hgiven : credentials.masterPassphrase = none ∧ credentials.smartcardPin = none
  · unfold openVault
    rw [if_pos hgiven]
    exact .inl (foreign_of_cls (by decide))
  · rw [openVault_eq hgiven]
    have hread := @reports_readFrame γ Time env n b w hw (env.resolve sourcePath)
    unfold Meets
    rw [EStateM.run_bind]
    cases hr : (readFrame env (env.resolve sourcePath)).run w with
    | error e w1 => exact (hread.of_run_eq_error hr).imp_right (hrecorded w1)
    | ok r w1 =>
      obtain ⟨data, frame⟩ := r
      have hj := hjudged data frame w1 hr
      have hkey := reports_vaultKey hlib (hread.of_run_eq_ok hr) (env.resolve sourcePath) hj.limits
      have hdecrypt := meets_decryptFrame hkey
      dsimp only
      rw [EStateM.run_bind]
      cases hd : (decryptFrame env frame credentials (env.resolve sourcePath)).run w1 with
      | error e w2 => exact (hdecrypt.of_run_eq_error hd).imp_right (hrecorded w2)
      | ok payload w2 =>
        obtain ⟨source, hsource, hbuffer, hw2⟩ := hdecrypt.of_run_eq_ok hd
        exact meets_openOrEmit hlib hsource hw2 hbuffer _ data frame skipChecksum (hj.legacy payload w2 hd)

/-- Of parameters beyond the limits there is no record. -/
theorem not_beyondLimits_of_failureRecorded {sourcePath : Path} {credentials : Credentials} {skipChecksum : Bool}
    {w w1 : World γ Time} (hw : Quiet n b w) (h : FailureRecorded env sourcePath credentials skipChecksum w)
    {data : Bytes} {frame : UnpackedFrame}
    (hr : (readFrame env (env.resolve sourcePath)).run w = .ok (data, frame) w1) :
    ¬ BeyondLimits env frame.header credentials := by
  intro hlimits
  have hw1 := (reports_readFrame hw (env.resolve sourcePath)).of_run_eq_ok hr
  obtain ⟨e, w2, hkey, hcls, hd⟩ := run_vaultKey_of_beyondLimits (env.resolve sourcePath) hlimits w1
  have hrun : (openVault env sourcePath credentials skipChecksum).run w = .error e w2 := by
    rw [openVault_eq (passphrase_of_beyondLimits hlimits), EStateM.run_bind, hr]
    dsimp only
    rw [EStateM.run_bind, decryptFrame, EStateM.run_bind, hkey]
  have hfault : e.isA atFault = true := by
    rw [isA_of_cls hcls]
    decide
  have hone := (h e w2 hrun hfault).1
  rw [(hd.quiet hw1).failures, hw.failures] at hone
  omega

theorem not_wiped_of_legacy {isMutable : Bool} {octets : Bytes} (hl : isLegacy octets = true)
    (h : Buffer.Wiped { isMutable, octets }) : isMutable = false := by
  by_contra hm
  have hzero := h (.inl (Bool.not_eq_false _ ▸ hm))
  cases octets with
  | nil => cases hl
  | cons octet octets =>
    have h0 : octet = 0 := hzero octet (by simp)
    rw [isLegacy, List.head?_cons, Option.any_some, h0] at hl
    exact absurd hl (by decide)

include hlib in
/-- **A vault that is found at fault leaves one record and no plaintext**
exactly if its parameters, where the opening gets to them, are within the
limits, and its payload is not a legacy one that is refused. -/
theorem failureRecorded_iff (sourcePath : Path) (credentials : Credentials) (skipChecksum : Bool) {w : World γ Time}
    (hsane : Sane w) : FailureRecorded env sourcePath credentials skipChecksum w ↔
      ∀ data frame w1, (readFrame env (env.resolve sourcePath)).run w = .ok (data, frame) w1 →
        Judged env (env.resolve sourcePath) credentials skipChecksum data frame w1 := by
  have hw : Quiet (importFailures w) w.buffers w := ⟨hsane, rfl, rfl⟩
  constructor
  · intro h data frame w1 hr
    have hlimits := not_beyondLimits_of_failureRecorded hw h hr
    refine ⟨hlimits, fun payload w2 hd hlegacy => ?_⟩
    have hw1 := (reports_readFrame hw (env.resolve sourcePath)).of_run_eq_ok hr
    obtain ⟨source, -, hbuffer, hw2⟩ :=
      (meets_decryptFrame (reports_vaultKey hlib hw1 (env.resolve sourcePath) hlimits)).of_run_eq_ok hd
    obtain ⟨e, w3, hopen, he, hstream⟩ := run_openOrEmit hw2 hbuffer hlegacy
    have hgiven := passphrase_of_decryptFrame hd
    have hrun : (openVault env sourcePath credentials skipChecksum).run w = .error e w3 := by
      rw [openVault_eq hgiven, EStateM.run_bind, hr]
      dsimp only
      rw [EStateM.run_bind, hd]
      exact hopen
    have hfault : e.isA atFault = true := by
      simp only [Exc.isA, atFault, List.any_cons, List.any_nil, Bool.or_false, Bool.or_eq_true] at he ⊢
      exact .inr he
    obtain ⟨-, new, hnew, hwiped⟩ := h e w3 hrun hfault
    rw [hnew, List.getElem?_append_right (by omega)] at hstream
    exact Bool.noConfusion (not_wiped_of_legacy hlegacy.legacy (hwiped _ (List.mem_of_getElem? hstream)))
  · intro hjudged e w' hr he
    have h := (meets_openVault hlib sourcePath credentials skipChecksum hw hjudged).of_run_eq_error hr
    exact h.resolve_left (not_not.mpr he)

/-! ### Two vaults of version 2 -/

/-- A vault whose key is derived with this time cost. -/
def timedVault (timeCost : String) : Bytes :=
  frameOf 2 (ascii "\x7b\"cipher\":\x7b\"algorithm\":\"aes-256-gcm\",\"nonce_b64\":\"AAAAAAAAAAAAAAAA\"\x7d," ++
    ascii "\"format\":\"GPGMEISTER_VAULT\",\"kdf\":\x7b\"algorithm\":\"argon2id\",\"hash_len\":32," ++
    ascii "\"memory_cost\":65536,\"parallelism\":4,\"salt_b64\":\"AAAAAAAAAAAAAAAAAAAAAA==\",\"time_cost\":" ++
    ascii timeCost ++ ascii "\x7d,\"version\":2\x7d") [0]

theorem foreignLibraries_sample : ForeignLibraries (samplePlatform noGnuPG) where
  popen args input passphrase g e g' h := by
    obtain ⟨he, -⟩ := Prod.mk.inj h
    obtain rfl := Except.error.inj he
    exact foreign_of_cls (by decide)
  unpackb strLimit arrayLimit data e h := by
    obtain rfl := Except.error.inj h
    decide

theorem sane_sampleWorld {γ : Type} (gnupg : γ) (files : Path → Option Bytes) : Sane (sampleWorld gnupg files) where
  faults _ _ h := by cases h
  locks _ _ h := by cases h

/-- A platform on which every ciphertext holds two octets. -/
def malformedPlatform : Platform Unit Unit :=
  { samplePlatform noGnuPG with
    argon2 := fun _ _ _ => .ok (List.replicate 32 0)
    aead := { encrypt := fun _ _ _ _ _ => none, decrypt := fun _ _ _ _ _ => some [0, 0] } }

/-- A payload that is cut short, in a vault within the limits. -/
theorem failureRecorded_withinLimits : FailureRecorded malformedPlatform { parent := [], name := lit "v" }
      { masterPassphrase := some (ascii "right") } true (sampleWorld () fun _ => some (timedVault "3")) ∧
    (match (openVault malformedPlatform { parent := [], name := lit "v" }
        { masterPassphrase := some (ascii "right") } true).run (sampleWorld () fun _ => some (timedVault "3")) with
      | .ok _ _ => false
      | .error e _ => e.isA [.vaultFormatError]) = true := by
  refine ⟨?_, by decide +kernel⟩
  have hlib : ForeignLibraries malformedPlatform :=
    { popen := foreignLibraries_sample.popen, unpackb := foreignLibraries_sample.unpackb }
  refine (failureRecorded_iff hlib _ _ _ (sane_sampleWorld _ _)).mpr fun data frame w1 hr =>
    ⟨fun hlimits => ?_, fun payload w2 hd hlegacy => ?_⟩
  · obtain ⟨hfile, hframe⟩ := readFrame_eq_ok _ hr
    obtain rfl := Option.some.inj hfile
    have hwithin : (match unpack malformedPlatform (timedVault "3") with
        | .ok frame => ! frame.header.usesKeySlots && frame.header.kdf.all fun kdf => decide kdf.toParams.Importable
        | .error _ => true) = true := by decide +kernel
    rw [hframe, Bool.and_eq_true, Bool.not_eq_true'] at hwithin
    unfold BeyondLimits at hlimits
    rw [if_neg (by simp [hwithin.1])] at hlimits
    obtain ⟨-, kdf, hkdf, hi⟩ := hlimits
    rw [hkdf, Option.all_some, decide_eq_true_eq] at hwithin
    exact hi hwithin.2
  · obtain ⟨key, w3, -, hoctets⟩ := run_decryptFrame_eq_ok _ hd
    have hlegacy := hlegacy.legacy
    rw [← Option.some.inj (Aead.decrypt_of_decryptChecked hoctets)] at hlegacy
    cases hlegacy

/-- With the parameters of the balanced profile the opening fails, and writes
no record. -/
theorem not_failureRecorded : ¬ ∀ (γ Time : Type) (env : Platform γ Time) sourcePath credentials skipChecksum w,
    ForeignLibraries env → Sane w → FailureRecorded env sourcePath credentials skipChecksum w := by
  intro h
  obtain ⟨w, hw⟩ : ∃ w, sampleWorld () (fun _ => some (timedVault "4")) = w := ⟨_, rfl⟩
  have hrun : (match (openVault (samplePlatform noGnuPG) { parent := [], name := lit "v" }
        { masterPassphrase := some (ascii "right") } false).run w with
      | .ok _ _ => false
      | .error e w' => e.isA atFault && importFailures w' = 0) = true := by
    rw [← hw]
    decide +kernel
  have hzero : importFailures w = 0 := by
    rw [← hw]
    rfl
  cases hr : (openVault (samplePlatform noGnuPG) { parent := [], name := lit "v" }
      { masterPassphrase := some (ascii "right") } false).run w with
  | ok opened w' => simp [hr] at hrun
  | error e w' =>
    rw [hr, Bool.and_eq_true, decide_eq_true_eq] at hrun
    have hone := (h Unit Unit (samplePlatform noGnuPG) { parent := [], name := lit "v" }
      { masterPassphrase := some (ascii "right") } false w foreignLibraries_sample
      (hw ▸ sane_sampleWorld _ _) e w' hr hrun.1).1
    omega

end VaultService
end GpgMeister
