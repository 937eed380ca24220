/-
# What the vault service leaves alone

Neither opening a vault with a passphrase, nor what is done with the plaintext
of one, changes anything but the audit log, the buffers and what was in store
for its calls (`Steady`); a run of GnuPG changes nothing but GnuPG. The copies
of a legacy payload change nothing but the buffers, and spare those there are
(`Spares`).
-/
import GpgMeister.Services.VaultService

namespace GpgMeister
namespace VaultService

open VaultFormat VaultKeyslots VaultPayload Program

variable {γ Time α β : Type} {f : World γ Time → β} (env : Platform γ Time)

/-- A record of the failure, and the exception again. -/
theorem keeps_emitRaise (h : Calm f) (he : PastEmits f) (src : Path) (reason : Str) (e : Exc) (c : Prop) [Decidable c] :
    Keeps f (if c then do emitImportFailed env src reason; raise e else raise e : Program (World γ Time) Exc α) := by
  by_cases hc : c
  · rw [if_pos hc]
    exact (h.emit (he _) env.toEnv _ _).bind fun _ => keeps_raise e
  · rw [if_neg hc]
    exact keeps_raise e

theorem run_emitRaise_ne_ok (src : Path) (reason : Str) (e : Exc) (c : Prop) [Decidable c] (w : World γ Time) (a : α)
    (w' : World γ Time) :
    (if c then do emitImportFailed env src reason; raise e else raise e : Program (World γ Time) Exc α).run w ≠
      .ok a w' := by
  by_cases hc : c
  · simp only [if_pos hc, ne_eq, run_bind_eq_ok]
    rintro ⟨u, w1, -, h⟩
    simp at h
  · simp [if_neg hc]

theorem keeps_deriveKey (hd : PastDerivations f) (passphrase salt : Bytes) (params : KDFParams) :
    Keeps f (deriveKey env passphrase salt params) :=
  (keeps_ofExcept _).recorded fun w raised => hd w params salt.length raised

theorem keeps_readVaultBytes (h : Calm f) (src : Path) : Keeps f (readVaultBytes src) := by
  apply h.syscall.bind
  intro _
  apply (h.readFile src).bind
  intro data
  by_cases hl : (data.take (maxVaultFrameSize + 1)).length > maxVaultFrameSize
  · rw [if_pos hl]
    exact keeps_raise _
  · rw [if_neg hl]
    exact keeps_pure data

theorem keeps_readFrame (h : Calm f) (he : PastEmits f) (src : Path) : Keeps f (readFrame env src) := by
  apply (h.fileExists src).bind
  intro there
  cases there with
  | false => exact keeps_raise _
  | true =>
    apply (keeps_readVaultBytes h src).bind
    intro data
    apply Keeps.bind ((keeps_ofExcept _).catching fun e => keeps_emitRaise env h he src _ e _)
    intro frame
    exact keeps_pure _

theorem keeps_verifySidecar (h : Calm f) (he : PastEmits f) (src : Path) (data : Bytes) :
    Keeps f (verifySidecar env src data) := by
  apply (h.fileExists _).bind
  intro there
  cases there with
  | false => exact keeps_pure ()
  | true =>
    apply Keeps.bind ((h.readFile _).bind fun _ => (keeps_ofExcept _).bind fun _ => keeps_ofExcept _)
    intro expected
    by_cases hd : expected ≠ env.lower (env.sha256 data)
    · simp only [if_pos hd]
      exact (h.emit (he _) env.toEnv _ _).bind fun _ => keeps_raise _
    · simp only [if_neg hd]
      exact keeps_pure ()

/-! ### Copies in memory -/

/-- The program changes nothing but the buffers after these, and what it gives
is as `P` says. -/
def Spares (b : List Buffer) (P : α → Prop) (x : Program (World γ Time) Exc α) : Prop :=
  ∀ w, b <+: w.buffers → x.Meets w (fun a w' => P a ∧ ∃ b', b <+: b' ∧ w' = { w with buffers := b' }) fun _ _ => False

section Spares

variable {b : List Buffer} {P : α → Prop}

theorem Spares.pure {a : α} (h : P a) : Spares b P (Pure.pure a : Program (World γ Time) Exc α) := fun w hw =>
  ⟨h, w.buffers, hw, rfl⟩

theorem Spares.bind {δ : Type} {Q : δ → Prop} {x : Program (World γ Time) Exc α}
    {g : α → Program (World γ Time) Exc δ} (hx : Spares b P x) (hg : ∀ a, P a → Spares b Q (g a)) :
    Spares b Q (x >>= g) := by
  intro w hw
  rw [meets_bind]
  refine (hx w hw).mono (fun a w1 h => ?_) fun _ _ h => h
  obtain ⟨ha, b1, hb1, rfl⟩ := h
  exact hg a ha _ hb1

theorem Spares.mapM {δ : Type} {g : δ → Program (World γ Time) Exc α} (hg : ∀ d, Spares b P (g d)) :
    ∀ l : List δ, Spares b (fun as => ∀ a ∈ as, P a) (l.mapM g)
  | [] => .pure (by simp)
  | d :: l => by
    rw [List.mapM_cons]
    refine (hg d).bind fun a ha => (Spares.mapM hg l).bind fun as has => .pure ?_
    rw [List.forall_mem_cons]
    exact ⟨ha, has⟩

theorem Spares.forM {g : α → Program (World γ Time) Exc Unit} (hg : ∀ a, P a → Spares b (fun _ => True) (g a)) :
    ∀ {l : List α}, (∀ a ∈ l, P a) → Spares b (fun _ => True) (l.forM g)
  | [], _ => .pure trivial
  | a :: l, h => by
    rw [List.forall_mem_cons] at h
    exact Spares.bind (hg a h.1) fun _ _ => Spares.forM hg h.2

theorem spares_allocate (isMutable : Bool) (octets : Bytes) :
    Spares b (b.length ≤ ·) (allocate isMutable octets : Program (World γ Time) Exc ℕ) := fun _ hw =>
  ⟨hw.length_le, _, hw.trans (List.prefix_append _ _), rfl⟩

theorem spares_zeroBytesObject {buffer : ℕ} (h : b.length ≤ buffer) :
    Spares b (fun _ => True) (zeroBytesObject buffer : Program (World γ Time) Exc Unit) := by
  intro w hw
  refine ⟨trivial, _, ?_, rfl⟩
  rw [List.prefix_iff_eq_take, List.take_modify, List.modify_eq_self, ← List.prefix_iff_eq_take]
  · exact hw
  · rw [List.length_take]
    omega

theorem Spares.keeps (h : Calm f) {x : Program (World γ Time) Exc α} (hx : Spares [] P x) : Keeps f x := by
  intro w
  have hmeets := hx w (List.nil_prefix)
  cases hrun : x.run w with
  | error e w' => exact (hmeets.of_run_eq_error hrun).elim
  | ok a w' =>
    obtain ⟨-, b', -, rfl⟩ := hmeets.of_run_eq_ok hrun
    rw [after_of_run_eq_ok hrun]
    exact h.buffers w b'

/-- What is collected is what was allocated for the entries. -/
theorem collectedMaterial_of_all {k : ℕ} : ∀ {entries : List (Msg × List ℕ)},
    (∀ entry ∈ entries, ∀ buffer ∈ entry.2, k ≤ buffer) → ∀ buffer ∈ collectedMaterial entries, k ≤ buffer
  | [], _ => by simp [collectedMaterial]
  | (entry, objects) :: entries, h => by
    rw [List.forall_mem_cons] at h
    have hrest := collectedMaterial_of_all h.2
    rw [collectedMaterial]
    split
    · intro buffer hbuffer
      rcases List.mem_append.mp hbuffer with hbuffer | hbuffer
      · exact h.1 buffer hbuffer
      · exact hrest buffer hbuffer
    · exact hrest
    · simp

/-- The armor that a legacy payload is unpacked to. -/
theorem spares_unpacked (payload : Bytes) :
    Spares b (fun _ => True) (match env.msgpack.unpackRaw maxVaultArmorLength manifestArrayLimit payload with
      | .ok (.map items, _) => do
        let objects ← (entriesOf items).mapM fun entry => do
          let armor ← (armorObjects entry).mapM (allocate false)
          return (entry, armor)
        (collectedMaterial objects).forM zeroBytesObject
      | _ => return () : Program (World γ Time) Exc Unit) := by
  split
  · rename_i items read hunpack
    refine Spares.bind (P := fun objects => ∀ entry ∈ objects, ∀ buffer ∈ entry.2, b.length ≤ buffer)
      (.mapM (fun entry => (Spares.mapM (spares_allocate false) _).bind fun armor harmor => .pure harmor) _)
      fun objects hobjects => ?_
    exact Spares.forM (fun _ => spares_zeroBytesObject) (collectedMaterial_of_all hobjects)
  · exact .pure trivial

/-- The stream of a legacy payload stays as it is. -/
theorem meets_copyLegacyPayload {payload : Bytes} (hlegacy : isLegacy payload = true) (w : World γ Time) :
    (copyLegacyPayload env payload).Meets w (fun _ w' => ∃ b',
      w.buffers ++ [{ isMutable := true, octets := payload }] <+: b' ∧ w' = { w with buffers := b' })
      fun _ _ => False := by
  rw [copyLegacyPayload, if_pos hlegacy, meets_bind]
  have hstream : (allocate true payload : Program (World γ Time) Exc ℕ).Meets w (fun _ w' =>
      w' = { w with buffers := w.buffers ++ [{ isMutable := true, octets := payload }] }) fun _ _ => False := rfl
  refine hstream.mono (fun _ w1 hw1 => ?_) fun _ _ h => h
  subst hw1
  exact (spares_unpacked env payload _ List.prefix_rfl).mono (fun _ _ h => h.2) fun _ _ h => h

theorem copyLegacyPayload_of_not_legacy {payload : Bytes} (h : ¬ isLegacy payload = true) :
    copyLegacyPayload env payload = (pure () : Program (World γ Time) Exc Unit) := if_neg h

theorem spares_copyLegacyPayload (payload : Bytes) :
    Spares b (fun _ => True) (copyLegacyPayload env payload : Program (World γ Time) Exc Unit) := by
  by_cases h : isLegacy payload = true
  · rw [copyLegacyPayload, if_pos h]
    exact (spares_allocate true payload).bind fun _ _ => spares_unpacked env payload
  · rw [copyLegacyPayload_of_not_legacy env h]
    exact .pure trivial

end Spares

/-- The checksum is looked at before anything is made of the plaintext. -/
theorem openPayload_eq (env : Platform γ Time) (src : Path) (data : Bytes) (frame : UnpackedFrame)
    (payload : Plaintext) :
    openPayload env src data frame false payload =
      verifySidecar env src data >>= fun _ => openPayload env src data frame true payload := by
  rfl

theorem keeps_openPayload (h : Calm f) (he : PastEmits f) (src : Path) (data : Bytes) (frame : UnpackedFrame)
    (skipChecksum : Bool) (payload : Plaintext) : Keeps f (openPayload env src data frame skipChecksum payload) := by
  have hrest : Keeps f (openPayload env src data frame true payload) := by
    apply ((spares_copyLegacyPayload env payload.octets).keeps h).bind
    intro _
    apply (keeps_ofExcept (deserialiseSegmentedPayload env payload.octets)).bind
    intro r
    apply (h.modifyBuffer _ _).bind
    intro _
    by_cases hn : frame.header.cipher.nonce.length ≠ nonceLen
    · simp only [if_pos hn]
      exact keeps_raise _
    · simp only [if_neg hn]
      exact keeps_pure _
  cases skipChecksum with
  | true => exact hrest
  | false =>
    rw [openPayload_eq]
    exact (keeps_verifySidecar env h he src data).bind fun _ => hrest

theorem keeps_unwrapWithPassphrase (hd : PastDerivations f) (slot : VaultKeySlot) (passphrase : Bytes) (params : KDFParams)
    (cipher : CipherAlgorithm) : Keeps f (unwrapWithPassphrase env slot passphrase params cipher) := by
  unfold unwrapWithPassphrase
  cases slot.type with
  | openpgp => exact keeps_raise _
  | passphrase =>
    cases slot.kdf with
    | none => exact keeps_raise _
    | some kdf =>
      apply (keeps_deriveKey env hd _ _ _).bind
      intro slotKey
      cases slot.nonce with
      | none => exact keeps_raise _
      | some nonce => exact (keeps_ofExcept _).bind fun raw => keeps_ofExcept _

theorem keeps_tryPassphraseSlots (hd : PastDerivations f) (masterPassphrase : Bytes) (cipher : CipherAlgorithm) :
    ∀ (slots : List VaultKeySlot) (lastError : Option Exc),
      Keeps f (tryPassphraseSlots env masterPassphrase cipher slots lastError)
  | [], _ => keeps_raise _
  | slot :: slots, lastError => by
    rw [tryPassphraseSlots]
    cases slot.kdf with
    | none => exact keeps_tryPassphraseSlots hd masterPassphrase cipher slots lastError
    | some kdf =>
      apply Keeps.bind (((keeps_ofExcept _).bind fun _ =>
        keeps_unwrapWithPassphrase env hd slot masterPassphrase _ cipher).attempt _)
      intro result
      cases result with
      | ok fileKey => exact keeps_pure fileKey
      | error e => exact keeps_tryPassphraseSlots hd masterPassphrase cipher slots (some e)

/-- Without a PIN nobody asks GnuPG. -/
theorem keeps_vaultKey (h : Steady f) (frame : UnpackedFrame) (credentials : Credentials) (src : Path)
    (hc : frame.header.usesKeySlots = true → credentials.smartcardPin = none) :
    Keeps f (vaultKey env frame credentials src) := by
  unfold vaultKey
  by_cases hs : frame.header.usesKeySlots = true
  · simp only [hs, if_true, hc hs]
    cases credentials.masterPassphrase with
    | none => exact keeps_raise _
    | some masterPassphrase =>
      apply Keeps.catching
      · unfold unwrapPassphraseSlot
        by_cases hn : frame.header.slotsOf .passphrase = []
        · rw [if_pos hn]
          exact keeps_raise _
        · rw [if_neg hn]
          exact keeps_tryPassphraseSlots env h.derived _ _ _ _
      · intro e
        exact keeps_emitRaise env h.toCalm h.emitted src _ e _
  · simp only [hs, Bool.false_eq_true, if_false]
    cases frame.header.kdf with
    | none => exact keeps_raise _
    | some kdf =>
      cases credentials.masterPassphrase with
      | none => exact keeps_raise _
      | some masterPassphrase => exact (keeps_ofExcept _).bind fun _ => keeps_deriveKey env h.derived _ _ _

/-- What a decryption that returned has found. -/
theorem run_decryptFrame_eq_ok {frame : UnpackedFrame} {credentials : Credentials} {src : Path} {payload : Plaintext}
    {w w' : World γ Time} (h : (decryptFrame env frame credentials src).run w = .ok payload w') :
    ∃ key w1, (vaultKey env frame credentials src).run w = .ok key w1 ∧
      env.aead.decryptChecked frame.ciphertext key frame.header.cipher.nonce frame.headerBytes
        frame.header.cipher.algorithm = .ok payload.octets := by
  obtain ⟨key, w1, hkey, h⟩ := run_bind_eq_ok.mp h
  obtain ⟨octets, w2, hoctets, h⟩ := run_bind_eq_ok.mp h
  obtain ⟨plaintextBytes, w3, -, h⟩ := run_bind_eq_ok.mp h
  obtain ⟨buffer, w4, -, h⟩ := run_bind_eq_ok.mp h
  obtain ⟨_, w5, -, h⟩ := run_bind_eq_ok.mp h
  obtain ⟨rfl, -⟩ := run_pure_eq_ok.mp h
  rw [run_catching_eq_ok fun e => run_emitRaise_ne_ok env src _ e _, run_ofExcept_eq_ok] at hoctets
  exact ⟨key, w1, hkey, hoctets.1⟩

/-- What is done with the key of a vault. -/
theorem keeps_decryptWith (h : Calm f) (he : PastEmits f) (frame : UnpackedFrame) (src : Path) (key : Bytes) :
    Keeps f (do
      let octets ← Program.catching
        (Program.ofExcept (env.aead.decryptChecked frame.ciphertext key frame.header.cipher.nonce frame.headerBytes
          frame.header.cipher.algorithm)) fun e =>
        if e.isA [.decryptionError] then do
          emitImportFailed env src (lit "decryption")
          raise e
        else raise e
      let plaintextBytes ← allocate false octets
      let buffer ← allocate true octets
      zeroBytesObject plaintextBytes
      return { octets, buffer } : Program (World γ Time) Exc Plaintext) := by
  apply Keeps.bind ((keeps_ofExcept _).catching fun e => keeps_emitRaise env h he src _ e _)
  intro octets
  apply (h.allocate _ _).bind
  intro plaintextBytes
  apply (h.allocate _ _).bind
  intro buffer
  exact (h.modifyBuffer _ _).bind fun _ => keeps_pure _

/-- What is done with the plaintext. -/
theorem keeps_openOrEmit (h : Calm f) (he : PastEmits f) (src : Path) (data : Bytes) (frame : UnpackedFrame)
    (skipChecksum : Bool) (payload : Plaintext) :
    Keeps f (Program.catching (openPayload env src data frame skipChecksum payload) fun e => do
      zeroMutableBuffer payload.buffer
      if e.isA [.vaultFormatError] then do
        emitImportFailed env src (lit "payload")
        raise e
      else raise e) :=
  (keeps_openPayload env h he src data frame skipChecksum payload).catching fun e =>
    (h.modifyBuffer _ _).bind fun _ => keeps_emitRaise env h he src _ e _

end VaultService
end GpgMeister
