/-
# The keys that are derived while a vault is opened

The header of a vault is not yet authenticated when it says what the keys are
derived with. `derivations_openVault`: whatever the file holds, the parameters
of every call of `derive_key` are within the limits for a file to be opened,
the salt is as long as they say, and there are at most as many calls as a
header has slots; a card's PIN and a vault with key slots make none.
-/
import GpgMeister.Services.VaultFrames

namespace GpgMeister
namespace VaultService

open VaultFormat VaultKeyslots VaultPayload Program

variable {γ Time α : Type} (env : Platform γ Time)

/-- The calls of `derive_key` so far: their parameters, and how long the salt
was. -/
def derivations (w : World γ Time) : List (KDFParams × ℕ) :=
  w.history.filterMap fun
    | .deriveKey params saltLength _ => some (params, saltLength)
    | _ => none

theorem calm_derivations : Calm (derivations : World γ Time → List (KDFParams × ℕ)) where
  audit _ _ := rfl
  faults _ _ := rfl
  random _ _ := rfl
  clock _ _ := rfl
  buffers _ _ := rfl

theorem pastEmits_derivations : PastEmits (derivations : World γ Time → List (KDFParams × ℕ)) := by
  intro event w outcome raised
  simp [derivations, World.note]

/-- Within the limits for a file to be opened, with a salt of the right
length. -/
structure Admissible (call : KDFParams × ℕ) : Prop where
  timeCost : minTimeCost ≤ call.1.timeCost.val ∧ call.1.timeCost.val ≤ maxImportTimeCost
  memoryCost : minMemoryCostKb ≤ call.1.memoryCost.val ∧ call.1.memoryCost.val ≤ maxImportMemoryCostKb
  parallelism : 1 ≤ call.1.parallelism.val ∧ call.1.parallelism.val ≤ maxImportParallelism
  salt : call.2 = call.1.saltLen.val

/-- At most `n` keys are derived, all of them within the limits. -/
abbrev Derives (n : ℕ) (x : Program (World γ Time) Exc α) : Prop := Adds derivations Admissible n x

/-- The parameters of a header that `_validate_import_kdf` lets pass. -/
theorem validateImportKdf_eq_ok {params : KDFParams} {u : Unit} : validateImportKdf params = .ok u ↔ params.Importable := by
  have hfloor : ¬ (params.timeCost.val < minTimeCost ∨ params.memoryCost.val < minMemoryCostKb) := by
    have h1 := params.timeCost.2.1
    have h2 := params.memoryCost.2.1
    omega
  unfold validateImportKdf KDFParams.Importable
  rw [if_neg hfloor]
  by_cases h : params.timeCost.val > maxImportTimeCost ∨ params.memoryCost.val > maxImportMemoryCostKb ∨
      params.parallelism.val > maxImportParallelism
  · rw [if_pos h]
    refine iff_of_false (by simp) fun hi => ?_
    omega
  · rw [if_neg h]
    refine iff_of_true rfl ?_
    omega

theorem admissible_toParams {kdf : KDFFields} (h : kdf.toParams.Importable) :
    Admissible (kdf.toParams, kdf.salt.length) where
  timeCost := ⟨kdf.timeCost.2.1, h.1⟩
  memoryCost := ⟨kdf.memoryCost.2.1, h.2.1⟩
  parallelism := ⟨kdf.parallelism.2.1, h.2.2⟩
  salt := rfl

theorem derives_deriveKey (passphrase salt : Bytes) (params : KDFParams) (h : Admissible (params, salt.length)) :
    Derives 1 (deriveKey env passphrase salt params) := by
  intro w
  refine ⟨[(params, salt.length)], ?_, le_rfl, by simpa using h⟩
  unfold deriveKey after recorded
  simp only [EStateM.run]
  cases hk : deriveKeyOf env passphrase salt params <;> simp [Program.ofExcept, derivations, World.note]

/-! ### Passphrases -/

theorem derives_unwrapWithPassphrase {slot : VaultKeySlot} {kdf : KDFFields} (hkdf : slot.kdf = some kdf)
    (h : kdf.toParams.Importable) (passphrase : Bytes) (cipher : CipherAlgorithm) :
    Derives 1 (unwrapWithPassphrase env slot passphrase kdf.toParams cipher) := by
  unfold unwrapWithPassphrase
  rw [hkdf]
  cases slot.type with
  | openpgp => exact (Adds.of_keeps (keeps_raise _)).mono (by omega)
  | passphrase =>
    apply (derives_deriveKey env passphrase kdf.salt kdf.toParams (admissible_toParams h)).bind (n := 0)
    intro slotKey
    apply Adds.of_keeps
    cases slot.nonce with
    | none => exact keeps_raise _
    | some nonce => exact (keeps_ofExcept _).bind fun raw => keeps_ofExcept _

/-- A slot with parameters beyond the limits derives nothing. -/
theorem derives_trySlot {slot : VaultKeySlot} {kdf : KDFFields} (hkdf : slot.kdf = some kdf) (passphrase : Bytes)
    (cipher : CipherAlgorithm) : Derives 1 (do
      Program.ofExcept (validateImportKdf kdf.toParams)
      unwrapWithPassphrase env slot passphrase kdf.toParams cipher) := by
  cases hv : validateImportKdf kdf.toParams with
  | error e => exact (Adds.of_keeps (keeps_raise e)).mono (by omega)
  | ok u => exact derives_unwrapWithPassphrase env hkdf (validateImportKdf_eq_ok.mp hv) passphrase cipher

/-- One key for a slot at most. -/
theorem derives_tryPassphraseSlots (masterPassphrase : Bytes) (cipher : CipherAlgorithm) :
    ∀ (slots : List VaultKeySlot) (lastError : Option Exc),
      Derives slots.length (tryPassphraseSlots env masterPassphrase cipher slots lastError)
  | [], _ => .of_keeps (keeps_raise _)
  | slot :: slots, lastError => by
    rw [tryPassphraseSlots, List.length_cons, Nat.add_comm]
    cases hkdf : slot.kdf with
    | none => exact (derives_tryPassphraseSlots masterPassphrase cipher slots lastError).mono (by omega)
    | some kdf =>
      apply ((derives_trySlot env hkdf masterPassphrase cipher).attempt _).bind
      intro result
      cases result with
      | ok fileKey => exact (Adds.of_keeps (keeps_pure fileKey)).mono (by omega)
      | error e => exact derives_tryPassphraseSlots masterPassphrase cipher slots (some e)

/-! ### PINs -/

theorem keeps_decrypt (ciphertext : Bytes) (pin : Option Bytes) :
    Keeps derivations (GPGService.decrypt env ciphertext pin) := by
  apply ((keeps_runGpg env calm_derivations (fun _ _ => rfl) _ _ _ _).bind fun proc => keeps_ofExcept _).recorded
  intro w raised
  simp [derivations, World.note]

theorem keeps_tryOpenpgpSlots (pin : Bytes) (src : Path) : ∀ (slots : List VaultKeySlot) (lastError : Option Exc),
    Keeps derivations (tryOpenpgpSlots env pin src slots lastError)
  | [], _ => (calm_derivations.emit (pastEmits_derivations _) env.toEnv _ _).bind fun _ => keeps_raise _
  | slot :: slots, lastError => by
    rw [tryOpenpgpSlots]
    apply ((keeps_decrypt env slot.wrappedKey (some pin)).attempt caughtErrors).bind
    intro result
    cases result with
    | ok decrypted => exact keeps_ofExcept _
    | error e => exact keeps_tryOpenpgpSlots pin src slots (some e)

theorem keeps_unwrapOpenpgpSlot (header : VaultHeader) (pin : Bytes) (src : Path) :
    Keeps derivations (unwrapOpenpgpSlot env header pin src) := by
  unfold unwrapOpenpgpSlot
  by_cases hn : header.slotsOf .openpgp = []
  · rw [if_pos hn]
    exact keeps_raise _
  · rw [if_neg hn]
    exact keeps_tryOpenpgpSlots env pin src _ none

/-! ### The whole of it -/

theorem length_slotsOf (header : VaultHeader) (type : VaultSlotType) :
    (header.slotsOf type).length ≤ maxVaultKeySlots := by
  have hok := header.ok
  rw [headerOk, Bool.and_eq_true] at hok
  have hlen := hok.1
  unfold VaultHeader.slotsOf
  cases hs : header.keySlots with
  | none => simp
  | some slots =>
    rw [hs, Option.all_some, decide_eq_true_eq] at hlen
    exact (List.length_filter_le _ _).trans hlen

theorem usesKeySlots_of_version {header : VaultHeader} (h : header.version = vaultFormatVersionSlots) :
    header.usesKeySlots = true := by
  have hok := header.ok
  have hversion : ¬ vaultFormatVersionSlots = vaultFormatVersion := by decide
  rw [headerOk, h, if_neg hversion] at hok
  simp only [Bool.and_eq_true] at hok
  exact hok.2.2.1

theorem derives_vaultKey (frame : UnpackedFrame) (credentials : Credentials) (src : Path) :
    Derives maxVaultKeySlots (vaultKey env frame credentials src) := by
  have hnone {n : ℕ} {x : Program (World γ Time) Exc Bytes} (h : Keeps derivations x) : Derives n x :=
    (Adds.of_keeps h).mono (by omega)
  unfold vaultKey
  by_cases hs : frame.header.usesKeySlots = true
  · simp only [hs, if_true]
    cases credentials.smartcardPin with
    | some pin => exact hnone (keeps_unwrapOpenpgpSlot env frame.header pin src)
    | none =>
      cases credentials.masterPassphrase with
      | none => exact hnone (keeps_raise _)
      | some masterPassphrase =>
        apply Adds.catching (n := 0)
        · unfold unwrapPassphraseSlot
          by_cases hn : frame.header.slotsOf .passphrase = []
          · rw [if_pos hn]
            exact hnone (keeps_raise _)
          · rw [if_neg hn]
            exact (derives_tryPassphraseSlots env _ _ _ _).mono (length_slotsOf _ _)
        · intro e
          exact .of_keeps (keeps_emitRaise env calm_derivations pastEmits_derivations src _ e _)
  · simp only [hs, Bool.false_eq_true, if_false]
    cases frame.header.kdf with
    | none => exact hnone (keeps_raise _)
    | some kdf =>
      cases credentials.masterPassphrase with
      | none => exact hnone (keeps_raise _)
      | some masterPassphrase =>
        dsimp only
        cases hv : validateImportKdf kdf.toParams with
        | error e => exact hnone (keeps_raise e)
        | ok u =>
          have h1 := derives_deriveKey env masterPassphrase kdf.salt kdf.toParams
            (admissible_toParams (validateImportKdf_eq_ok.mp hv))
          exact h1.mono (show 1 ≤ maxVaultKeySlots by decide)

/-- The octets that are read are those of the file. -/
theorem readVaultBytes_eq_ok {src : Path} {data : Bytes} {w w' : World γ Time}
    (h : (readVaultBytes src).run w = .ok data w') : w.files src = some data := by
  obtain ⟨u, w1, hs, h⟩ := run_bind_eq_ok.mp h
  rw [← calm_files.syscall.of_run_eq_ok hs]
  obtain ⟨data', w2, hread, h⟩ := run_bind_eq_ok.mp h
  by_cases hl : (data'.take (maxVaultFrameSize + 1)).length > maxVaultFrameSize
  · rw [if_pos hl] at h
    simp at h
  · rw [if_neg hl] at h
    obtain ⟨rfl, -⟩ := run_pure_eq_ok.mp h
    exact readFile_eq_ok hread

/-- The frame that is read is that in the file. -/
theorem readFrame_eq_ok {src : Path} {data : Bytes} {frame : UnpackedFrame} {w w' : World γ Time}
    (h : (readFrame env src).run w = .ok (data, frame) w') :
    w.files src = some data ∧ unpack env data = .ok frame := by
  obtain ⟨there, w1, hexists, h⟩ := run_bind_eq_ok.mp h
  rw [← (calm_files.fileExists src).of_run_eq_ok hexists]
  cases there with
  | false => simp at h
  | true =>
    obtain ⟨data', w2, hread, h⟩ := run_bind_eq_ok.mp h
    obtain ⟨frame', w3, hunpack, h⟩ := run_bind_eq_ok.mp h
    obtain ⟨⟨rfl, rfl⟩, rfl⟩ : (data' = data ∧ frame' = frame) ∧ w3 = w' := by simpa [run_pure_eq_ok] using h
    rw [run_catching_eq_ok fun e => run_emitRaise_ne_ok env src _ e _, run_ofExcept_eq_ok] at hunpack
    exact ⟨readVaultBytes_eq_ok hread, hunpack.1⟩

theorem derives_decryptFrame (frame : UnpackedFrame) (credentials : Credentials) (src : Path) :
    Derives maxVaultKeySlots (decryptFrame env frame credentials src) := by
  apply (derives_vaultKey env frame credentials src).bind (n := 0)
  intro key
  exact .of_keeps (keeps_decryptWith env calm_derivations pastEmits_derivations frame src key)

theorem derives_openVault (sourcePath : Path) (credentials : Credentials) (skipChecksum : Bool) :
    Derives maxVaultKeySlots (openVault env sourcePath credentials skipChecksum) := by
  unfold openVault
  by_cases hc : credentials.masterPassphrase = none ∧ credentials.smartcardPin = none
  · rw [if_pos hc]
    exact (Adds.of_keeps (keeps_raise _)).mono (by omega)
  · rw [if_neg hc]
    have hread := keeps_readFrame env calm_derivations pastEmits_derivations (env.resolve sourcePath)
    apply Adds.mono (m := 0 + (maxVaultKeySlots + 0)) _ (by omega)
    apply (Adds.of_keeps hread).bind
    intro r
    apply (derives_decryptFrame env r.2 credentials _).bind
    intro payload
    exact .of_keeps (keeps_openOrEmit env calm_derivations pastEmits_derivations _ r.1 r.2 skipChecksum payload)

/-- A card's PIN derives nothing from a vault with key slots. -/
theorem keeps_openVault {sourcePath : Path} {credentials : Credentials} {pin data : Bytes} {frame : UnpackedFrame}
    {w : World γ Time} (hpin : credentials.smartcardPin = some pin)
    (hfile : w.files (env.resolve sourcePath) = some data) (hframe : unpack env data = .ok frame)
    (hversion : frame.header.version = vaultFormatVersionSlots) (skipChecksum : Bool) :
    derivations ((openVault env sourcePath credentials skipChecksum).after w) = derivations w := by
  have hc : ¬ (credentials.masterPassphrase = none ∧ credentials.smartcardPin = none) := by simp [hpin]
  have hread := keeps_readFrame env calm_derivations pastEmits_derivations (env.resolve sourcePath)
  unfold openVault
  rw [if_neg hc]
  cases hf : (readFrame env (env.resolve sourcePath)).run w with
  | error e w1 =>
    rw [after_bind_of_error hf]
    exact hread.of_run_eq_error hf
  | ok r w1 =>
    obtain ⟨data', frame'⟩ := r
    obtain ⟨hfile', hframe'⟩ := readFrame_eq_ok env hf
    obtain rfl : data = data' := Option.some.inj (hfile.symm.trans hfile')
    obtain rfl : frame = frame' := Except.ok.inj (hframe.symm.trans hframe')
    rw [after_bind_of_ok hf, ← hread.of_run_eq_ok hf]
    have hslots : frame.header.usesKeySlots = true := usesKeySlots_of_version hversion
    have hkey : Keeps derivations (vaultKey env frame credentials (env.resolve sourcePath) :
        Program (World γ Time) Exc Bytes) := by
      unfold vaultKey
      simp only [hslots, if_true, hpin]
      exact keeps_unwrapOpenpgpSlot env frame.header pin _
    have hframe : Keeps derivations (decryptFrame env frame credentials (env.resolve sourcePath)) :=
      hkey.bind fun key => keeps_decryptWith env calm_derivations pastEmits_derivations frame _ key
    exact (hframe.bind fun payload =>
      keeps_openOrEmit env calm_derivations pastEmits_derivations _ data frame skipChecksum payload) w1

/-- **Opening a vault derives keys within the limits only**, and at most one
for every slot that a header can have; none with a card's PIN from a vault
with key slots. -/
theorem derivations_openVault (sourcePath : Path) (credentials : Credentials) (skipChecksum : Bool)
    (w : World γ Time) :
    ∃ calls, derivations ((openVault env sourcePath credentials skipChecksum).after w) = derivations w ++ calls ∧
      calls.length ≤ maxVaultKeySlots ∧ (∀ call ∈ calls, Admissible call) ∧
      ∀ pin data frame, credentials.smartcardPin = some pin → w.files (env.resolve sourcePath) = some data →
        unpack env data = .ok frame → frame.header.version = vaultFormatVersionSlots → calls = [] := by
  obtain ⟨calls, hcalls, hlen, hall⟩ := derives_openVault env sourcePath credentials skipChecksum w
  refine ⟨calls, hcalls, hlen, hall, ?_⟩
  intro pin data frame hpin hfile hframe hversion
  rw [keeps_openVault env hpin hfile hframe hversion] at hcalls
  exact List.self_eq_append_right.mp hcalls

end VaultService
end GpgMeister
