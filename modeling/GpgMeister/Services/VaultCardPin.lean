/-
# A card's PIN is tried once

A vault with key slots is opened with a PIN by trying it on one OpenPGP slot
after the other, whoever has written them into the header. A rejected PIN has
cost one of the card's few attempts, and the loop should end there.

* `tryOpenpgpSlots_decrypts`: the calls of the loop.
* `pinTriedOnce_iff`: exactly when opening a vault makes no call of
  `gpg.decrypt` after one that reported the PIN rejected.
-/
import GpgMeister.Services.VaultFrames

namespace GpgMeister
namespace VaultService

open VaultFormat VaultKeyslots VaultPayload Program

variable {γ Time α : Type} (env : Platform γ Time)

/-! ### The calls of `gpg.decrypt` -/

/-- How the calls of `gpg.decrypt` have ended so far. -/
def decrypts (w : World γ Time) : List (Option Exc) :=
  w.history.filterMap fun
    | .decrypt raised => some raised
    | _ => none

/-- The PIN was rejected. -/
def rejected (e : Exc) : Bool := e.isA [.gpgCardPinError]

/-- No call comes after one that reported the PIN rejected. -/
def NoneAfterRejection (calls : List (Option Exc)) : Prop :=
  ∀ before e later, calls = before ++ some e :: later → rejected e = true → later = []

theorem noneAfterRejection_cons {call : Option Exc} {calls : List (Option Exc)} :
    NoneAfterRejection (call :: calls) ↔
      (∀ e, call = some e → rejected e = true → calls = []) ∧ NoneAfterRejection calls := by
  constructor
  · intro h
    refine ⟨fun e he hr => h [] e calls (by rw [he]; rfl) hr, fun before e later hc hr => ?_⟩
    exact h (call :: before) e later (by rw [hc]; rfl) hr
  · intro h before e later hc hr
    cases before with
    | nil =>
      obtain ⟨hcall, hcalls⟩ := List.cons.inj hc
      exact hcalls ▸ h.1 e hcall hr
    | cons call' before =>
      obtain ⟨-, hcalls⟩ := List.cons.inj hc
      exact h.2 before e later hcalls hr

theorem noneAfterRejection_nil : NoneAfterRejection [] := by
  intro before e later h
  simp at h

theorem steady_decrypts : Steady (decrypts : World γ Time → List (Option Exc)) where
  audit _ _ := rfl
  faults _ _ := rfl
  random _ _ := rfl
  clock _ _ := rfl
  buffers _ _ := rfl
  emitted event w outcome raised := by simp [decrypts, World.note]
  derived w params n raised := by simp [decrypts, World.note]

/-- A call of `gpg.decrypt` that returned. -/
theorem decrypts_of_decrypt_ok {ciphertext : Bytes} {pin : Option Bytes} {w w' : World γ Time} {d : Gpg.Decrypted}
    (h : (GPGService.decrypt env ciphertext pin).run w = .ok d w') : decrypts w' = decrypts w ++ [none] := by
  have hk := (keeps_runGpg env steady_decrypts.toCalm (fun _ _ => rfl) [lit "--decrypt"] (some ciphertext) pin true).bind
    fun proc => keeps_ofExcept (Gpg.decrypt env.lower env.fromTimestamp proc)
  obtain ⟨w1, h1, rfl⟩ := run_recorded_eq_ok.mp h
  rw [← hk.of_run_eq_ok h1]
  simp [decrypts, World.note]

/-- A call of `gpg.decrypt` that raised. -/
theorem decrypts_of_decrypt_error {ciphertext : Bytes} {pin : Option Bytes} {w w' : World γ Time} {e : Exc}
    (h : (GPGService.decrypt env ciphertext pin).run w = .error e w') : decrypts w' = decrypts w ++ [some e] := by
  have hk := (keeps_runGpg env steady_decrypts.toCalm (fun _ _ => rfl) [lit "--decrypt"] (some ciphertext) pin true).bind
    fun proc => keeps_ofExcept (Gpg.decrypt env.lower env.fromTimestamp proc)
  obtain ⟨w1, h1, rfl⟩ := run_recorded_eq_error.mp h
  rw [← hk.of_run_eq_error h1]
  simp [decrypts, World.note]

/-! ### The loop over the slots -/

theorem caught_of_rejected {e : Exc} (h : rejected e = true) : e.isA caughtErrors = true := by
  have hall : ∀ c : ErrorClass, c.isSubclass .gpgCardPinError = true → c.isSubclass .gpgCardError = true := by
    intro c
    cases c <;> decide
  simp only [rejected, Exc.isA, List.any_cons, List.any_nil, Bool.or_false] at h
  simp [Exc.isA, caughtErrors, hall e.cls h]

/-- The PIN was tried on these slots one after the other, and every time it
failed with an exception that the loop catches. -/
def Failed (pin : Bytes) : List VaultKeySlot → World γ Time → World γ Time → Prop
  | [], w, w' => w' = w
  | slot :: slots, w, w' => ∃ e w1, (GPGService.decrypt env slot.wrappedKey (some pin)).run w = .error e w1 ∧
      e.isA caughtErrors = true ∧ Failed pin slots w1 w'

/-- Of the slots that the PIN gets to, only the last of all may reject it. -/
def RejectedAtLast (pin : Bytes) (slots : List VaultKeySlot) (w : World γ Time) : Prop :=
  ∀ before slot later w1 e w2, slots = before ++ slot :: later → Failed env pin before w w1 →
    (GPGService.decrypt env slot.wrappedKey (some pin)).run w1 = .error e w2 → rejected e = true → later = []

/-- The first slot opened. -/
theorem rejectedAtLast_of_ok {pin : Bytes} {slot : VaultKeySlot} {slots : List VaultKeySlot} {w w1 : World γ Time}
    {d : Gpg.Decrypted} (h : (GPGService.decrypt env slot.wrappedKey (some pin)).run w = .ok d w1) :
    RejectedAtLast env pin (slot :: slots) w := by
  intro before slot' later w2 e w3 hs hf he hr
  cases before with
  | nil =>
    obtain ⟨rfl, -⟩ := List.cons.inj hs
    obtain rfl : w2 = w := hf
    simp [h] at he
  | cons first before =>
    obtain ⟨rfl, -⟩ := List.cons.inj hs
    obtain ⟨e', w4, h', -⟩ := hf
    simp [h] at h'

/-- The first slot failed. -/
theorem rejectedAtLast_of_error {pin : Bytes} {slot : VaultKeySlot} {slots : List VaultKeySlot} {w w1 : World γ Time}
    {e : Exc} (h : (GPGService.decrypt env slot.wrappedKey (some pin)).run w = .error e w1) :
    RejectedAtLast env pin (slot :: slots) w ↔ (rejected e = true → slots = []) ∧
      (e.isA caughtErrors = true → RejectedAtLast env pin slots w1) := by
  constructor
  · intro hr
    refine ⟨fun he => hr [] slot slots w e w1 rfl rfl h he, fun hc before slot' later w2 e' w3 hs hf => ?_⟩
    exact hr (slot :: before) slot' later w2 e' w3 (by rw [hs]; rfl) ⟨e, w1, h, hc, hf⟩
  · intro hr before slot' later w2 e' w3 hs hf he' hr'
    cases before with
    | nil =>
      obtain ⟨rfl, rfl⟩ := List.cons.inj hs
      obtain rfl : w2 = w := hf
      rw [h] at he'
      obtain ⟨rfl, rfl⟩ : e = e' ∧ w1 = w3 := by simpa using he'
      exact hr.1 hr'
    | cons first before =>
      obtain ⟨rfl, hs'⟩ := List.cons.inj hs
      obtain ⟨e1, w4, h1, hc, hf⟩ := hf
      rw [h] at h1
      obtain ⟨rfl, rfl⟩ : e = e1 ∧ w1 = w4 := by simpa using h1
      exact hr.2 hc before slot' later w2 e' w3 hs' hf he' hr'

/-- The calls that the loop makes. -/
theorem tryOpenpgpSlots_decrypts (pin : Bytes) (src : Path) : ∀ (slots : List VaultKeySlot) (lastError : Option Exc)
    (w : World γ Time), ∃ calls, decrypts ((tryOpenpgpSlots env pin src slots lastError).after w) = decrypts w ++ calls ∧
      (calls = [] ↔ slots = []) ∧ (NoneAfterRejection calls ↔ RejectedAtLast env pin slots w)
  | [], lastError, w => by
    have hk : Keeps decrypts (tryOpenpgpSlots env pin src [] lastError) :=
      (steady_decrypts.emit env.toEnv _ _ _).bind fun _ => keeps_raise _
    refine ⟨[], by rw [hk w, List.append_nil], by simp, ?_⟩
    refine iff_of_true noneAfterRejection_nil ?_
    intro before slot later w1 e w2 hs
    simp at hs
  | slot :: slots, lastError, w => by
    rw [tryOpenpgpSlots]
    cases hd : (GPGService.decrypt env slot.wrappedKey (some pin)).run w with
    | ok d w1 =>
      have hd' := run_attempt_of_ok hd caughtErrors
      have hk := keeps_ofExcept (f := decrypts) (σ := World γ Time) (fileKeyFromBytes d.plaintext)
      refine ⟨[none], ?_, by simp, ?_⟩
      · rw [after_bind_of_ok hd', ← decrypts_of_decrypt_ok env hd]
        exact hk w1
      · refine iff_of_true ?_ (rejectedAtLast_of_ok env hd)
        rw [noneAfterRejection_cons]
        exact ⟨by simp, noneAfterRejection_nil⟩
    | error e w1 =>
      have hw1 := decrypts_of_decrypt_error env hd
      rw [rejectedAtLast_of_error env hd]
      by_cases hc : e.isA caughtErrors = true
      · obtain ⟨calls, hcalls, hnil, hiff⟩ := tryOpenpgpSlots_decrypts pin src slots (some e) w1
        refine ⟨some e :: calls, ?_, by simp, ?_⟩
        · rw [after_bind_of_ok (run_attempt_of_caught hd hc), ← List.singleton_append, ← List.append_assoc, ← hw1]
          exact hcalls
        · rw [noneAfterRejection_cons, hiff]
          simp [hc, hnil]
      · refine ⟨[some e], ?_, by simp, ?_⟩
        · rw [after_bind_of_error (run_attempt_of_not_caught hd hc), hw1]
        · have hn : rejected e ≠ true := fun hr => hc (caught_of_rejected hr)
          rw [noneAfterRejection_cons]
          simp [hc, hn, noneAfterRejection_nil]

/-! ### Opening a vault -/

/-- Opening the vault makes no call of `gpg.decrypt` after one that reported
the PIN rejected. -/
def PinTriedOnce (sourcePath : Path) (credentials : Credentials) (skipChecksum : Bool) (w : World γ Time) : Prop :=
  ∃ calls, decrypts ((openVault env sourcePath credentials skipChecksum).after w) = decrypts w ++ calls ∧
    NoneAfterRejection calls

/-- Whatever frame is read, the PIN is rejected at the last of its OpenPGP
slots if at any. -/
def RejectedAtLastOfFrame (sourcePath : Path) (pin : Bytes) (w : World γ Time) : Prop :=
  ∀ data frame w1, (readFrame env (env.resolve sourcePath)).run w = .ok (data, frame) w1 →
    frame.header.usesKeySlots = true → RejectedAtLast env pin (frame.header.slotsOf .openpgp) w1

/-- The calls are those of the loop, and what comes after it makes none. -/
theorem decrypts_decryptFrame (frame : UnpackedFrame) (credentials : Credentials) (src : Path) (w : World γ Time) :
    decrypts ((decryptFrame env frame credentials src).after w) =
      decrypts ((vaultKey env frame credentials src).after w) := by
  unfold decryptFrame
  cases hk : (vaultKey env frame credentials src).run w with
  | ok key w1 =>
    rw [after_bind_of_ok hk, after_of_run_eq_ok hk]
    exact keeps_decryptWith env steady_decrypts.toCalm steady_decrypts.emitted frame src key w1
  | error e w1 => rw [after_bind_of_error hk, after_of_run_eq_error hk]

/-- The calls of `_vault_key`. -/
theorem decrypts_vaultKey (frame : UnpackedFrame) (credentials : Credentials) (src : Path) (w : World γ Time) :
    ∃ calls, decrypts ((vaultKey env frame credentials src).after w) = decrypts w ++ calls ∧
      (NoneAfterRejection calls ↔ ∀ pin, credentials.smartcardPin = some pin → frame.header.usesKeySlots = true →
        RejectedAtLast env pin (frame.header.slotsOf .openpgp) w) := by
  by_cases hu : frame.header.usesKeySlots = true
  · cases hp : credentials.smartcardPin with
    | none =>
      have hk := keeps_vaultKey env steady_decrypts frame credentials src (fun _ => hp)
      exact ⟨[], by rw [hk w, List.append_nil], iff_of_true noneAfterRejection_nil (by simp)⟩
    | some pin =>
      have he : vaultKey env frame credentials src = unwrapOpenpgpSlot env frame.header pin src := by
        unfold vaultKey
        simp [hu, hp]
      by_cases hs : frame.header.slotsOf .openpgp = []
      · have hk : Keeps decrypts (unwrapOpenpgpSlot env frame.header pin src) := by
          unfold unwrapOpenpgpSlot
          rw [if_pos hs]
          exact keeps_raise _
        refine ⟨[], by rw [he, hk w, List.append_nil], iff_of_true noneAfterRejection_nil ?_⟩
        intro pin' _ _ before slot later w1 e w2 hslots
        simp [hs] at hslots
      · obtain ⟨calls, hcalls, -, hiff⟩ := tryOpenpgpSlots_decrypts env pin src (frame.header.slotsOf .openpgp) none w
        refine ⟨calls, ?_, ?_⟩
        · rw [he, unwrapOpenpgpSlot, if_neg hs]
          exact hcalls
        · rw [hiff]
          simp [hu]
  · have hk := keeps_vaultKey env steady_decrypts frame credentials src (fun h => absurd h hu)
    exact ⟨[], by rw [hk w, List.append_nil], iff_of_true noneAfterRejection_nil (by simp [hu])⟩

/-- The calls of `_open`, when a frame is read. -/
theorem decrypts_openVault {sourcePath : Path} {credentials : Credentials} {skipChecksum : Bool}
    (hc : ¬ (credentials.masterPassphrase = none ∧ credentials.smartcardPin = none)) (w : World γ Time) :
    (∃ e w1, (readFrame env (env.resolve sourcePath)).run w = .error e w1 ∧
        decrypts ((openVault env sourcePath credentials skipChecksum).after w) = decrypts w) ∨
      ∃ data frame w1, (readFrame env (env.resolve sourcePath)).run w = .ok (data, frame) w1 ∧
        decrypts w1 = decrypts w ∧ decrypts ((openVault env sourcePath credentials skipChecksum).after w) =
          decrypts ((vaultKey env frame credentials (env.resolve sourcePath)).after w1) := by
  have hread := keeps_readFrame env steady_decrypts.toCalm steady_decrypts.emitted (env.resolve sourcePath)
  unfold openVault
  rw [if_neg hc]
  cases hf : (readFrame env (env.resolve sourcePath)).run w with
  | error e w1 =>
    refine .inl ⟨e, w1, rfl, ?_⟩
    rw [after_bind_of_error hf]
    exact hread.of_run_eq_error hf
  | ok r w1 =>
    obtain ⟨data, frame⟩ := r
    refine .inr ⟨data, frame, w1, rfl, hread.of_run_eq_ok hf, ?_⟩
    rw [after_bind_of_ok hf]
    dsimp only
    rw [← decrypts_decryptFrame]
    cases hd : (decryptFrame env frame credentials (env.resolve sourcePath)).run w1 with
    | error e w2 => rw [after_bind_of_error hd, after_of_run_eq_error hd]
    | ok plaintext w2 =>
      rw [after_bind_of_ok hd, after_of_run_eq_ok hd]
      exact keeps_openOrEmit env steady_decrypts.toCalm steady_decrypts.emitted _ data frame skipChecksum plaintext w2

/-- **The PIN is not tried again after it was rejected** exactly if, of the
OpenPGP slots it gets to, only the last of the header rejects it. -/
theorem pinTriedOnce_iff (sourcePath : Path) (credentials : Credentials) (skipChecksum : Bool) (w : World γ Time) :
    PinTriedOnce env sourcePath credentials skipChecksum w ↔
      ∀ pin, credentials.smartcardPin = some pin → RejectedAtLastOfFrame env sourcePath pin w := by
  by_cases hc : credentials.masterPassphrase = none ∧ credentials.smartcardPin = none
  · have hk : decrypts ((openVault env sourcePath credentials skipChecksum).after w) = decrypts w := by
      unfold openVault
      rw [if_pos hc]
      exact keeps_raise _ w
    refine iff_of_true ⟨[], by rw [hk, List.append_nil], noneAfterRejection_nil⟩ ?_
    intro pin hp
    rw [hc.2] at hp
    cases hp
  · rcases decrypts_openVault env hc w with ⟨e, w1, hf, hk⟩ | ⟨data, frame, w1, hf, hw1, hk⟩
    · refine iff_of_true ⟨[], by rw [hk, List.append_nil], noneAfterRejection_nil⟩ ?_
      intro pin _ data frame w2 hf'
      simp [hf] at hf'
    · obtain ⟨calls, hcalls, hiff⟩ := decrypts_vaultKey env frame credentials (env.resolve sourcePath) w1
      rw [hw1, ← hk] at hcalls
      have hones : PinTriedOnce env sourcePath credentials skipChecksum w ↔ NoneAfterRejection calls := by
        refine ⟨fun ⟨calls', hcalls', hn⟩ => ?_, fun hn => ⟨calls, hcalls, hn⟩⟩
        rw [hcalls] at hcalls'
        rwa [List.append_cancel_left hcalls']
      rw [hones, hiff]
      constructor
      · intro h pin hp data' frame' w2 hf' hu
        rw [hf] at hf'
        obtain ⟨⟨rfl, rfl⟩, rfl⟩ : (data = data' ∧ frame = frame') ∧ w1 = w2 := by simpa using hf'
        exact h pin hp hu
      · intro h pin hp hu
        exact h pin hp data frame w1 hf hu

/-! ### A rejected PIN is tried again -/

/-- A slot that anybody can write into a header. -/
def forgedSlot : Bytes :=
  ascii "\x7b\"fingerprint\":\"0123456789ABCDEF0123456789ABCDEF01234567\",\"label\":\"\"," ++
    ascii "\"type\":\"openpgp\",\"wrapped_key_b64\":\"AAAA\"\x7d"

/-- A vault of version 3 with two such slots. -/
def forgedVault : Bytes :=
  frameOf 3 (ascii "\x7b\"cipher\":\x7b\"algorithm\":\"aes-256-gcm\",\"nonce_b64\":\"AAAAAAAAAAAAAAAA\"\x7d," ++
    ascii "\"format\":\"GPGMEISTER_VAULT\",\"key_slots\":[" ++ forgedSlot ++ ascii "," ++ forgedSlot ++
    ascii "],\"version\":3\x7d") [0]

/-- A card that rejects the PIN. -/
def rejectingCard : GnuPG Unit Unit where
  baseCmd := [lit "gpg"]
  pipes _ := (lit "3", lit "4")
  popen _ _ _ card := (.ok { returncode := 2, stderr := ascii "gpg: public key decryption failed: Bad PIN" }, card)
  listKeys _ card := (.ok [], card)

/-- Both slots are tried with the PIN that the first has shown to be wrong. -/
theorem not_pinTriedOnce : ¬ ∀ (γ Time : Type) (env : Platform γ Time) sourcePath credentials skipChecksum w,
    PinTriedOnce env sourcePath credentials skipChecksum w := by
  intro h
  have hrun : (decrypts ((openVault (samplePlatform rejectingCard) { parent := [], name := lit "v" }
      { smartcardPin := some (ascii "123456") } false).after (sampleWorld () fun _ => some forgedVault))).map
        (Option.map fun e => rejected e) = [some true, some true] := by
    decide +kernel
  obtain ⟨calls, hcalls, hn⟩ := h Unit Unit (samplePlatform rejectingCard) { parent := [], name := lit "v" }
    { smartcardPin := some (ascii "123456") } false (sampleWorld () fun _ => some forgedVault)
  rw [hcalls] at hrun
  obtain ⟨first, rest, rfl, hfirst, hrest⟩ := List.map_eq_cons_iff.mp hrun
  obtain ⟨e, rfl, he⟩ := Option.map_eq_some_iff.mp hfirst
  obtain rfl := hn [] e rest rfl he
  simp at hrest

end VaultService
end GpgMeister
