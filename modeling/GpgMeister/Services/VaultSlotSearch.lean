/-
# The first slot that opens

A vault with key slots is opened by the first of them that gives its file key:
one of the passphrase's, or one that the card decrypts. Slots that do not open
should be passed over, whoever has written them.

* `findsFirst_passphrase`: the search with a passphrase finds the first slot
  that opens exactly if none before it aborts the search.
* `findsFirst_openpgp`: the same of the search with a PIN.
-/
import GpgMeister.Lib.FirstOf
import GpgMeister.Services.VaultCardPin
import GpgMeister.Services.VaultDerivations

namespace GpgMeister
namespace VaultService

open VaultFormat VaultKeyslots VaultPayload Program

variable {γ Time α : Type} (env : Platform γ Time)

/-- Going on after what is caught is a handler that goes on. -/
theorem attempt_bind {classes : List ErrorClass} {x : Program (World γ Time) Exc α}
    {next : Except Exc α → Program (World γ Time) Exc α} (hok : ∀ a, next (.ok a) = pure a) :
    attempt classes x >>= next = x.catching fun e => if e.isA classes then next (.error e) else raise e := by
  funext w
  change (attempt classes x >>= next).run w = (x.catching _).run w
  rw [EStateM.run_bind, run_catching]
  cases hx : x.run w with
  | ok a w1 =>
    rw [run_attempt_of_ok hx]
    simp [hok]
  | error e w1 =>
    by_cases hc : e.isA classes = true
    · rw [run_attempt_of_caught hx hc]
      simp [hc]
    · rw [run_attempt_of_not_caught hx hc]
      simp [hc]

/-! ### Slots of a passphrase -/

/-- The turn of one slot of a passphrase. -/
def unwrapSlot (masterPassphrase : Bytes) (cipher : CipherAlgorithm) (slot : VaultKeySlot) :
    Program (World γ Time) Exc Bytes :=
  match slot.kdf with
  | none => raise { cls := .decryptionError, message := [] }
  | some kdf => do
    Program.ofExcept (validateImportKdf kdf.toParams)
    unwrapWithPassphrase env slot masterPassphrase kdf.toParams cipher

theorem tryPassphraseSlots_eq_firstOf (masterPassphrase : Bytes) (cipher : CipherAlgorithm) :
    ∀ (slots : List VaultKeySlot) (lastError : Option Exc), (∀ slot ∈ slots, slot.kdf.isSome = true) →
      tryPassphraseSlots env masterPassphrase cipher slots lastError =
        firstOf (unwrapSlot env masterPassphrase cipher) (·.isA [.decryptionError, .vaultFormatError])
          (fun lastError => raise
            (lastError.getD { cls := .decryptionError, message := lit "no key slot accepted this passphrase" }))
          slots lastError
  | [], _, _ => rfl
  | slot :: slots, lastError, h => by
    rw [List.forall_mem_cons] at h
    obtain ⟨kdf, hkdf⟩ := Option.isSome_iff_exists.mp h.1
    have hrest (e : Exc) := tryPassphraseSlots_eq_firstOf masterPassphrase cipher slots (some e) h.2
    rw [tryPassphraseSlots, firstOf, hkdf]
    dsimp only
    rw [attempt_bind fun a => rfl]
    simp only [hrest, unwrapSlot, hkdf]

/-- The slot ends the search: the key derivation fails, or what is decrypted
is not as long as a file key. -/
def Aborts (masterPassphrase : Bytes) (cipher : CipherAlgorithm) (slot : VaultKeySlot) : Prop :=
  ∃ kdf nonce, slot.kdf = some kdf ∧ slot.nonce = some nonce ∧ kdf.toParams.Importable ∧
    match env.argon2 masterPassphrase kdf.salt kdf.toParams with
    | .error _ => True
    | .ok slotKey => ∃ raw, env.aead.decryptChecked slot.wrappedKey slotKey nonce (slotAssociatedData .passphrase)
        cipher = .ok raw ∧ raw.length ≠ fileKeyLen

theorem validateImportKdf_error {params : KDFParams} {e : Exc} (h : validateImportKdf params = .error e) :
    e.cls = .vaultFormatError ∧ ¬ params.Importable := by
  constructor
  · unfold validateImportKdf at h
    split at h
    · obtain rfl := Except.error.inj h
      rfl
    · split at h
      · obtain rfl := Except.error.inj h
        rfl
      · cases h
  · intro hi
    have hok := validateImportKdf_eq_ok (u := ()).mpr hi
    rw [h] at hok
    cases hok

/-- A slot of a passphrase has parameters and a nonce. -/
theorem passphrase_shape {slot : VaultKeySlot} (h : slot.type = .passphrase) :
    ∃ kdf nonce, slot.kdf = some kdf ∧ slot.nonce = some nonce := by
  have hok := slot.ok
  rw [slotOk, h] at hok
  simp only [slotShapeOk, Bool.and_eq_true] at hok
  obtain ⟨⟨⟨⟨-, hnonce⟩, -⟩, -⟩, ⟨hkdf, hsome⟩, -⟩ := hok
  obtain ⟨kdf, hkdf⟩ := Option.isSome_iff_exists.mp hkdf
  obtain ⟨nonceB64, hsome⟩ := Option.isSome_iff_exists.mp hsome
  rw [hsome, Option.all_some, nonceOk, Option.any_eq_true] at hnonce
  obtain ⟨nonce, hnonce, -⟩ := hnonce
  exact ⟨kdf, nonce, hkdf, by rw [VaultKeySlot.nonce, hsome]; exact hnonce⟩

/-- What is raised at a slot's turn is caught unless the slot aborts. -/
theorem unwrapSlot_caught_iff {masterPassphrase : Bytes} {cipher : CipherAlgorithm} {slot : VaultKeySlot}
    {w w' : World γ Time} {e : Exc} (htype : slot.type = .passphrase)
    (h : (unwrapSlot env masterPassphrase cipher slot).run w = .error e w') :
    e.isA [.decryptionError, .vaultFormatError] = true ↔ ¬ Aborts env masterPassphrase cipher slot := by
  obtain ⟨kdf, nonce, hkdf, hnonce⟩ := passphrase_shape htype
  have haborts : Aborts env masterPassphrase cipher slot ↔ kdf.toParams.Importable ∧
      match env.argon2 masterPassphrase kdf.salt kdf.toParams with
      | .error _ => True
      | .ok slotKey => ∃ raw, env.aead.decryptChecked slot.wrappedKey slotKey nonce (slotAssociatedData .passphrase)
          cipher = .ok raw ∧ raw.length ≠ fileKeyLen := by
    simp [Aborts, hkdf, hnonce]
  rw [haborts]
  unfold unwrapSlot at h
  rw [hkdf] at h
  dsimp only at h
  rw [EStateM.run_bind] at h
  cases hv : validateImportKdf kdf.toParams with
  | error e' =>
    rw [hv] at h
    obtain ⟨hcls, hi⟩ := validateImportKdf_error hv
    obtain ⟨rfl, -⟩ : e' = e ∧ w = w' := by simpa using h
    refine iff_of_true ?_ fun hc => hi hc.1
    simp only [Exc.isA, hcls]
    decide
  | ok u =>
    have hi := validateImportKdf_eq_ok.mp hv
    rw [hv] at h
    simp only [run_ofExcept_ok, unwrapWithPassphrase, htype, hkdf, EStateM.run_bind, run_deriveKey,
      deriveKeyOf_toParams, hnonce] at h
    cases ha : env.argon2 masterPassphrase kdf.salt kdf.toParams with
    | error text =>
      simp only [ha] at h
      obtain ⟨rfl, -⟩ : _ = e ∧ _ = w' := by simpa using h
      refine iff_of_false ?_ (not_not.mpr ⟨hi, trivial⟩)
      simp only [Exc.isA]
      decide
    | ok slotKey =>
      simp only [ha] at h
      cases hd : env.aead.decryptChecked slot.wrappedKey slotKey nonce (slotAssociatedData .passphrase) cipher with
      | error e' =>
        simp only [hd, run_ofExcept_error] at h
        obtain ⟨rfl, -⟩ : e' = e ∧ _ = w' := by simpa using h
        refine iff_of_true ?_ (by simp [hd])
        simp only [Exc.isA, Aead.decryptChecked_error hd]
        decide
      | ok raw =>
        simp only [hd, run_ofExcept_ok] at h
        by_cases hl : raw.length ≠ fileKeyLen
        · rw [fileKeyFromBytes, if_pos hl] at h
          obtain ⟨rfl, -⟩ : _ = e ∧ _ = w' := by simpa using h
          exact iff_of_false (by decide) (not_not.mpr ⟨hi, raw, hd, hl⟩)
        · rw [fileKeyFromBytes, if_neg hl] at h
          simp at h

theorem type_of_mem_slotsOf {header : VaultHeader} {type : VaultSlotType} {slot : VaultKeySlot}
    (h : slot ∈ header.slotsOf type) : slot.type = type := by
  simpa using (List.mem_filter.mp h).2

/-- Slots of a passphrase whose errors are caught do not abort, and the other
way around. -/
theorem allRaise_unwrapSlot_iff {masterPassphrase : Bytes} {cipher : CipherAlgorithm} :
    ∀ {before : List VaultKeySlot} {w w1 : World γ Time}, (∀ slot ∈ before, slot.type = .passphrase) →
      AllRaise (unwrapSlot env masterPassphrase cipher) (fun _ _ => True) before w w1 →
      ((∃ w2, AllRaise (unwrapSlot env masterPassphrase cipher)
          (fun _ e => e.isA [.decryptionError, .vaultFormatError] = true) before w w2) ↔
        ∀ slot ∈ before, ¬ Aborts env masterPassphrase cipher slot)
  | [], w, w1, _, _ => iff_of_true ⟨w, rfl⟩ (by simp)
  | slot :: before, w, w1, htype, h => by
    rw [List.forall_mem_cons] at htype
    obtain ⟨e, w2, he, -, h⟩ := h
    rw [List.forall_mem_cons, ← unwrapSlot_caught_iff env htype.1 he, ← allRaise_unwrapSlot_iff htype.2 h]
    constructor
    · intro h
      obtain ⟨w3, e', w4, he', hc, h⟩ := h
      obtain ⟨rfl, rfl⟩ : e = e' ∧ w2 = w4 := by simpa [he] using he'
      exact ⟨hc, w3, h⟩
    · intro h
      obtain ⟨hc, w3, h⟩ := h
      exact ⟨w3, e, w2, he, hc, h⟩

/-- **With a passphrase, the first slot that opens is found** exactly if no
slot before it aborts the search. -/
theorem findsFirst_passphrase (header : VaultHeader) (masterPassphrase : Bytes) (cipher : CipherAlgorithm)
    (w : World γ Time) :
    FindsFirst (unwrapPassphraseSlot env header masterPassphrase cipher)
        (unwrapSlot env masterPassphrase cipher) (header.slotsOf .passphrase) w ↔
      ∀ before key w', FirstWorks (unwrapSlot env masterPassphrase cipher) (header.slotsOf .passphrase) w before key w' →
        ∀ slot ∈ before, ¬ Aborts env masterPassphrase cipher slot := by
  have hkdf : ∀ slot ∈ header.slotsOf .passphrase, slot.kdf.isSome = true := by
    intro slot hslot
    obtain ⟨kdf, nonce, hkdf, -⟩ := passphrase_shape (type_of_mem_slotsOf hslot)
    simp [hkdf]
  by_cases hn : header.slotsOf .passphrase = []
  · rw [hn]
    refine iff_of_true ?_ ?_ <;>
    · intro before key w' h
      obtain ⟨slot, later, w1, hslots, -⟩ := h
      simp at hslots
  · rw [unwrapPassphraseSlot, if_neg hn, tryPassphraseSlots_eq_firstOf env _ _ _ _ hkdf, findsFirst_iff]
    refine forall₃_congr fun before key w' => forall_congr' fun h => ?_
    obtain ⟨slot, later, w1, hslots, hraise, -⟩ := h
    refine allRaise_unwrapSlot_iff env (fun s hs => @type_of_mem_slotsOf header _ _ ?_) hraise
    rw [hslots]
    exact List.mem_append_left _ hs

/-! ### Slots of a card -/

/-- The turn of one OpenPGP slot. -/
def decryptSlot (smartcardPin : Bytes) (slot : VaultKeySlot) : Program (World γ Time) Exc Bytes := do
  let decrypted ← GPGService.decrypt env slot.wrappedKey (some smartcardPin)
  Program.ofExcept (fileKeyFromBytes decrypted.plaintext)

theorem fileKeyFromBytes_error {raw : Bytes} {e : Exc} (h : fileKeyFromBytes raw = .error e) :
    ¬ e.isA caughtErrors = true := by
  unfold fileKeyFromBytes at h
  by_cases hl : raw.length ≠ fileKeyLen
  · rw [if_pos hl] at h
    obtain rfl := Except.error.inj h
    decide
  · rw [if_neg hl] at h
    cases h

theorem tryOpenpgpSlots_eq_firstOf (smartcardPin : Bytes) (src : Path) :
    ∀ (slots : List VaultKeySlot) (lastError : Option Exc),
      tryOpenpgpSlots env smartcardPin src slots lastError =
        firstOf (decryptSlot env smartcardPin) (·.isA caughtErrors)
          (fun lastError => tryOpenpgpSlots env smartcardPin src [] lastError) slots lastError
  | [], _ => rfl
  | slot :: slots, lastError => by
    have hrest := tryOpenpgpSlots_eq_firstOf smartcardPin src slots
    funext w
    change (tryOpenpgpSlots env smartcardPin src (slot :: slots) lastError).run w = (firstOf _ _ _ _ _).run w
    rw [tryOpenpgpSlots, firstOf, EStateM.run_bind, run_catching, decryptSlot, EStateM.run_bind]
    cases hd : (GPGService.decrypt env slot.wrappedKey (some smartcardPin)).run w with
    | ok d w1 =>
      rw [run_attempt_of_ok hd]
      cases hf : fileKeyFromBytes d.plaintext with
      | ok key => simp [hf]
      | error e => simp [hf, fileKeyFromBytes_error hf]
    | error e w1 =>
      by_cases hc : e.isA caughtErrors = true
      · rw [run_attempt_of_caught hd hc]
        simp [hc, hrest]
      · rw [run_attempt_of_not_caught hd hc]
        simp [hc]

/-- A slot's turn ends in an exception that is caught if `gpg.decrypt` raises
one. -/
theorem decryptSlot_caught_iff {smartcardPin : Bytes} {slot : VaultKeySlot} {w w' : World γ Time} {e : Exc}
    (hc : e.isA caughtErrors = true) : (decryptSlot env smartcardPin slot).run w = .error e w' ↔
      (GPGService.decrypt env slot.wrappedKey (some smartcardPin)).run w = .error e w' := by
  rw [decryptSlot, EStateM.run_bind]
  cases (GPGService.decrypt env slot.wrappedKey (some smartcardPin)).run w with
  | error e' w1 => simp
  | ok d w1 =>
    refine iff_of_false ?_ (by simp)
    cases hf : fileKeyFromBytes d.plaintext with
    | ok key => simp [hf]
    | error e' =>
      intro h
      obtain ⟨rfl, -⟩ : e' = e ∧ w1 = w' := by simpa [hf] using h
      exact fileKeyFromBytes_error hf hc

theorem allRaise_decryptSlot_iff {smartcardPin : Bytes} : ∀ {slots : List VaultKeySlot} {w w' : World γ Time},
    AllRaise (decryptSlot env smartcardPin) (fun _ e => e.isA caughtErrors = true) slots w w' ↔
      Failed env smartcardPin slots w w'
  | [], _, _ => Iff.rfl
  | slot :: slots, w, w' => by
    refine exists₂_congr fun e w1 => ?_
    rw [allRaise_decryptSlot_iff]
    constructor
    · intro h
      exact ⟨(decryptSlot_caught_iff env h.2.1).mp h.1, h.2⟩
    · intro h
      exact ⟨(decryptSlot_caught_iff env h.2.1).mpr h.1, h.2⟩

/-- **With a PIN, the first slot that opens is found** exactly if `gpg.decrypt`
raises what is caught on every slot before it. -/
theorem findsFirst_openpgp (header : VaultHeader) (smartcardPin : Bytes) (src : Path) (w : World γ Time) :
    FindsFirst (unwrapOpenpgpSlot env header smartcardPin src) (decryptSlot env smartcardPin)
        (header.slotsOf .openpgp) w ↔
      ∀ before key w', FirstWorks (decryptSlot env smartcardPin) (header.slotsOf .openpgp) w before key w' →
        ∃ w1, Failed env smartcardPin before w w1 := by
  by_cases hn : header.slotsOf .openpgp = []
  · rw [hn]
    refine iff_of_true ?_ ?_ <;>
    · intro before key w' h
      obtain ⟨slot, later, w1, hslots, -⟩ := h
      simp at hslots
  · rw [unwrapOpenpgpSlot, if_neg hn, tryOpenpgpSlots_eq_firstOf, findsFirst_iff]
    simp only [allRaise_decryptSlot_iff]

/-! ### Both searches -/

/-- **The search finds the first slot that opens**, with a passphrase and with
a PIN, exactly if no slot before that one ends it. -/
theorem findsFirst_slots_iff (header : VaultHeader) (credential : Bytes) (cipher : CipherAlgorithm) (src : Path)
    (w : World γ Time) :
    (FindsFirst (unwrapPassphraseSlot env header credential cipher)
          (unwrapSlot env credential cipher) (header.slotsOf .passphrase) w ∧
        FindsFirst (unwrapOpenpgpSlot env header credential src) (decryptSlot env credential)
          (header.slotsOf .openpgp) w) ↔
      (∀ before key w',
          FirstWorks (unwrapSlot env credential cipher) (header.slotsOf .passphrase) w before key w' →
            ∀ slot ∈ before, ¬ Aborts env credential cipher slot) ∧
        ∀ before key w', FirstWorks (decryptSlot env credential) (header.slotsOf .openpgp) w before key w' →
          ∃ w1, Failed env credential before w w1 := by
  rw [findsFirst_passphrase, findsFirst_openpgp]

/-! ### A slot in the way -/

def sampleKdf : KDFFields where
  algorithm := .argon2id
  saltB64 := lit "AAAAAAAAAAAAAAAAAAAAAA=="
  timeCost := ⟨2, by decide⟩
  memoryCost := ⟨19456, by decide⟩
  parallelism := ⟨1, by decide⟩
  hashLen := ⟨32, highMemoryParams.hashLen.2⟩
  salt_ok := by decide +kernel

/-- A slot of a passphrase, with three octets for its wrapped key. -/
def sampleSlot (wrappedKeyB64 : Str) (h : wrappedKeyOk wrappedKeyB64 = true) : VaultKeySlot where
  type := .passphrase
  wrappedKeyB64 := wrappedKeyB64
  kdf := some sampleKdf
  nonceB64 := some (lit "AAAAAAAAAAAAAAAA")
  fingerprint := none
  label := []
  ok := by
    rw [slotOk, h]
    decide +kernel

def shortSlot : VaultKeySlot := sampleSlot (lit "AAAA") (by decide +kernel)

def goodSlot : VaultKeySlot := sampleSlot (lit "AAAB") (by decide +kernel)

def twoSlots : VaultHeader where
  version := 3
  kdf := none
  cipher := { algorithm := .aes256Gcm, nonceB64 := lit "AAAAAAAAAAAAAAAA", nonce_ok := by decide +kernel }
  keySlots := some [shortSlot, goodSlot]
  ok := by decide

/-- A cipher that knows two ciphertexts: there is a key of 31 octets in the
one, and a file key in the other. -/
def twoKeys : Platform Unit Unit :=
  { samplePlatform noGnuPG with
    argon2 := fun _ _ _ => .ok (List.replicate 32 1)
    aead :=
      { encrypt := fun _ _ _ _ _ => none
        decrypt := fun _ _ _ _ ciphertext =>
          if ciphertext = [0, 0, 0] then some (List.replicate 31 2)
          else if ciphertext = [0, 0, 1] then some (List.replicate 32 3) else none } }

/-- A slot with a key that is too short keeps the slot after it from being
used. -/
theorem not_findsFirst_slots : ¬ ∀ (γ Time : Type) (env : Platform γ Time) header credential cipher src w,
    FindsFirst (unwrapPassphraseSlot env header credential cipher)
        (unwrapSlot env credential cipher) (header.slotsOf .passphrase) w ∧
      FindsFirst (unwrapOpenpgpSlot env header credential src) (decryptSlot env credential)
        (header.slotsOf .openpgp) w := by
  intro h
  obtain ⟨w, hw⟩ : ∃ w, sampleWorld () (fun _ => none) = w := ⟨_, rfl⟩
  have hsearch := (h Unit Unit twoKeys twoSlots [] .aes256Gcm { parent := [], name := [] } w).1
  have hturns : (match (unwrapSlot twoKeys [] .aes256Gcm shortSlot).run w with
      | .error _ w1 => returns (fun _ _ => true) (unwrapSlot twoKeys [] .aes256Gcm goodSlot) w1
      | .ok _ _ => false) = true := by
    rw [← hw]
    decide +kernel
  have hfails : returns (fun _ _ => true) (unwrapPassphraseSlot twoKeys twoSlots [] .aes256Gcm) w = false := by
    rw [← hw]
    decide +kernel
  cases hshort : (unwrapSlot twoKeys [] .aes256Gcm shortSlot).run w with
  | ok key w1 => simp [hshort] at hturns
  | error e w1 =>
    rw [hshort] at hturns
    obtain ⟨key, w2, hgood, -⟩ := returns_eq_true.mp hturns
    have hfound := hsearch [shortSlot] key w2 ⟨goodSlot, [], w1, rfl, ⟨e, w1, hshort, trivial, rfl⟩, hgood⟩
    rw [returns_eq_true.mpr ⟨key, w2, hfound, rfl⟩] at hfails
    cases hfails

end VaultService
end GpgMeister
