/-
# How an enrolment ends

What the runs of `create_key_with_token` and its steps do to GnuPG, to the table
of unlock slots and to the list of deletions. All that can happen in a creation
is said once: if it returns (`createKeyWithToken_eq_ok`), and if it raises
(`createKeyWithToken_eq_error`).
-/
import GpgMeister.Services.KeyEnrolment

namespace GpgMeister
namespace KeyUnlockService

variable {δ γ Time : Type} (env : Platform γ Time) (lib : Fido2 δ) (service : EnrolmentService)

/-! ### What an enrolment gives -/

open Program

/-- What the token of a binding is asked for. -/
def requestOf (credential : FidoCredential) (challenge : Bytes) : Fido2.RequestOptions where
  rpId := credential.rpId
  challenge := challenge
  credentialId := credential.credentialId
  salt := credential.salt

/-- The token has given these octets for the binding. -/
def DerivedFrom (credential : FidoCredential) (octets : Bytes) : Prop :=
  ∃ client challenge d results d', lib.getAssertion client (requestOf credential challenge) d = (.ok results, d') ∧
    FidoService.prfOutput results = some octets ∧ octets.length = KeyUnlock.tokenSecretLen

/-- The secret is open, with these octets. -/
def Open (b : TokenWorld δ γ Time) (secret : ℕ) (octets : Bytes) : Prop :=
  b.secrets[secret]? = some { octets }

section Frames

variable {α τ : Type} {f : World γ Time → τ}

/-- A step that has nothing to do with tokens, and that `f` does not see. -/
theorem meets_onWorld {x : Program (World γ Time) Exc α} (hx : Keeps f x) {b : TokenWorld δ γ Time}
    {Q : α → TokenWorld δ γ Time → Prop} {E : Exc → TokenWorld δ γ Time → Prop}
    (hE : ∀ e w, f w = f b.world → E e { b with world := w })
    (hQ : ∀ a w, f w = f b.world → Q a { b with world := w }) : (onWorld x).Meets b Q E :=
  meets_onPart.mpr (hx.meets hQ hE)

theorem keeps_emitBestEffort (hf : Steady f) (audit : Bool) (event outcome : Str) (payload : Dict) :
    Keeps f (SmartcardService.emitBestEffort env audit event outcome payload) := by
  unfold SmartcardService.emitBestEffort
  cases audit with
  | true => exact (hf.emit env.toEnv event outcome payload).catching fun _ => keeps_pure _
  | false => exact keeps_pure _

theorem meets_onTokens {g : δ → α × δ} {b : TokenWorld δ γ Time} {Q : α → TokenWorld δ γ Time → Prop}
    {E : Exc → TokenWorld δ γ Time → Prop} :
    (onTokens g).Meets b Q E ↔ Q (g b.tokens).1 { b with tokens := (g b.tokens).2 } := Iff.rfl

theorem meets_emit (hf : Steady f) (fido : FidoService) (event outcome : Str) (payload : Dict)
    {b : TokenWorld δ γ Time} {Q : Unit → TokenWorld δ γ Time → Prop} {E : Exc → TokenWorld δ γ Time → Prop}
    (hE : ∀ e w, f w = f b.world → E e { b with world := w })
    (hQ : ∀ w, f w = f b.world → Q () { b with world := w }) :
    (FidoService.emit env fido event outcome payload).Meets b Q E :=
  meets_onWorld (keeps_emitBestEffort env hf fido.audit event outcome payload) hE fun _ => hQ

/-- What is derived, and nothing else. -/
theorem meets_derived_of (hf : Steady f) (fido : FidoService) (results : Fido2.Value) (b : TokenWorld δ γ Time) :
    (FidoService.derived env fido results).Meets b
      (fun secret b' => f b'.world = f b.world ∧ ∃ octets, Open b' secret octets ∧
        FidoService.prfOutput results = some octets ∧ octets.length = KeyUnlock.tokenSecretLen)
      fun _ b' => f b'.world = f b.world := by
  unfold FidoService.derived
  cases hp : FidoService.prfOutput results with
  | none =>
    rw [meets_bind]
    exact meets_emit env hf fido _ _ _ (fun _ _ h => h) fun _ h => h
  | some raw =>
    dsimp only
    by_cases hlen : raw.length = KeyUnlock.tokenSecretLen
    · rw [if_pos hlen, meets_bind]
      refine meets_emit env hf fido _ _ _ (fun _ _ h => h) fun w h => ⟨h, raw, ?_, rfl, hlen⟩
      exact List.getElem?_concat_length
    · rw [if_neg hlen, meets_bind]
      exact meets_emit env hf fido _ _ _ (fun _ _ h => h) fun _ h => h

theorem meets_derive_of (hf : Steady f) (fido : FidoService) (credential : FidoCredential) (pin : Bytes)
    (b : TokenWorld δ γ Time) :
    (FidoService.derive env lib fido credential pin).Meets b
      (fun secret b' => f b'.world = f b.world ∧ ∃ octets, Open b' secret octets ∧ DerivedFrom lib credential octets)
      fun _ b' => f b'.world = f b.world := by
  rw [FidoService.derive, meets_recordedCall, meets_bind]
  refine (keeps_requireToken lib (F := fun b => f b.world) (fun _ _ => rfl)).meets (fun _ b1 h1 => ?_) fun _ _ h => h
  rw [meets_bind]
  refine (keeps_client lib (F := fun b => f b.world) (fun _ _ => rfl) fido pin).meets (fun client b2 h2 => ?_)
    fun _ _ h => h.trans h1
  replace h2 := h2.trans h1
  rw [meets_bind]
  refine meets_onWorld (hf.tokenBytes 32) (fun _ _ h => h.trans h2) fun challenge w3 h3 => ?_
  replace h3 := h3.trans h2
  have hrequest : requestOf credential challenge = ⟨credential.rpId, challenge, credential.credentialId, credential.salt⟩ :=
    rfl
  rw [meets_bind, meets_onTokens]
  dsimp only
  rw [← hrequest]
  cases hreply : (lib.getAssertion client (requestOf credential challenge) b2.tokens).1 with
  | raised e => exact h3
  | refused error =>
    rw [meets_bind]
    exact meets_emit env hf fido _ _ _ (fun _ _ h => h.trans h3) fun _ h => h.trans h3
  | ok results =>
    refine (meets_derived_of env hf fido results _).mono ?_ fun _ _ h => h.trans h3
    rintro secret b' ⟨hw, octets, hopen, hprf, hlen⟩
    exact ⟨hw.trans h3, octets, hopen, client, challenge, b2.tokens, results, _, Prod.ext hreply rfl, hprf, hlen⟩

/-- What an enrolment gives: a binding, and what the token derives for it. -/
def Enrols (f : World γ Time → τ) (b : TokenWorld δ γ Time) (found : FidoCredential × ℕ)
    (b' : TokenWorld δ γ Time) : Prop :=
  f b'.world = f b.world ∧ ∃ octets, Open b' found.2 octets ∧ DerivedFrom lib found.1 octets

theorem meets_enrolled (hf : Steady f) (fido : FidoService) (token : FidoService.TokenInfo) (resident : Bool) (pin : Bytes)
    (registration : Fido2.Registration) (b : TokenWorld δ γ Time) :
    (FidoService.enrolled env lib fido token resident pin registration).Meets b (Enrols lib f b)
      fun _ b' => f b'.world = f b.world := by
  unfold FidoService.enrolled
  by_cases henabled : ((registration.results.field (lit "prf")).field (lit "enabled")).isTrue = true
  · rw [if_pos henabled, meets_bind]
    refine meets_onWorld (hf.tokenBytes prfSaltLen) (fun _ _ h => h) fun salt w1 h1 => ?_
    rw [meets_bind]
    refine meets_onWorld (keeps_validated _) (fun _ _ h => h.trans h1) fun credential w2 h2 => ?_
    replace h2 := h2.trans h1
    rw [meets_bind]
    refine (meets_derive_of env lib hf fido credential pin _).mono ?_ fun _ _ h => h.trans h2
    rintro secret b3 ⟨h3, octets, hopen, hderived⟩
    replace h3 := h3.trans h2
    rw [meets_bind]
    exact meets_emit env hf fido _ _ _ (fun _ _ h => h.trans h3) fun w h => ⟨h.trans h3, octets, hopen, hderived⟩
  · rw [if_neg henabled, meets_bind]
    exact meets_emit env hf fido _ _ _ (fun _ _ h => h) fun _ h => h

theorem meets_enroll (hf : Steady f) (fido : FidoService) (pin : Bytes) (userLabel : Str) (resident : Bool)
    (b : TokenWorld δ γ Time) :
    (FidoService.enroll env lib fido pin userLabel resident).Meets b (Enrols lib f b)
      fun _ b' => f b'.world = f b.world := by
  rw [FidoService.enroll, meets_bind]
  refine (keeps_requireToken lib (F := fun b => f b.world) (fun _ _ => rfl)).meets (fun token b1 h1 => ?_) fun _ _ h => h
  by_cases hpin : (! token.hasPin) = true
  · rw [if_pos hpin]
    exact h1
  by_cases hresident : (resident && ! token.supportsResidentKeys) = true
  · rw [if_neg hpin, if_pos hresident]
    exact h1
  rw [if_neg hpin, if_neg hresident, meets_bind]
  refine (keeps_client lib (F := fun b => f b.world) (fun _ _ => rfl) fido pin).meets (fun client b2 h2 => ?_)
    fun _ _ h => h.trans h1
  replace h2 := h2.trans h1
  rw [meets_bind]
  refine meets_onWorld (hf.tokenBytes 16) (fun _ _ h => h.trans h2) fun userId w3 h3 => ?_
  replace h3 := h3.trans h2
  rw [meets_bind]
  refine meets_onWorld (hf.tokenBytes 32) (fun _ _ h => h.trans h3) fun challenge w4 h4 => ?_
  replace h4 := h4.trans h3
  rw [meets_bind, meets_onTokens]
  split
  · exact h4
  · rw [meets_bind]
    exact meets_emit env hf fido _ _ _ (fun _ _ h => h.trans h4) fun _ h => h.trans h4
  · refine (meets_enrolled env lib hf fido token resident pin _ _).mono ?_ fun _ _ h => h.trans h4
    rintro found b' ⟨h, hopen⟩
    exact ⟨h.trans h4, hopen⟩

end Frames

/-! ### What is stored -/

/-- How a slot is made: under the token's secret, or under the emergency
passphrase. -/
inductive MadeFrom (secret tokenSecret : Bytes) (credential : FidoCredential) (emergencyPassphrase : Option Bytes)
    (slot : KeyUnlockSlot) : Prop
  | token (htype : slot.type = .fido) (hfido : slot.fido = some credential)
    (hseals : KeyUnlock.Seals env slot tokenSecret secret)
  | fallback {passphrase key : Bytes} {kdf : KDFFields} (hgiven : emergencyPassphrase = some passphrase)
    (htype : slot.type = .passphrase) (hkdf : slot.kdf = some kdf)
    (hkey : deriveKeyOf env passphrase kdf.salt kdf.toParams = .ok key) (hseals : KeyUnlock.Seals env slot key secret)

section Stored

variable {env : Platform γ Time} {service : EnrolmentService} {secret tokenSecret : Bytes} {credential : FidoCredential}
  {emergencyPassphrase : Option Bytes} {w w' : World γ Time} {τ : Type} {f : World γ Time → τ}

theorem keeps_wrapWithToken (hf : Steady f) : Keeps f (KeyUnlock.wrapWithToken env secret tokenSecret credential) :=
  (keeps_ofExcept _).bind fun _ => (keeps_ofExcept _).bind fun _ => (hf.tokenBytes nonceLen).bind fun _ =>
    (keeps_ofExcept _).bind fun _ => keeps_validated _

theorem keeps_wrapWithPassphrase (hf : Steady f) (passphrase : Bytes) (params : KDFParams) :
    Keeps f (KeyUnlock.wrapWithPassphrase env secret passphrase params) := by
  have hsalt : Keeps f (generateSalt params.saltLen.val) := by
    unfold generateSalt
    split_ifs
    · exact keeps_raise _
    · exact hf.tokenBytes _
  exact (keeps_ofExcept _).bind fun _ => hsalt.bind fun salt => (hf.tokenBytes nonceLen).bind fun _ =>
    (VaultService.keeps_deriveKey env hf.derived passphrase salt params).bind fun _ =>
      (keeps_ofExcept _).bind fun _ => keeps_validated _

theorem keeps_buildSlots (hf : Steady f) :
    Keeps f (buildSlots env service secret tokenSecret credential emergencyPassphrase) := by
  apply (keeps_wrapWithToken hf).bind
  intro slot
  cases emergencyPassphrase with
  | none => exact keeps_pure _
  | some passphrase => exact (keeps_wrapWithPassphrase hf passphrase _).bind fun _ => keeps_pure _

/-- There is a slot for each of the ways in that were asked for. -/
theorem buildSlots_eq_ok {slots : List KeyUnlockSlot}
    (h : (buildSlots env service secret tokenSecret credential emergencyPassphrase).run w = .ok slots w') :
    (∀ slot ∈ slots, MadeFrom env secret tokenSecret credential emergencyPassphrase slot) ∧
      (∃ slot ∈ slots, slot.type = .fido) ∧ (emergencyPassphrase ≠ none → ∃ slot ∈ slots, slot.type = .passphrase) := by
  obtain ⟨slot, w1, h1, h⟩ := run_bind_eq_ok.mp h
  obtain ⟨htype, hfido, hseals⟩ := KeyUnlock.wrapWithToken_eq_ok h1
  have htoken : MadeFrom env secret tokenSecret credential emergencyPassphrase slot := .token htype hfido hseals
  cases emergencyPassphrase with
  | none =>
    obtain ⟨rfl, -⟩ := run_pure_eq_ok.mp h
    exact ⟨by simpa using htoken, ⟨slot, by simp, htype⟩, nofun⟩
  | some passphrase =>
    obtain ⟨fallback, w2, h2, h⟩ := run_bind_eq_ok.mp h
    obtain ⟨rfl, -⟩ := run_pure_eq_ok.mp h
    obtain ⟨htype', kdf, key, hkdf, hkey, hseals'⟩ := KeyUnlock.wrapWithPassphrase_eq_ok h2
    refine ⟨?_, ⟨slot, by simp, htype⟩, fun _ => ⟨fallback, by simp, htype'⟩⟩
    rw [List.forall_mem_cons, List.forall_mem_singleton]
    exact ⟨htoken, .fallback rfl htype' hkdf hkey hseals'⟩

/-- Only the table has changed, by rows of some of the slots. -/
def GrownBy (fpr : Str) (slots : List KeyUnlockSlot) (s s' : Stores γ) : Prop :=
  s'.gnupg = s.gnupg ∧ MetadataStore.Extended fpr slots s.store s'.store

variable {fingerprint fpr event : Str} {slots : List KeyUnlockSlot} {s0 s : Stores γ}

theorem ensures_emitBestEffort (audit : Bool) (outcome : Str) (payload : Dict) {Q : Unit → Stores γ → Prop}
    {E : Exc → Stores γ → Prop} (hQ : Q () s) (hE : ∀ e, E e s) :
    Ensures (SmartcardService.emitBestEffort env audit event outcome payload) s Q E :=
  .of_keeps (keeps_emitBestEffort env steady_stores audit event outcome payload) (fun _ => hQ) hE

/-- The slots that were stored are taken away, as far as that works. -/
theorem ensures_deleteSlots (hm : s0.store.Numbered) : ∀ (stored : List ℕ) {s : Stores γ},
    (∀ id ∈ stored, s0.store.nextSlotId ≤ id) → GrownBy fpr slots s0 s →
      Ensures (deleteSlots stored : Program (World γ Time) Exc Unit) s (fun _ s' => GrownBy fpr slots s0 s')
        fun _ s' => GrownBy fpr slots s0 s'
  | [], _, _, h => .pure h
  | slotId :: stored, s, hids, h => by
    rw [List.forall_mem_cons] at hids
    have hdelete : Ensures (MetadataStore.call (MetadataStore.deleteUnlockSlot slotId) : Program (World γ Time) Exc Unit) s
        (fun _ s' => GrownBy fpr slots s0 s') fun _ s' => GrownBy fpr slots s0 s' := by
      refine (MetadataStore.ensures_deleteUnlockSlot slotId s).mono ?_ ?_
      · rintro ⟨⟩ s' rfl
        exact ⟨h.1, h.2.delete hm hids.1⟩
      · rintro e s' rfl
        exact h
    exact hdelete.bind fun _ s' h' => ensures_deleteSlots hm stored hids.2 h'

/-- The loop stores every slot, or none is left that is not one of them. -/
theorem ensures_storeSlots (hm : s0.store.Numbered) (hfpr : MetadataStore.normalise fingerprint = .ok fpr) :
    ∀ (stored : List ℕ) (rest : List KeyUnlockSlot) {s : Stores γ}, (∀ id ∈ stored, s0.store.nextSlotId ≤ id) →
      (∀ slot ∈ rest, slot ∈ slots) → GrownBy fpr slots s0 s →
        Ensures (storeSlots env service fingerprint event stored rest) s
          (fun _ s' => GrownBy fpr slots s0 s' ∧ (∀ row ∈ s.store.unlockSlots, row ∈ s'.store.unlockSlots) ∧
            ∀ slot ∈ rest, ∃ id, MetadataStore.rowOf fpr (id, slot) ∈ s'.store.unlockSlots)
          fun _ s' => GrownBy fpr slots s0 s'
  | _, [], _, _, _, h => .pure ⟨h, fun _ hrow => hrow, nofun⟩
  | stored, slot :: rest, s, hids, hrest, h => by
    rw [List.forall_mem_cons] at hrest
    have hadd : Ensures (addUnlockSlot fingerprint slot : Program (World γ Time) Exc ℕ) s
        (fun id s' => id = s.store.nextSlotId ∧ s' = { s with store := (MetadataStore.insertSlot fpr slot s.store).2 })
        fun _ s' => s' = s := by
      rw [addUnlockSlot, hfpr]
      exact MetadataStore.ensures_addUnlockSlot fpr slot s
    have hundo : ∀ e s', s' = s → Ensures (do
        deleteSlots stored
        emitFailed env service event (lit "store")
        Program.raise e) s' (fun id s' => id = s.store.nextSlotId ∧
          s' = { s with store := (MetadataStore.insertSlot fpr slot s.store).2 }) fun _ s' => GrownBy fpr slots s0 s' := by
      rintro e s' rfl
      refine (ensures_deleteSlots hm stored hids h).bind fun _ s1 h1 => ?_
      exact (ensures_emitBestEffort _ _ _ h1 fun _ => h1).bind fun _ s2 h2 => .raise h2
    refine (hadd.catching hundo).bind ?_
    rintro id s' ⟨rfl, rfl⟩
    have hgrown : GrownBy fpr slots s0 { s with store := (MetadataStore.insertSlot fpr slot s.store).2 } :=
      ⟨h.1, h.2.insert hrest.1⟩
    refine (ensures_storeSlots hm hfpr (stored ++ [s.store.nextSlotId]) rest ?_ hrest.2 hgrown).mono ?_ fun _ _ h' => h'
    · intro id hid
      rcases List.mem_append.mp hid with hid | hid
      · exact hids id hid
      · rw [List.mem_singleton.mp hid]
        exact h.2.next
    · rintro ⟨⟩ s' ⟨hgrown', hrows, hstored⟩
      refine ⟨hgrown', fun row hrow => hrows row (List.mem_append_left _ hrow), ?_⟩
      rw [List.forall_mem_cons]
      exact ⟨⟨s.store.nextSlotId, hrows _ (List.mem_append_right _ (List.mem_singleton.mpr rfl))⟩, hstored⟩

/-- `_persist` stores every slot, or leaves none that is not one of them. -/
theorem ensures_persist (hm : s.store.Numbered) (hfpr : MetadataStore.normalise fingerprint = .ok fpr) :
    Ensures (persist env service fingerprint slots event) s
      (fun _ s' => GrownBy fpr slots s s' ∧ ∀ slot ∈ slots, ∃ id, MetadataStore.rowOf fpr (id, slot) ∈ s'.store.unlockSlots)
      fun _ s' => GrownBy fpr slots s s' := by
  have hloop : Ensures (storeSlots env service fingerprint event [] slots) s
      (fun _ s' => GrownBy fpr slots s s' ∧ ∀ slot ∈ slots, ∃ id, MetadataStore.rowOf fpr (id, slot) ∈ s'.store.unlockSlots)
      fun _ s' => GrownBy fpr slots s s' := by
    refine (ensures_storeSlots hm hfpr [] slots nofun (fun _ h => h) ⟨rfl, .refl fpr slots s.store⟩).mono ?_
      fun _ _ h => h
    rintro ⟨⟩ s' ⟨hgrown, -, hstored⟩
    exact ⟨hgrown, hstored⟩
  refine hloop.bind ?_
  rintro ⟨⟩ s' h
  exact ensures_emitBestEffort _ _ _ h fun _ => h.1

/-- Nothing but the table is touched. -/
theorem keeps_persist (hf : Steady f) (hstore : ∀ w m, f { w with store := m } = f w) :
    Keeps f (persist env service fingerprint slots event) := by
  have hcall {α : Type} (x : Sql α) : Keeps f (MetadataStore.call x) :=
    MetadataStore.keeps_call hstore hf.faults x
  have hdelete : ∀ stored, Keeps f (deleteSlots stored) := by
    intro stored
    induction stored with
    | nil => exact keeps_pure _
    | cons id stored ih => exact (hcall _).bind fun _ => ih
  have hloop : ∀ rest stored, Keeps f (storeSlots env service fingerprint event stored rest) := by
    intro rest
    induction rest with
    | nil => exact fun _ => keeps_pure _
    | cons slot rest ih =>
      refine fun stored => Keeps.bind (Keeps.catching ?_ fun e => ?_) fun id => ih _
      · exact (keeps_ofExcept _).bind fun _ => hcall _
      · exact (hdelete stored).bind fun _ => (keeps_emitBestEffort env hf _ _ _ _).bind fun _ => keeps_raise e
  exact (hloop slots []).bind fun _ => keeps_emitBestEffort env hf _ _ _ _

end Stored

/-! ### How a creation ends -/

section Ends

variable {env : Platform γ Time} {service : EnrolmentService} {request : GPGService.KeyRequest}
  {secret tokenSecret : Bytes} {credential : FidoCredential} {emergencyPassphrase : Option Bytes} {fingerprint : Str}
  {w w' : World γ Time}

theorem emitBestEffort_ne_error (audit : Bool) (event outcome : Str) (payload : Dict) (e : Exc) :
    (SmartcardService.emitBestEffort env audit event outcome payload).run w ≠ .error e w' := by
  unfold SmartcardService.emitBestEffort
  cases audit with
  | false => exact nofun
  | true =>
    intro h
    obtain ⟨e1, w1, -, h⟩ := run_catching_eq_error.mp h
    cases h

/-- The clean-up never raises. -/
theorem discardUnopenableKey_ne_error (e : Exc) :
    (discardUnopenableKey env service fingerprint secret).run w ≠ .error e w' := by
  intro h
  obtain ⟨e1, w1, -, h⟩ := run_catching_eq_error.mp h
  exact emitBestEffort_ne_error _ _ _ _ e h

/-- A key is created: its slots are built before it, and stored after it. -/
theorem run_createWith_eq_ok
    (h : (createWith env service request secret tokenSecret credential emergencyPassphrase).run w = .ok fingerprint w') :
    ∃ slots w1 w2, (buildSlots env service secret tokenSecret credential emergencyPassphrase).run w = .ok slots w1 ∧
      (GPGService.generateKey env request secret).run w1 = .ok fingerprint w2 ∧
      (persist env service fingerprint slots (lit "key_created_with_token")).run w2 = .ok () w' := by
  obtain ⟨slots, w1, hslots, h⟩ := run_bind_eq_ok.mp h
  obtain ⟨fp, w2, hkey, h⟩ := run_bind_eq_ok.mp h
  obtain ⟨⟨⟩, w3, hpersist, h⟩ := run_bind_eq_ok.mp h
  obtain ⟨rfl, rfl⟩ := run_pure_eq_ok.mp h
  refine ⟨slots, w1, w2, hslots, hkey, (run_catching_eq_ok ?_).mp hpersist⟩
  intro e u a u' hrun
  obtain ⟨⟨⟩, u1, -, hrun⟩ := run_bind_eq_ok.mp hrun
  cases hrun

/-- No key is created: the slots cannot be built, the key is not made, or the
slots cannot be stored and the key is discarded. -/
theorem run_createWith_eq_error {e : Exc}
    (h : (createWith env service request secret tokenSecret credential emergencyPassphrase).run w = .error e w') :
    (buildSlots env service secret tokenSecret credential emergencyPassphrase).run w = .error e w' ∨
      ∃ slots w1, (buildSlots env service secret tokenSecret credential emergencyPassphrase).run w = .ok slots w1 ∧
        ((GPGService.generateKey env request secret).run w1 = .error e w' ∨
          ∃ fingerprint w2 w3, (GPGService.generateKey env request secret).run w1 = .ok fingerprint w2 ∧
            (persist env service fingerprint slots (lit "key_created_with_token")).run w2 = .error e w3 ∧
            (discardUnopenableKey env service fingerprint secret).run w3 = .ok () w') := by
  rcases run_bind_eq_error.mp h with hslots | ⟨slots, w1, hslots, h⟩
  · exact .inl hslots
  refine .inr ⟨slots, w1, hslots, ?_⟩
  rcases run_bind_eq_error.mp h with hkey | ⟨fp, w2, hkey, h⟩
  · exact .inl hkey
  refine .inr ⟨fp, w2, ?_⟩
  rcases run_bind_eq_error.mp h with h | ⟨⟨⟩, w3, -, h⟩
  · obtain ⟨e1, w3, hpersist, h⟩ := run_catching_eq_error.mp h
    rcases run_bind_eq_error.mp h with h | ⟨⟨⟩, w4, hdiscard, h⟩
    · exact (discardUnopenableKey_ne_error e h).elim
    · cases h
      exact ⟨w3, hkey, hpersist, hdiscard⟩
  · cases h

theorem meets_viewOpen {b : TokenWorld δ γ Time} {handle : ℕ} {octets : Bytes} (h : Open b handle octets)
    {Q : Bytes → TokenWorld δ γ Time → Prop} {E : Exc → TokenWorld δ γ Time → Prop} (hQ : Q octets b) :
    (viewSecret handle).Meets b Q E := by
  rw [viewSecret, meets_bind, meets_get, h]
  exact hQ

/-- A secret that is open stays so when there is another one. -/
theorem Open.append {b b' : TokenWorld δ γ Time} {handle : ℕ} {octets : Bytes} (h : Open b handle octets)
    {new : SecureBytes} (hb' : b'.secrets = b.secrets ++ [new]) : Open b' handle octets := by
  unfold Open at h ⊢
  have hlt : handle < b.secrets.length := (List.getElem?_eq_some_iff.mp h).1
  rw [hb', List.getElem?_append_left hlt, h]

/-- A creation is an enrolment that `f` does not see, and then what happens with
both secrets. -/
theorem meets_createKeyWithToken {τ : Type} {f : World γ Time → τ} (hf : Steady f) (pin : Bytes)
    (b : TokenWorld δ γ Time) :
    (createKeyWithToken env lib service request pin emergencyPassphrase).Meets b
      (fun fingerprint b' => ∃ secret tokenSecret credential w, f w = f b.world ∧ DerivedFrom lib credential tokenSecret ∧
        (createWith env service request secret tokenSecret credential emergencyPassphrase).run w = .ok fingerprint b'.world)
      fun e b' => f b'.world = f b.world ∨
        ∃ secret tokenSecret credential w, f w = f b.world ∧ DerivedFrom lib credential tokenSecret ∧
          (createWith env service request secret tokenSecret credential emergencyPassphrase).run w = .error e b'.world := by
  rw [createKeyWithToken, meets_bind]
  refine (keeps_ofExcept (f := fun b : TokenWorld δ γ Time => b) _).meets ?_ ?_
  · rintro user b' rfl
    rw [meets_bind]
    refine (meets_enroll env lib hf service.fido pin _ true b').mono ?_ fun _ _ h => .inl h
    rintro ⟨credential, tokenSecret⟩ b1 ⟨h1, octets, hopen, hderived⟩
    rw [meets_ensuring, meets_bind]
    refine meets_onWorld ((hf.tokenBytes _).bind fun _ => keeps_pure _) (fun _ _ h => .inl (h.trans h1)) ?_
    intro secret w2 h2
    rw [meets_bind]
    set b2 : TokenWorld δ γ Time := { b1 with world := w2, secrets := b1.secrets ++ [{ octets := secret }] }
    have hsecret : Open b2 b1.secrets.length secret := List.getElem?_concat_length
    change Meets _ b2 _ _
    rw [meets_ensuring, meets_bind]
    refine meets_viewOpen hsecret ?_
    rw [meets_bind]
    refine meets_viewOpen (hopen.append rfl) ?_
    rw [onWorld, meets_onPart]
    unfold Meets
    cases hrun : (createWith env service request secret octets credential emergencyPassphrase).run w2 with
    | ok fingerprint w3 => exact ⟨secret, octets, credential, w2, h2.trans h1, hderived, hrun⟩
    | error e w3 => exact .inr ⟨secret, octets, credential, w2, h2.trans h1, hderived, hrun⟩
  · rintro e b' rfl
    exact .inl rfl

end Ends

/-! ### What a creation does to GnuPG and to the table -/

/-- The calls of `delete_key`, with how they ended. -/
def deletions (w : World γ Time) : List (Str × Option Exc) :=
  w.history.filterMap fun
    | .deleteKey fingerprint raised => some (fingerprint, raised)
    | _ => none

theorem deletions_note (w : World γ Time) (fingerprint : Str) (raised : Option Exc) :
    deletions (w.note (.deleteKey fingerprint raised)) = deletions w ++ [(fingerprint, raised)] := List.filterMap_append

theorem steady_deletions : Steady (deletions : World γ Time → List (Str × Option Exc)) where
  audit _ _ := rfl
  faults _ _ := rfl
  random _ _ := rfl
  clock _ _ := rfl
  buffers _ _ := rfl
  emitted _ _ _ _ := List.filterMap_append.trans (List.append_nil _)
  derived _ _ _ _ := List.filterMap_append.trans (List.append_nil _)

/-- GnuPG, the table, and the calls of `delete_key`. -/
def lasting (w : World γ Time) : Stores γ × List (Str × Option Exc) := (w.stores, deletions w)

theorem steady_lasting : Steady (lasting : World γ Time → Stores γ × List (Str × Option Exc)) where
  audit _ _ := rfl
  faults _ _ := rfl
  random _ _ := rfl
  clock _ _ := rfl
  buffers _ _ := rfl
  emitted event w outcome raised := congrArg (Prod.mk _) (steady_deletions.emitted event w outcome raised)
  derived w params n raised := congrArg (Prod.mk _) (steady_deletions.derived w params n raised)

section Lasting

variable {env : Platform γ Time} {lib : Fido2 δ} {service : EnrolmentService} {request : GPGService.KeyRequest}
  {emergencyPassphrase : Option Bytes}

/-- The slots of a new key, ready to be stored. -/
structure Built (env : Platform γ Time) (lib : Fido2 δ) (secret : Bytes) (emergencyPassphrase : Option Bytes)
    (slots : List KeyUnlockSlot) : Prop where
  made : ∃ tokenSecret credential, DerivedFrom lib credential tokenSecret ∧
    ∀ slot ∈ slots, MadeFrom env secret tokenSecret credential emergencyPassphrase slot
  token : ∃ slot ∈ slots, slot.type = .fido
  fallback : emergencyPassphrase ≠ none → ∃ slot ∈ slots, slot.type = .passphrase

/-- A key was made, and of its slots as many have been stored as could be. -/
structure Made (env : Platform γ Time) (lib : Fido2 δ) (request : GPGService.KeyRequest)
    (emergencyPassphrase : Option Bytes) (w : World γ Time) (secret : Bytes) (fingerprint : Str)
    (slots : List KeyUnlockSlot) (w1 w2 w3 : World γ Time) : Prop where
  built : Built env lib secret emergencyPassphrase slots
  start : lasting w1 = lasting w
  generated : (GPGService.generateKey env request secret).run w1 = .ok fingerprint w2
  grown : GrownBy fingerprint slots w2.stores w3.stores
  undeleted : deletions w3 = deletions w

theorem keeps_generateKey {τ : Type} {f : World γ Time → τ} (hf : Calm f) (hg : ∀ w g, f { w with gnupg := g } = f w)
    (secret : Bytes) : Keeps f (GPGService.generateKey env request secret) := by
  have hlist : Keeps f (GPGService.listKeys env true) := keeps_onGnupg hg _
  apply (keeps_ofExcept _).bind
  rintro ⟨userId, args⟩
  apply (keeps_runGpg env hf hg _ _ _ _).bind
  intro proc
  apply (keeps_ofExcept _).bind
  intro _
  have hfp : Keeps f (GPGService.newFingerprint env userId (Gpg.parseStatus proc.status)) := by
    unfold GPGService.newFingerprint
    split_ifs
    · exact keeps_pure _
    · exact hlist.bind fun _ => keeps_pure _
  apply hfp.bind
  intro fp
  split_ifs
  · exact keeps_raise _
  · exact keeps_ofExcept _

/-! ### What GnuPG keeps -/

section Stays

variable {I : γ → Prop} {α : Type}

/-- A step that is none of GnuPG's. -/
theorem stays_of_keeps {x : Program (World γ Time) Exc α} (h : Keeps World.gnupg x) :
    Stays (fun w => I w.gnupg) (fun _ => True) x := by
  intro w hw
  refine h.meets (fun _ w' h' => ?_) fun _ w' h' => ⟨?_, trivial⟩
  · show I w'.gnupg
    rw [h']
    exact hw
  · show I w'.gnupg
    rw [h']
    exact hw

theorem stays_onGnupg {f : γ → Except Exc α × γ} (h : ∀ g r g', f g = (r, g') → I g → I g') :
    Stays (fun w => I w.gnupg) (fun _ => True) (GPGService.onGnupg f : Program (World γ Time) Exc α) := by
  intro w hw
  unfold Meets GPGService.onGnupg
  simp only [EStateM.run]
  rcases hf : f w.gnupg with ⟨_ | _, g'⟩
  · exact ⟨h _ _ _ hf hw, trivial⟩
  · exact h _ _ _ hf hw

theorem stays_runGpg {args : List Str} {input passphrase : Option Bytes} {statusFd : Bool}
    (h : ∀ g r g', env.gpg.popen args input passphrase g = (r, g') → I g → I g') :
    Stays (fun w => I w.gnupg) (fun _ => True) (GPGService.runGpg env args input passphrase statusFd) := by
  have hsys : Stays (fun w : World γ Time => I w.gnupg) (fun _ => True) syscall :=
    stays_of_keeps fun w => congrArg Stores.gnupg (steady_stores.syscall w)
  exact hsys.bind fun _ => (Stays.ofExcept fun _ _ => trivial).bind fun _ => hsys.bind fun _ => Stays.get.bind fun _ =>
    (Stays.ofExcept fun _ _ => trivial).bind fun _ => (stays_onGnupg h).bind fun _ => .pure _

/-- What every run for a new key keeps, and every listing. -/
theorem stays_generateKey {secret : Bytes}
    (hpopen : ∀ args g r g', env.gpg.popen (lit "--yes" :: lit "--quick-generate-key" :: args) none (some secret) g =
      (r, g') → I g → I g')
    (hlist : ∀ g r g', env.gpg.listKeys true g = (r, g') → I g → I g') :
    Stays (fun w => I w.gnupg) (fun _ => True) (GPGService.generateKey env request secret) := by
  have hexcept {α : Type} (r : Except Exc α) :
      Stays (fun w : World γ Time => I w.gnupg) (fun _ => True) (Program.ofExcept r) := .ofExcept fun _ _ => trivial
  intro w hw
  rw [GPGService.generateKey, meets_bind]
  cases hcheck : GPGService.checkRequest env request secret with
  | error e => exact ⟨hw, trivial⟩
  | ok checked =>
    obtain ⟨userId, args⟩ := checked
    obtain ⟨rest, rfl⟩ := GPGService.checkRequest_args hcheck
    refine ((stays_runGpg (hpopen rest)).bind fun proc => (hexcept _).bind fun _ => Stays.bind ?_ fun fp => ?_) w hw
    · unfold GPGService.newFingerprint
      split_ifs
      · exact .pure _
      · exact (stays_onGnupg hlist).bind fun _ => .pure _
    · split_ifs
      · exact .raise trivial
      · exact hexcept _

/-- What every deletion keeps, and every listing. -/
theorem stays_deleteKey {fingerprint : Str} {passphrase : Option Bytes}
    (hpopen : ∀ fp g r g', env.gpg.popen (GPGService.deleteArgs fp true) none passphrase g = (r, g') → I g → I g')
    (hlist : ∀ g r g', env.gpg.listKeys false g = (r, g') → I g → I g') :
    Stays (fun w => I w.gnupg) (fun _ => True) (GPGService.deleteKey env fingerprint true passphrase) := by
  have hexcept {α : Type} (r : Except Exc α) :
      Stays (fun w : World γ Time => I w.gnupg) (fun _ => True) (Program.ofExcept r) := .ofExcept fun _ _ => trivial
  have hfind (fp : Str) : Stays (fun w : World γ Time => I w.gnupg) (fun _ => True) (GPGService.findKey env fp) := by
    refine (hexcept _).bind fun fp => (stays_onGnupg hlist).bind fun keys => ?_
    cases keys.find? (·.fingerprint = fp) with
    | some key => exact .pure _
    | none => exact .raise trivial
  intro w hw
  rw [GPGService.deleteKey, meets_recorded]
  refine ((hexcept _).bind fun fp => (stays_runGpg (hpopen fp)).bind fun proc => (hexcept _).bind fun _ =>
    Stays.bind (((hfind fp).bind fun _ => .pure _).catching fun e _ => ?_) fun found => ?_) w hw
  · split_ifs
    · exact .pure _
    · exact .raise trivial
  · split_ifs
    · exact .raise trivial
    · exact .pure _

end Stays

/-- The key that is made has a fingerprint in its normal form. -/
theorem normalise_of_generateKey {secret : Bytes} {fingerprint : Str} {w w' : World γ Time}
    (h : (GPGService.generateKey env request secret).run w = .ok fingerprint w') :
    MetadataStore.normalise fingerprint = .ok fingerprint := by
  have hvalid : GPGService.validateFingerprint fingerprint = .ok fingerprint := by
    obtain ⟨userId, args, out, g', -, -, -, -, hfrom⟩ := GPGService.generateKey_eq_ok h
    rcases hfrom with ⟨-, hvalid, -⟩ | ⟨-, keys, -, -, hvalid⟩
    · exact GPGService.validateFingerprint_idem hvalid
    · exact GPGService.validateFingerprint_idem hvalid
  unfold GPGService.validateFingerprint at hvalid
  unfold MetadataStore.normalise
  cases hn : normaliseFingerprint fingerprint with
  | none => simp [hn] at hvalid
  | some fp =>
    simp only [hn, Except.ok.injEq] at hvalid
    rw [hvalid]

/-- The slots are built without a trace, and then the key is made. -/
theorem made_of_run {secret tokenSecret : Bytes} {credential : FidoCredential} {fingerprint : Str}
    {slots : List KeyUnlockSlot} {w w0 w1 w2 w3 : World γ Time} (hstart : lasting w0 = lasting w)
    (hderived : DerivedFrom lib credential tokenSecret)
    (hslots : (buildSlots env service secret tokenSecret credential emergencyPassphrase).run w0 = .ok slots w1)
    (hkey : (GPGService.generateKey env request secret).run w1 = .ok fingerprint w2)
    (hgrown : GrownBy fingerprint slots w2.stores w3.stores) (hkept : deletions w3 = deletions w2) :
    Made env lib request emergencyPassphrase w secret fingerprint slots w1 w2 w3 := by
  obtain ⟨hmade, htoken, hfallback⟩ := buildSlots_eq_ok hslots
  have hlasting : lasting w1 = lasting w := ((keeps_buildSlots steady_lasting).of_run_eq_ok hslots).trans hstart
  have hdeletions : deletions w2 = deletions w1 :=
    (keeps_generateKey steady_deletions.toCalm (fun _ _ => rfl) secret).of_run_eq_ok hkey
  exact ⟨⟨⟨tokenSecret, credential, hderived, hmade⟩, htoken, hfallback⟩, hlasting, hkey, hgrown,
    (hkept.trans hdeletions).trans (congrArg Prod.snd hlasting)⟩

theorem keeps_deletions_persist (fingerprint : Str) (slots : List KeyUnlockSlot) (event : Str) :
    Keeps deletions (persist env service fingerprint slots event) := keeps_persist steady_deletions fun _ _ => rfl

theorem calm_store : Calm (World.store : World γ Time → MetadataStore) :=
  ⟨fun _ _ => rfl, fun _ _ => rfl, fun _ _ => rfl, fun _ _ => rfl, fun _ _ => rfl⟩

theorem keeps_store_generateKey {secret : Bytes} : Keeps World.store (GPGService.generateKey env request secret) :=
  keeps_generateKey calm_store (fun _ _ => rfl) secret

/-- The table is as it was when the slots of the new key are stored. -/
theorem numbered_of_generateKey {secret : Bytes} {fingerprint : Str} {w w1 w2 : World γ Time} (hm : w.store.Numbered)
    (hstart : lasting w1 = lasting w) (hkey : (GPGService.generateKey env request secret).run w1 = .ok fingerprint w2) :
    w2.stores.store.Numbered := by
  have hstore : w2.store = w1.store := keeps_store_generateKey.of_run_eq_ok hkey
  have hstart' : w1.store = w.store := congrArg (fun l => l.1.store) hstart
  change w2.store.Numbered
  rw [hstore, hstart']
  exact hm

/-- **A creation that returns** has made a key and stored its slots. -/
theorem createKeyWithToken_eq_ok {pin : Bytes} {b b' : TokenWorld δ γ Time} {fingerprint : Str}
    (hm : b.world.store.Numbered)
    (h : (createKeyWithToken env lib service request pin emergencyPassphrase).run b = .ok fingerprint b') :
    ∃ secret slots w1 w2, Made env lib request emergencyPassphrase b.world secret fingerprint slots w1 w2 b'.world ∧
      ∀ slot ∈ slots, ∃ id, MetadataStore.rowOf fingerprint (id, slot) ∈ b'.world.store.unlockSlots := by
  obtain ⟨secret, tokenSecret, credential, w, hstart, hderived, hrun⟩ :=
    (meets_createKeyWithToken lib steady_lasting pin b).of_run_eq_ok h
  obtain ⟨slots, w1, w2, hslots, hkey, hpersist⟩ := run_createWith_eq_ok hrun
  have hstart' : lasting w1 = lasting b.world := ((keeps_buildSlots steady_lasting).of_run_eq_ok hslots).trans hstart
  obtain ⟨hgrown, hstored⟩ := (ensures_persist (numbered_of_generateKey hm hstart' hkey)
    (normalise_of_generateKey hkey)).of_run_eq_ok hpersist
  have hkept := (keeps_deletions_persist fingerprint slots _).of_run_eq_ok hpersist
  exact ⟨secret, slots, w1, w2, made_of_run hstart hderived hslots hkey hgrown hkept, hstored⟩

/-- **A creation that raises** has left everything as it was, or it is
`generate_key` that has raised, or a key was made and has been discarded. -/
theorem createKeyWithToken_eq_error {pin : Bytes} {b b' : TokenWorld δ γ Time} {e : Exc} (hm : b.world.store.Numbered)
    (h : (createKeyWithToken env lib service request pin emergencyPassphrase).run b = .error e b') :
    lasting b'.world = lasting b.world ∨
      (∃ secret w1, lasting w1 = lasting b.world ∧
        (GPGService.generateKey env request secret).run w1 = .error e b'.world) ∨
      ∃ secret fingerprint slots w1 w2 w3,
        Made env lib request emergencyPassphrase b.world secret fingerprint slots w1 w2 w3 ∧
        (discardUnopenableKey env service fingerprint secret).run w3 = .ok () b'.world := by
  rcases (meets_createKeyWithToken lib steady_lasting pin b).of_run_eq_error h with
    hsame | ⟨secret, tokenSecret, credential, w, hstart, hderived, hrun⟩
  · exact .inl hsame
  rcases run_createWith_eq_error hrun with hslots |
    ⟨slots, w1, hslots, hkey | ⟨fingerprint, w2, w3, hkey, hpersist, hdiscard⟩⟩
  · exact .inl (((keeps_buildSlots steady_lasting).of_run_eq_error hslots).trans hstart)
  · exact .inr (.inl ⟨secret, w1, ((keeps_buildSlots steady_lasting).of_run_eq_ok hslots).trans hstart, hkey⟩)
  · have hstart' : lasting w1 = lasting b.world := ((keeps_buildSlots steady_lasting).of_run_eq_ok hslots).trans hstart
    have hgrown := (ensures_persist (numbered_of_generateKey hm hstart' hkey)
      (normalise_of_generateKey hkey)).of_run_eq_error hpersist
    have hkept := (keeps_deletions_persist fingerprint slots _).of_run_eq_error hpersist
    exact .inr (.inr ⟨secret, fingerprint, slots, w1, w2, w3,
      made_of_run hstart hderived hslots hkey hgrown hkept, hdiscard⟩)

variable (env) in
/-- A deletion is written down, and does nothing else but with GnuPG. -/
theorem deleteKey_eq_recorded (fingerprint : Str) (passphrase : Option Bytes) :
    ∃ x, GPGService.deleteKey env fingerprint true passphrase = recorded (.deleteKey fingerprint) x ∧
      ∀ {τ : Type} {f : World γ Time → τ}, Calm f → (∀ w g, f { w with gnupg := g } = f w) → Keeps f x := by
  refine ⟨_, rfl, fun {τ f} hf hg => ?_⟩
  apply (keeps_ofExcept _).bind
  intro fp
  apply (keeps_runGpg env hf hg _ _ _ _).bind
  intro proc
  apply (keeps_ofExcept _).bind
  intro _
  apply Keeps.bind
  · refine Keeps.catching ((keeps_findKey env hg fp).bind fun _ => keeps_pure _) fun e => ?_
    split_ifs
    · exact keeps_pure _
    · exact keeps_raise _
  · intro found
    split_ifs
    · exact keeps_raise _
    · exact keeps_pure _

/-- A deletion that raises is written down. -/
theorem deletions_of_deleteKey_error {fingerprint : Str} {passphrase : Option Bytes} {e : Exc} {w w' : World γ Time}
    (h : (GPGService.deleteKey env fingerprint true passphrase).run w = .error e w') :
    deletions w' = deletions w ++ [(fingerprint, some e)] := by
  obtain ⟨x, hx, hkeeps⟩ := deleteKey_eq_recorded env fingerprint passphrase
  rw [hx] at h
  obtain ⟨w1, hbody, rfl⟩ := run_recorded_eq_error.mp h
  rw [deletions_note]
  congr 1
  exact (hkeeps steady_deletions.toCalm fun _ _ => rfl).of_run_eq_error hbody

theorem keeps_store_discardUnopenableKey {fingerprint : Str} {secret : Bytes} :
    Keeps World.store (discardUnopenableKey env service fingerprint secret) := by
  obtain ⟨x, hx, hkeeps⟩ := deleteKey_eq_recorded env fingerprint (some secret)
  have hemit : Keeps World.store (emitFailed env service (lit "key_created_with_token") (lit "orphan_key")) := fun w =>
    congrArg Stores.store (keeps_emitBestEffort env steady_stores _ _ _ _ w)
  rw [discardUnopenableKey, hx]
  exact ((hkeeps calm_store fun _ _ => rfl).recorded fun _ _ => rfl).catching fun _ => hemit

/-- The clean-up deletes the key, or `delete_key` raises. -/
theorem discardUnopenableKey_eq_ok {keyring : γ → Keyring} (hl : env.gpg.Lists keyring) (hd : env.gpg.Deletes keyring)
    {fingerprint : Str} (hfp : GPGService.validateFingerprint fingerprint = .ok fingerprint) {secret : Bytes}
    {w w' : World γ Time} (h : (discardUnopenableKey env service fingerprint secret).run w = .ok () w') :
    w'.store = w.store ∧ (∀ k ≠ fingerprint, keyring w'.gnupg k = keyring w.gnupg k) ∧
      (keyring w'.gnupg fingerprint = none ∨ ∃ e, deletions w' = deletions w ++ [(fingerprint, some e)]) := by
  have hensures := GPGService.ensures_deleteKey (s := w.stores) hl hd hfp (some secret)
  unfold discardUnopenableKey at h
  rw [run_catching] at h
  cases hrun : (GPGService.deleteKey env fingerprint true (some secret)).run w with
  | ok u w1 =>
    rw [hrun] at h
    cases h
    obtain ⟨hk, hstore⟩ := hensures.of_run_eq_ok hrun
    have hkeyring : keyring w'.gnupg = (keyring w.gnupg).erase fingerprint := hk
    refine ⟨hstore, fun k hne => ?_, .inl ?_⟩
    · rw [hkeyring, Keyring.erase, Function.update_of_ne hne]
    · rw [hkeyring, Keyring.erase, Function.update_self]
  | error e w1 =>
    rw [hrun] at h
    obtain ⟨hothers, hstore⟩ := hensures.of_run_eq_error hrun
    have hlasting : lasting w' = lasting w1 := (keeps_emitBestEffort env steady_lasting _ _ _ _).of_run_eq_ok h
    have hstores : w'.stores = w1.stores := congrArg Prod.fst hlasting
    have hgnupg : w'.gnupg = w1.gnupg := congrArg Stores.gnupg hstores
    refine ⟨(congrArg Stores.store hstores).trans hstore, fun k hne => ?_, .inr ⟨e, ?_⟩⟩
    · rw [hgnupg]
      exact hothers k hne
    · rw [← deletions_of_deleteKey_error hrun]
      exact congrArg Prod.snd hlasting

end Lasting

end KeyUnlockService
end GpgMeister
