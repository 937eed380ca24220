/-
# Unlocking a key with a token

`unlock_with_token` of `services/key_unlock_service.py`: the slots of a key that
a token can open are tried in order. A slot that its token does not open is
passed over; a wrong PIN, a token that was not touched or no token at all is
not.

* `unlocksInOrder_iff`: exactly when the first slot that opens is the one whose
  secret is returned. What a token raises that is no error of a service ends
  the search, whatever the slots after it hold.
-/
import GpgMeister.Lib.FirstOf
import GpgMeister.Services.FidoService
import GpgMeister.Storage.MetadataStore

namespace GpgMeister

variable {δ γ Time : Type}

/-- The service: the tokens, and whether it has an audit log. -/
structure KeyUnlockService where
  fido : FidoService
  audit : Bool

namespace KeyUnlockService

variable (env : Platform γ Time) (lib : Fido2 δ) (service : KeyUnlockService)

def unlockError (cls : ErrorClass) (message : Str) : Exc where
  cls := cls
  message := message

/-- `_emit` -/
def emit (event outcome : Str) : Program (TokenWorld δ γ Time) Exc Unit :=
  onWorld (SmartcardService.emitBestEffort env service.audit event outcome { items := [], unique := Dict.evaluated })

/-- `_is_fatal_token_error` -/
def isFatalTokenError (e : Exc) : Bool := e.isA [.fidoPinError, .fidoTouchError, .fidoUnavailableError]

/-- The slots of the key, as the store gives them. -/
def storedSlots (fingerprint : Str) : Program (TokenWorld δ γ Time) Exc (List (ℕ × KeyUnlockSlot)) :=
  onWorld do
    let fpr ← Program.ofExcept (MetadataStore.normalise fingerprint)
    MetadataStore.call (MetadataStore.unlockSlotsOf env.pydantic fpr)

/-- `slot.type is UnlockSlotType.FIDO` -/
def fidoSlots (stored : List (ℕ × KeyUnlockSlot)) : List KeyUnlockSlot :=
  (stored.map Prod.snd).filter (·.type = .fido)

/-- The slots with their bindings; a slot without one is passed over. -/
def withBinding (slots : List KeyUnlockSlot) : List (KeyUnlockSlot × FidoCredential) :=
  slots.filterMap fun slot => slot.fido.map fun credential => (slot, credential)

/-- `with self._fido.derive(slot.fido, …) as token_secret: unwrap_with_token(slot, token_secret)` -/
def openSlot (pin : Bytes) (slot : KeyUnlockSlot × FidoCredential) : Program (TokenWorld δ γ Time) Exc Bytes := do
  let tokenSecret ← FidoService.derive env lib service.fido slot.2 pin
  Program.ensuring (do Program.ofExcept (KeyUnlock.unwrapWithToken env slot.1 (← viewSecret tokenSecret)))
    (closeSecret tokenSecret)

/-- What the loop goes on after. -/
def isPassedOver (e : Exc) : Bool := e.isA [.decryptionError] || (e.isA [.serviceError] && ! isFatalTokenError e)

/-- The loop, and what comes after it. -/
def tryTokens (pin : Bytes) (slots : List KeyUnlockSlot) : Program (TokenWorld δ γ Time) Exc Bytes :=
  Program.firstOf (openSlot env lib service pin) isPassedOver
    (fun _ => do
      emit env service (lit "key_unlocked_with_token") (lit "failed")
      Program.raise (unlockError .keyUnlockError (lit "no enrolled security key could open this key")))
    (withBinding slots) none

/-- `unlock_with_token` -/
def unlockWithToken (fingerprint : Str) (pin : Bytes) : Program (TokenWorld δ γ Time) Exc Bytes := do
  let slots := fidoSlots (← storedSlots env fingerprint)
  if slots = [] then
    Program.raise (unlockError .noUnlockMethodError (lit "no security key is enrolled for this key"))
  else do
    let secret ← tryTokens env lib service pin slots
    emit env service (lit "key_unlocked_with_token") (lit "ok")
    return secret

/-! ### The order of the slots -/

variable (fingerprint : Str) (pin : Bytes)

/-- **The slots are tried in order.** -/
structure UnlocksInOrder (b : TokenWorld δ γ Time) : Prop where
  /-- The secret of the first slot that opens is returned, if no slot before it
  has met an error of the PIN, the touch or the presence. -/
  first : ∀ stored b1 before secret b2, (storedSlots env fingerprint).run b = .ok stored b1 →
    (∃ s, Program.AllRaise (openSlot env lib service pin) (fun _ e => isFatalTokenError e = false) before b1 s) →
    Program.FirstWorks (openSlot env lib service pin) (withBinding (fidoSlots stored)) b1 before secret b2 →
    ∃ b3, (unlockWithToken env lib service fingerprint pin).run b = .ok secret b3
  /-- A call of `derive` that ends in such an error is the last one, and its
  error is raised; so the token rejects the PIN at most once. -/
  fatal : ∃ calls, ((unlockWithToken env lib service fingerprint pin).after b).derivations = b.derivations ++ calls ∧
    (∀ earlier call later e, calls = earlier ++ call :: later → call.raised = some e → isFatalTokenError e = true →
      later = [] ∧ ∃ b', (unlockWithToken env lib service fingerprint pin).run b = .error e b') ∧
    (calls.filter fun call => call.raised.any (·.isA [.fidoPinError])).length ≤ 1
  /-- The secrets that were derived are closed. -/
  closed : ∃ secrets, ((unlockWithToken env lib service fingerprint pin).after b).secrets = b.secrets ++ secrets ∧
    ∀ secret ∈ secrets, secret.isClosed = true

/-- No token raises anything but an error of a service before the first slot
that opens: no error of the device, of the text of the PIN, or of the callback
for a touch. -/
def OnlyServiceErrors (b : TokenWorld δ γ Time) : Prop :=
  ∀ stored b1 before secret b2, (storedSlots env fingerprint).run b = .ok stored b1 →
    (∃ s, Program.AllRaise (openSlot env lib service pin) (fun _ e => isFatalTokenError e = false) before b1 s) →
    Program.FirstWorks (openSlot env lib service pin) (withBinding (fidoSlots stored)) b1 before secret b2 →
    ∀ earlier slot later s1 e s2, before = earlier ++ slot :: later →
      Program.AllRaise (openSlot env lib service pin) (fun _ _ => True) earlier b1 s1 →
      (FidoService.derive env lib service.fido slot.2 pin).run s1 = .error e s2 →
      e.isA [.decryptionError, .serviceError] = true

/-! ### What a call of `derive` leaves behind -/

/-- The secrets and the calls. -/
def tokenLogs (b : TokenWorld δ γ Time) : List SecureBytes × List DeriveCall := (b.secrets, b.derivations)

open Program

section Frames

variable {α : Type}

theorem keeps_onWorld (x : Program (World γ Time) Exc α) :
    Keeps tokenLogs (onWorld x : Program (TokenWorld δ γ Time) Exc α) :=
  keeps_onPart TokenWorld.world (fun w b => { b with world := w }) (fun _ _ => rfl) x

variable {τ : Type} {F : TokenWorld δ γ Time → τ} (hF : ∀ b tokens, F { b with tokens := tokens } = F b)
include hF

theorem keeps_onTokens (f : δ → α × δ) : Keeps F (onTokens f : Program (TokenWorld δ γ Time) Exc α) :=
  fun b => hF b _

theorem keeps_probe : Keeps F (FidoService.probe lib : Program (TokenWorld δ γ Time) Exc _) := by
  apply (keeps_onTokens hF _).bind
  intro device
  match device with
  | .error e =>
    by_cases h : e.isA [.osError] = true
    · simp only [if_pos h]
      exact keeps_pure _
    · simp only [if_neg h]
      exact keeps_raise _
  | .ok none => exact keeps_pure _
  | .ok (some device) =>
    apply (keeps_onTokens hF _).bind
    intro info
    match info with
    | .error none => exact keeps_pure _
    | .error (some e) =>
      by_cases h : e.isA [.osError, .valueError] = true
      · simp only [if_pos h]
        exact keeps_pure _
      · simp only [if_neg h]
        exact keeps_raise _
    | .ok info => exact keeps_pure _

theorem keeps_requireToken : Keeps F (FidoService.requireToken lib : Program (TokenWorld δ γ Time) Exc _) := by
  apply (keeps_probe lib hF).bind
  intro found
  obtain ⟨token, reason⟩ := found
  cases token with
  | none => exact keeps_raise _
  | some token =>
    by_cases h : token.isUsable = true
    · simp only [if_pos h]
      exact keeps_pure _
    · simp only [if_neg h]
      exact keeps_raise _

theorem keeps_client (fido : FidoService) (pin : Bytes) :
    Keeps F (FidoService.client lib fido pin : Program (TokenWorld δ γ Time) Exc _) := by
  apply (keeps_onTokens hF _).bind
  intro device
  apply (keeps_ofExcept _).bind
  intro device
  cases device with
  | none => exact keeps_raise _
  | some device =>
    apply (keeps_onTokens hF _).bind
    intro connected
    apply (keeps_ofExcept _).bind
    intro _
    exact keeps_pure _

end Frames

theorem meets_recordedCall {α : Type} {credential : FidoCredential} {x : Program (TokenWorld δ γ Time) Exc α}
    {b : TokenWorld δ γ Time} {Q : α → TokenWorld δ γ Time → Prop} {E : Exc → TokenWorld δ γ Time → Prop} :
    (recordedCall credential x).Meets b Q E ↔
      x.Meets b (fun a b' => Q a { b' with derivations := b'.derivations ++ [{ credential, raised := none }] })
        fun e b' => E e { b' with derivations := b'.derivations ++ [{ credential, raised := some e }] } := by
  unfold Meets recordedCall
  simp only [EStateM.run]
  cases x b <;> exact Iff.rfl

/-- A step that touches neither the secrets nor the calls, in front of others. -/
theorem meets_bind_of_keeps {α β : Type} {x : Program (TokenWorld δ γ Time) Exc α}
    {f : α → Program (TokenWorld δ γ Time) Exc β} {b : TokenWorld δ γ Time} {Q : β → TokenWorld δ γ Time → Prop}
    {E : Exc → TokenWorld δ γ Time → Prop} (hx : Keeps tokenLogs x) (hE : ∀ e b', tokenLogs b' = tokenLogs b → E e b')
    (hf : ∀ a b', tokenLogs b' = tokenLogs b → (f a).Meets b' Q E) : (x >>= f).Meets b Q E := by
  rw [meets_bind]
  exact hx.meets hf hE

/-- What a call of `derive` gives: a secret of the right length. -/
theorem meets_derived (fido : FidoService) (results : Fido2.Value) (b : TokenWorld δ γ Time) :
    (FidoService.derived env fido results).Meets b
      (fun secret b' => secret = b.secrets.length ∧ b'.derivations = b.derivations ∧
        ∃ octets : Bytes, octets.length = KeyUnlock.tokenSecretLen ∧ b'.secrets = b.secrets ++ [{ octets := octets }])
      fun _ b' => tokenLogs b' = tokenLogs b := by
  unfold FidoService.derived
  cases FidoService.prfOutput results with
  | none => exact meets_bind_of_keeps (keeps_onWorld _) (fun _ _ h => h) fun _ _ h => meets_raise.mpr h
  | some raw =>
    dsimp only
    by_cases hlen : raw.length = KeyUnlock.tokenSecretLen
    · simp only [if_pos hlen]
      refine meets_bind_of_keeps (keeps_onWorld _) (fun _ _ h => h) fun _ b' h => ?_
      obtain ⟨hsecrets, hderivations⟩ : b'.secrets = b.secrets ∧ b'.derivations = b.derivations := by
        simpa [tokenLogs] using h
      refine ⟨by rw [hsecrets], hderivations, raw, hlen, ?_⟩
      change b'.secrets ++ [_] = _
      rw [hsecrets]
    · simp only [if_neg hlen]
      exact meets_bind_of_keeps (keeps_onWorld _) (fun _ _ h => h) fun _ _ h => meets_raise.mpr h

/-- What a call of `derive` adds: its record, and a secret if it returns. -/
theorem meets_derive (fido : FidoService) (credential : FidoCredential) (b : TokenWorld δ γ Time) :
    (FidoService.derive env lib fido credential pin).Meets b
      (fun secret b' => secret = b.secrets.length ∧
        b'.derivations = b.derivations ++ [{ credential, raised := none }] ∧
        ∃ octets : Bytes, octets.length = KeyUnlock.tokenSecretLen ∧ b'.secrets = b.secrets ++ [{ octets := octets }])
      fun e b' => b'.derivations = b.derivations ++ [{ credential, raised := some e }] ∧ b'.secrets = b.secrets := by
  rw [FidoService.derive, meets_recordedCall]
  have hraise : ∀ (e : Exc) (b' : TokenWorld δ γ Time), tokenLogs b' = tokenLogs b →
      b'.derivations ++ [{ credential, raised := some e }] = b.derivations ++ [{ credential, raised := some e }] ∧
        b'.secrets = b.secrets := by
    intro e b' h
    obtain ⟨hsecrets, hderivations⟩ : b'.secrets = b.secrets ∧ b'.derivations = b.derivations := by
      simpa [tokenLogs] using h
    exact ⟨by rw [hderivations], hsecrets⟩
  refine meets_bind_of_keeps (keeps_requireToken lib fun _ _ => rfl) hraise fun _ b1 h1 => ?_
  refine meets_bind_of_keeps (keeps_client lib (fun _ _ => rfl) fido pin)
    (fun e b' h => hraise e b' (h.trans h1)) fun client b2 h2 => ?_
  replace h2 := h2.trans h1
  refine meets_bind_of_keeps (keeps_onWorld _) (fun e b' h => hraise e b' (h.trans h2)) fun challenge b3 h3 => ?_
  replace h3 := h3.trans h2
  refine meets_bind_of_keeps (keeps_onTokens (fun _ _ => rfl) _)
    (fun e b' h => hraise e b' (h.trans h3)) fun reply b4 h4 => ?_
  replace h4 := h4.trans h3
  cases reply with
  | raised e => exact hraise e b4 h4
  | refused error =>
    exact meets_bind_of_keeps (keeps_onWorld _) (fun e b' h => hraise e b' (h.trans h4)) fun _ b5 h5 =>
      hraise _ b5 (h5.trans h4)
  | ok results =>
    obtain ⟨hsecrets, hderivations⟩ : b4.secrets = b.secrets ∧ b4.derivations = b.derivations := by
      simpa [tokenLogs] using h4
    refine (meets_derived env fido results b4).mono ?_ fun e b' h => hraise e b' (h.trans h4)
    intro secret b' h
    obtain ⟨hsecret, hderivations', octets, hlen, hnew⟩ := h
    refine ⟨by rw [hsecret, hsecrets], ?_, octets, hlen, by rw [hnew, hsecrets]⟩
    change b'.derivations ++ _ = _
    rw [hderivations', hderivations]

/-! ### What a slot's turn leaves behind -/

theorem modify_length_append {α : Type} (f : α → α) (l : List α) (a : α) :
    (l ++ [a]).modify l.length f = l ++ [f a] := by
  induction l with
  | nil => rfl
  | cons c l ih => simp [ih]

/-- The octets of a secret that was just derived. -/
theorem meets_viewSecret {b : TokenWorld δ γ Time} {secrets : List SecureBytes} {octets : Bytes}
    (h : b.secrets = secrets ++ [{ octets := octets }]) :
    (viewSecret secrets.length).Meets b (fun raw b' => raw = octets ∧ b' = b) fun _ _ => False := by
  have hlast : b.secrets[secrets.length]? = some { octets := octets } := by simp [h]
  rw [viewSecret, meets_bind, meets_get, hlast]
  exact ⟨rfl, rfl⟩

/-- A slot's turn is one call of `derive`, and the secret it gives is closed;
what the call does not raise is a `DecryptionError`. -/
theorem meets_openSlot {slot : KeyUnlockSlot × FidoCredential} (hs : slot.1.type = .fido)
    (b : TokenWorld δ γ Time) :
    (openSlot env lib service pin slot).Meets b
      (fun _ b' => b'.derivations = b.derivations ++ [{ credential := slot.2, raised := none }] ∧
        ∃ secret : SecureBytes, secret.isClosed = true ∧ b'.secrets = b.secrets ++ [secret])
      fun e b' => ∃ raised secrets, b'.derivations = b.derivations ++ [{ credential := slot.2, raised := raised }] ∧
        b'.secrets = b.secrets ++ secrets ∧ (∀ secret ∈ secrets, secret.isClosed = true) ∧
        (raised = some e ∧ (FidoService.derive env lib service.fido slot.2 pin).run b = .error e b' ∨
          raised = none ∧ e.cls = .decryptionError) := by
  have hderive := meets_derive env lib pin service.fido slot.2 b
  unfold openSlot
  rw [meets_bind]
  unfold Meets at hderive
  unfold Meets
  cases hrun : (FidoService.derive env lib service.fido slot.2 pin).run b with
  | error e b1 =>
    rw [hrun] at hderive
    obtain ⟨hcalls, hsecrets⟩ := hderive
    exact ⟨some e, [], hcalls, by rw [hsecrets, List.append_nil], by simp, .inl ⟨rfl, rfl⟩⟩
  | ok secret b1 =>
    rw [hrun] at hderive
    obtain ⟨rfl, hcalls, octets, hlen, hsecrets⟩ := hderive
    -- whatever the slot holds, the secret is closed after it
    have hclosed : ({ b1 with secrets := b1.secrets.modify b.secrets.length SecureBytes.close } :
        TokenWorld δ γ Time).secrets = b.secrets ++ [SecureBytes.close { octets := octets }] := by
      simp only [hsecrets, modify_length_append]
    refine (meets_ensuring (s := b1)).mpr ?_
    rw [meets_bind]
    refine (meets_viewSecret hsecrets).mono ?_ fun _ _ h => h.elim
    intro raw b2 h
    obtain ⟨rfl, rfl⟩ := h
    cases hopen : KeyUnlock.unwrapWithToken env slot.1 raw with
    | ok key => exact ⟨hcalls, _, rfl, hclosed⟩
    | error e =>
      refine ⟨none, [SecureBytes.close { octets := raw }], hcalls, hclosed, by simp [SecureBytes.close], .inr ⟨rfl, ?_⟩⟩
      exact KeyUnlock.unwrapWithToken_error env hs hlen hopen

theorem openSlot_error {slot : KeyUnlockSlot × FidoCredential} (hs : slot.1.type = .fido)
    {b b' : TokenWorld δ γ Time} {e : Exc} (h : (openSlot env lib service pin slot).run b = .error e b') :
    e.cls = .decryptionError ∨ (FidoService.derive env lib service.fido slot.2 pin).run b = .error e b' := by
  obtain ⟨raised, secrets, -, -, -, hcause⟩ := (meets_openSlot env lib service pin hs b).of_run_eq_error h
  rcases hcause with ⟨-, hderive⟩ | ⟨-, hcls⟩
  · exact .inr hderive
  · exact .inl hcls

/-- What is passed over: an error of the service or of the cipher that is not
fatal. -/
theorem isPassedOver_iff (e : Exc) :
    isPassedOver e = true ↔ isFatalTokenError e = false ∧ e.isA [.decryptionError, .serviceError] = true := by
  have hall : ∀ c : ErrorClass, (c.isSubclass .decryptionError || (c.isSubclass .serviceError &&
      ! [ErrorClass.fidoPinError, .fidoTouchError, .fidoUnavailableError].any c.isSubclass)) = true ↔
        [ErrorClass.fidoPinError, .fidoTouchError, .fidoUnavailableError].any c.isSubclass = false ∧
          [ErrorClass.decryptionError, .serviceError].any c.isSubclass = true := by
    intro c
    cases c <;> decide
  have he := hall e.cls
  simp only [isPassedOver, isFatalTokenError, Exc.isA, List.any_cons, List.any_nil, Bool.or_false] at he ⊢
  exact he

theorem type_of_mem_withBinding {stored : List (ℕ × KeyUnlockSlot)} {slot : KeyUnlockSlot × FidoCredential}
    (h : slot ∈ withBinding (fidoSlots stored)) : slot.1.type = .fido := by
  obtain ⟨s, hs, hbinding⟩ := List.mem_filterMap.mp h
  obtain ⟨credential, -, rfl⟩ := Option.map_eq_some_iff.mp hbinding
  simpa using (List.mem_filter.mp hs).2

/-! ### The first slot that opens -/

theorem exists_run_emit (event outcome : Str) (b : TokenWorld δ γ Time) :
    ∃ b', (emit env service event outcome).run b = .ok () b' := by
  have hmeets : (emit env service event outcome).Meets b (fun _ _ => True) fun _ _ => False := by
    unfold emit onWorld SmartcardService.emitBestEffort
    rw [meets_onPart]
    by_cases ha : service.audit = true
    · rw [if_pos ha, meets_catching]
      unfold Meets
      split <;> trivial
    · rw [if_neg ha]
      trivial
  obtain ⟨u, b', hrun, -⟩ := hmeets.exists_ok
  exact ⟨b', hrun⟩

/-- What is raised at a slot's turn is passed over if it is not fatal and the
token raises an error of the service. -/
theorem allRaise_isPassedOver_iff {before : List (KeyUnlockSlot × FidoCredential)}
    (hs : ∀ slot ∈ before, slot.1.type = .fido) {b1 s : TokenWorld δ γ Time}
    (hraise : AllRaise (openSlot env lib service pin) (fun _ e => isFatalTokenError e = false) before b1 s) :
    AllRaise (openSlot env lib service pin) (fun _ e => isPassedOver e = true) before b1 s ↔
      ∀ earlier slot later s1 e s2, before = earlier ++ slot :: later →
        AllRaise (openSlot env lib service pin) (fun _ _ => True) earlier b1 s1 →
        (FidoService.derive env lib service.fido slot.2 pin).run s1 = .error e s2 →
        e.isA [.decryptionError, .serviceError] = true := by
  have hany : AllRaise (openSlot env lib service pin) (fun _ _ => True) before b1 s :=
    hraise.mono fun _ _ _ _ => trivial
  have hnonfatal := (AllRaise.iff_forall hany).mp hraise
  rw [AllRaise.iff_forall hany]
  constructor
  · intro h earlier slot later s1 e s2 hbefore hearlier hderive
    have hopen : (openSlot env lib service pin slot).run s1 = .error e s2 := by
      rw [openSlot, EStateM.run_bind, hderive]
    exact ((isPassedOver_iff e).mp (h earlier slot later s1 e s2 hbefore hearlier hopen)).2
  · intro h earlier slot later s1 e s2 hbefore hearlier hopen
    rw [isPassedOver_iff]
    refine ⟨hnonfatal earlier slot later s1 e s2 hbefore hearlier hopen, ?_⟩
    have hmem : slot ∈ before := by simp [hbefore]
    rcases openSlot_error env lib service pin (hs slot hmem) hopen with hcls | hderive
    · simp only [Exc.isA, hcls]
      decide
    · exact h earlier slot later s1 e s2 hbefore hearlier hderive

theorem unlockWithToken_eq_ok {stored : List (ℕ × KeyUnlockSlot)} {b b1 b2 : TokenWorld δ γ Time} {secret : Bytes}
    (hstored : (storedSlots env fingerprint).run b = .ok stored b1) (hne : fidoSlots stored ≠ [])
    (h : (tryTokens env lib service pin (fidoSlots stored)).run b1 = .ok secret b2) :
    ∃ b3, (unlockWithToken env lib service fingerprint pin).run b = .ok secret b3 := by
  obtain ⟨b3, hemit⟩ := exists_run_emit env service (lit "key_unlocked_with_token") (lit "ok") b2
  refine ⟨b3, run_bind_eq_ok.mpr ⟨stored, b1, hstored, ?_⟩⟩
  rw [if_neg hne]
  exact run_bind_eq_ok.mpr ⟨secret, b2, h, run_bind_eq_ok.mpr ⟨(), b3, hemit, rfl⟩⟩

theorem tryTokens_of_unlockWithToken {stored : List (ℕ × KeyUnlockSlot)} {b b1 b3 : TokenWorld δ γ Time}
    {secret : Bytes} (hstored : (storedSlots env fingerprint).run b = .ok stored b1)
    (h : (unlockWithToken env lib service fingerprint pin).run b = .ok secret b3) :
    ∃ b2, (tryTokens env lib service pin (fidoSlots stored)).run b1 = .ok secret b2 := by
  obtain ⟨stored', b1', hstored', h⟩ := run_bind_eq_ok.mp h
  obtain ⟨rfl, rfl⟩ : stored = stored' ∧ b1 = b1' := by simpa [hstored] using hstored'
  by_cases hne : fidoSlots stored = []
  · simp [hne] at h
  · rw [if_neg hne] at h
    obtain ⟨secret', b2, htry, h⟩ := run_bind_eq_ok.mp h
    obtain ⟨u, b4, -, h⟩ := run_bind_eq_ok.mp h
    obtain ⟨rfl, -⟩ := run_pure_eq_ok.mp h
    exact ⟨b2, htry⟩

/-! ### The calls -/

/-- A fatal call of `derive` is the last one, and it is what is raised. -/
def FatalLast (raised : Option Exc) (calls : List DeriveCall) : Prop :=
  ∀ earlier call later e, calls = earlier ++ call :: later → call.raised = some e → isFatalTokenError e = true →
    later = [] ∧ raised = some e

/-- One more call, after calls that were not fatal. -/
theorem FatalLast.concat {raised : Option Exc} {calls : List DeriveCall} {call : DeriveCall}
    (h : FatalLast none calls) (hcall : ∀ e, call.raised = some e → isFatalTokenError e = true → raised = some e) :
    FatalLast raised (calls ++ [call]) := by
  intro earlier call' later e hsplit hraised hfatal
  rcases List.eq_nil_or_concat later with rfl | ⟨later, last, rfl⟩
  · obtain ⟨rfl, rfl⟩ : calls = earlier ∧ call = call' := by simpa using hsplit
    exact ⟨rfl, hcall e hraised hfatal⟩
  · have hsplit' : calls ++ [call] = (earlier ++ call' :: later) ++ [last] := by simpa using hsplit
    obtain ⟨hcalls, -⟩ := List.append_inj' hsplit' rfl
    have hnone := (h earlier call' later e hcalls hraised hfatal).2
    cases hnone

/-- So the PIN is rejected at most once. -/
theorem FatalLast.rejections {raised : Option Exc} : ∀ {calls : List DeriveCall}, FatalLast raised calls →
    (calls.filter fun call => call.raised.any (·.isA [.fidoPinError])).length ≤ 1
  | [], _ => by simp
  | call :: calls, h => by
    rw [List.filter_cons]
    by_cases hp : call.raised.any (·.isA [.fidoPinError]) = true
    · obtain ⟨e, he, hpin⟩ := (Option.any_eq_true _ _).mp hp
      have hfatal : isFatalTokenError e = true := by
        simp only [isFatalTokenError, Exc.isA, List.any_cons, List.any_nil, Bool.or_false, Bool.or_eq_true] at hpin ⊢
        exact .inl hpin
      obtain ⟨rfl, -⟩ := h [] call calls e rfl he hfatal
      rw [if_pos hp]
      simp
    · rw [if_neg hp]
      refine FatalLast.rejections (?_ : FatalLast raised _)
      intro earlier call' later e hsplit hraised hfatal
      exact h (call :: earlier) call' later e (by rw [hsplit]; rfl) hraised hfatal

/-- Between two turns no call was fatal, and the secrets are closed; `raised`
is what ends the run. -/
def Walked (b : TokenWorld δ γ Time) (raised : Option Exc) (b' : TokenWorld δ γ Time) : Prop :=
  ∃ calls secrets, b'.derivations = b.derivations ++ calls ∧ b'.secrets = b.secrets ++ secrets ∧
    FatalLast raised calls ∧ ∀ secret ∈ secrets, secret.isClosed = true

theorem Walked.of_logs {b b1 b2 : TokenWorld δ γ Time} {raised raised' : Option Exc} (h : Walked b raised b1)
    (hlogs : tokenLogs b2 = tokenLogs b1) (hr : ∀ e, raised = some e → raised' = some e) : Walked b raised' b2 := by
  obtain ⟨hs, hd⟩ : b2.secrets = b1.secrets ∧ b2.derivations = b1.derivations := by simpa [tokenLogs] using hlogs
  obtain ⟨calls, secrets, hcalls, hsecrets, hfatal, hclosed⟩ := h
  refine ⟨calls, secrets, hd.trans hcalls, hs.trans hsecrets, ?_, hclosed⟩
  intro earlier call later e hsplit hraised hfatal'
  obtain ⟨hlater, hend⟩ := hfatal earlier call later e hsplit hraised hfatal'
  exact ⟨hlater, hr e hend⟩

theorem Walked.refl (b : TokenWorld δ γ Time) (raised : Option Exc) : Walked b raised b := by
  refine ⟨[], [], by simp, by simp, ?_, by simp⟩
  intro earlier call later e hsplit
  simp at hsplit

/-- A turn after turns that were not fatal. -/
theorem Walked.turn {b b1 : TokenWorld δ γ Time} (h : Walked b none b1) {slot : KeyUnlockSlot × FidoCredential}
    (hs : slot.1.type = .fido) :
    (openSlot env lib service pin slot).Meets b1 (fun _ b2 => Walked b none b2)
      fun e b2 => if isPassedOver e = true then Walked b none b2 else Walked b (some e) b2 := by
  obtain ⟨calls, secrets, hcalls, hsecrets, hfatal, hclosed⟩ := h
  refine (meets_openSlot env lib service pin hs b1).mono ?_ ?_
  · intro _ b2 h
    obtain ⟨hcalls', secret, hsecret, hsecrets'⟩ := h
    refine ⟨calls ++ [_], secrets ++ [secret], by rw [hcalls', hcalls, List.append_assoc],
      by rw [hsecrets', hsecrets, List.append_assoc], hfatal.concat (by simp), ?_⟩
    simpa [or_imp, forall_and, hsecret] using hclosed
  · intro e b2 h
    obtain ⟨raised, new, hcalls', hsecrets', hnew, hcause⟩ := h
    have hlist : ∀ secret ∈ secrets ++ new, secret.isClosed = true := by
      intro secret hmem
      rcases List.mem_append.mp hmem with h | h
      · exact hclosed secret h
      · exact hnew secret h
    have hwalked : ∀ end', (∀ e', raised = some e' → isFatalTokenError e' = true → end' = some e') →
        Walked b end' b2 := fun end' hend =>
      ⟨calls ++ [_], secrets ++ new, by rw [hcalls', hcalls, List.append_assoc],
        by rw [hsecrets', hsecrets, List.append_assoc], hfatal.concat hend, hlist⟩
    have hraised : ∀ e', raised = some e' → e' = e := by
      intro e' he'
      rcases hcause with ⟨hsome, -⟩ | ⟨hnone, -⟩
      · exact (Option.some.inj (hsome.symm.trans he')).symm
      · cases hnone.symm.trans he'
    by_cases hp : isPassedOver e = true
    · rw [if_pos hp]
      refine hwalked none fun e' he' hfatal' => ?_
      rw [hraised e' he', ((isPassedOver_iff e).mp hp).1] at hfatal'
      cases hfatal'
    · rw [if_neg hp]
      exact hwalked (some e) fun e' he' _ => by rw [hraised e' he']

/-- The whole run. -/
theorem walked_unlockWithToken (b : TokenWorld δ γ Time) :
    (unlockWithToken env lib service fingerprint pin).Meets b (fun _ b' => Walked b none b')
      fun e b' => Walked b (some e) b' := by
  unfold unlockWithToken
  refine meets_bind_of_keeps (keeps_onWorld _) (fun e b' h => (Walked.refl b _).of_logs h fun _ h => h)
    fun stored b1 h1 => ?_
  have hstart : Walked b none b1 := (Walked.refl b none).of_logs h1 fun _ h => h
  by_cases hne : fidoSlots stored = []
  · rw [if_pos hne]
    exact hstart.of_logs rfl nofun
  · rw [if_neg hne, meets_bind]
    have hloop : (tryTokens env lib service pin (fidoSlots stored)).Meets b1 (fun _ b' => Walked b none b')
        fun e b' => Walked b (some e) b' := by
      refine Meets.firstOf ?_ ?_ none b1 hstart
      · intro lastError b2 h2
        refine meets_bind_of_keeps (keeps_onWorld _) (fun e b' h => h2.of_logs h nofun) fun _ b3 h3 => ?_
        exact h2.of_logs h3 nofun
      · intro slot hslot b2 h2
        exact h2.turn env lib service pin (type_of_mem_withBinding hslot)
    refine hloop.mono ?_ fun _ _ h => h
    intro secret b2 h2
    refine meets_bind_of_keeps (keeps_onWorld _) (fun e b' h => h2.of_logs h nofun) fun _ b3 h3 => ?_
    exact h2.of_logs h3 fun _ h => h

/-- **The slots are tried in order** exactly if no token raises anything but an
error of a service before the first slot that opens. -/
theorem unlocksInOrder_iff (b : TokenWorld δ γ Time) :
    UnlocksInOrder env lib service fingerprint pin b ↔ OnlyServiceErrors env lib service fingerprint pin b := by
  constructor
  · intro h stored b1 before secret b2 hstored hnonfatal hworks
    obtain ⟨b3, hrun⟩ := h.first stored b1 before secret b2 hstored hnonfatal hworks
    obtain ⟨b4, htry⟩ := tryTokens_of_unlockWithToken env lib service fingerprint pin hstored hrun
    obtain ⟨slot, later, s1, hsplit, hraise, hopen⟩ := hworks
    obtain ⟨s, hnonfatal⟩ := hnonfatal
    have hs : ∀ slot ∈ before, slot.1.type = .fido := fun slot hmem => by
      have hslot : slot ∈ withBinding (fidoSlots stored) := by simp [hsplit, hmem]
      exact type_of_mem_withBinding hslot
    have hnonfatal' := (hraise.and hnonfatal).mono fun _ _ _ h => h.2
    rw [tryTokens, hsplit] at htry
    exact (allRaise_isPassedOver_iff env lib service pin hs hnonfatal').mp (hraise.of_run_firstOf_eq_ok htry)
  · intro h
    have hwalked := walked_unlockWithToken env lib service fingerprint pin b
    refine ⟨?_, ?_, ?_⟩
    · intro stored b1 before secret b2 hstored hnonfatal hworks
      have hall := h stored b1 before secret b2 hstored hnonfatal hworks
      obtain ⟨slot, later, s1, hsplit, hraise, hopen⟩ := hworks
      obtain ⟨s, hnonfatal⟩ := hnonfatal
      have hs : ∀ slot ∈ before, slot.1.type = .fido := fun slot hmem => by
        have hslot : slot ∈ withBinding (fidoSlots stored) := by simp [hsplit, hmem]
        exact type_of_mem_withBinding hslot
      have hnonfatal' := (hraise.and hnonfatal).mono fun _ _ _ h => h.2
      have hpassed := (allRaise_isPassedOver_iff env lib service pin hs hnonfatal').mpr hall
      have hne : fidoSlots stored ≠ [] := by
        intro hnil
        simp [hnil, withBinding] at hsplit
      have htry : (tryTokens env lib service pin (fidoSlots stored)).run b1 = .ok secret b2 := by
        rw [tryTokens, hsplit]
        exact hpassed.run_firstOf_eq_ok later hopen none
      exact unlockWithToken_eq_ok env lib service fingerprint pin hstored hne htry
    · unfold Meets at hwalked
      unfold after
      cases hrun : (unlockWithToken env lib service fingerprint pin).run b with
      | ok secret b' =>
        rw [hrun] at hwalked
        obtain ⟨calls, secrets, hcalls, -, hfatal, -⟩ := hwalked
        refine ⟨calls, hcalls, ?_, hfatal.rejections⟩
        intro earlier call later e hsplit hraised hf
        cases (hfatal earlier call later e hsplit hraised hf).2
      | error e b' =>
        rw [hrun] at hwalked
        obtain ⟨calls, secrets, hcalls, -, hfatal, -⟩ := hwalked
        refine ⟨calls, hcalls, ?_, hfatal.rejections⟩
        intro earlier call later e' hsplit hraised hf
        obtain ⟨hlater, he⟩ := hfatal earlier call later e' hsplit hraised hf
        obtain rfl := Option.some.inj he
        exact ⟨hlater, b', rfl⟩
    · unfold Meets at hwalked
      unfold after
      cases hrun : (unlockWithToken env lib service fingerprint pin).run b with
      | ok secret b' =>
        rw [hrun] at hwalked
        obtain ⟨calls, secrets, -, hsecrets, -, hclosed⟩ := hwalked
        exact ⟨secrets, hsecrets, hclosed⟩
      | error e b' =>
        rw [hrun] at hwalked
        obtain ⟨calls, secrets, -, hsecrets, -, hclosed⟩ := hwalked
        exact ⟨secrets, hsecrets, hclosed⟩

/-! ### A device that fails once -/

/-- A binding, of whichever token is plugged in. -/
def sampleCredential : FidoCredential where
  credentialIdB64 := lit "QQ=="
  saltB64 := List.replicate 43 (codePoint 'A') ++ lit "="
  rpId := lit "gpg-meister.local"
  resident := true
  userVerification := true
  label := []
  ok := by decide

def sampleSlot : KeyUnlockSlot where
  type := .fido
  wrappedSecretB64 := lit "AAAAAAAAAAAAAAAAAAAAAAAA"
  nonceB64 := lit "AAAAAAAAAAAAAAAA"
  kdf := none
  fido := some sampleCredential
  label := []
  ok := by decide

/-- One ciphertext is authentic. -/
def sampleEnv : Platform Unit Unit :=
  { samplePlatform noGnuPG with
    aead :=
      { encrypt := fun _ _ _ _ _ => none
        decrypt := fun _ _ _ _ ciphertext => if ciphertext = List.replicate 18 0 then some (ascii "pw") else none } }

/-- A token whose first assertion is lost on the way, by an error of the
device. -/
def flakyToken : Fido2 ℕ where
  firstDevice n := (.ok (some { id := 0, productName := none }), n)
  info _ n := (.ok { clientPin := true, rk := true, extensions := [lit "hmac-secret"] }, n)
  connect _ n := (.ok (), n)
  makeCredential _ _ n := (.refused (.ctap .operationDenied), n)
  getAssertion _ _ n :=
    (if n = 0 then .raised { cls := .osError, message := lit "[Errno 5] Input/output error" }
      else .ok (.members [(lit "prf", .members [(lit "results", .members [(lit "first", .bytes (List.replicate 32 7))])])]),
      n + 1)

/-- A key with two slots. -/
def twoSlotsWorld : TokenWorld ℕ Unit Unit where
  world :=
    { sampleWorld () (fun _ => none) with
      store :=
        { unlockSlots := [1, 2].map fun id =>
            { id, fingerprint := List.replicate 40 (codePoint 'A'), slotType := lit "fido"
              slotJson := sampleSlot.modelDumpJson }
          nextSlotId := 3 } }
  tokens := 0

/-- After an error of the device the slot that would open is not tried. -/
theorem not_unlocksInOrder : ¬ ∀ (δ γ Time : Type) (env : Platform γ Time) (lib : Fido2 δ) service fingerprint pin b,
    UnlocksInOrder env lib service fingerprint pin b := by
  intro h
  obtain ⟨b, hb⟩ : ∃ b, twoSlotsWorld = b := ⟨_, rfl⟩
  obtain ⟨service, hservice⟩ : ∃ service : KeyUnlockService, { fido := { audit := true }, audit := true } = service :=
    ⟨_, rfl⟩
  have hfirst := (h ℕ Unit Unit sampleEnv flakyToken service (List.replicate 40 (codePoint 'A')) (ascii "1234") b).first
  have hturns : (match (storedSlots sampleEnv (List.replicate 40 (codePoint 'A'))).run b with
      | .ok stored b1 => stored = [(1, sampleSlot), (2, sampleSlot)] &&
        match (openSlot sampleEnv flakyToken service (ascii "1234") (sampleSlot, sampleCredential)).run b1 with
        | .error e b2 => ! isFatalTokenError e &&
          returns (fun _ _ => true)
            (openSlot sampleEnv flakyToken service (ascii "1234") (sampleSlot, sampleCredential)) b2
        | .ok _ _ => false
      | .error _ _ => false) = true := by
    rw [← hb, ← hservice]
    decide +kernel
  have hfails : returns (fun _ _ => true)
      (unlockWithToken sampleEnv flakyToken service (List.replicate 40 (codePoint 'A')) (ascii "1234")) b = false := by
    rw [← hb, ← hservice]
    decide +kernel
  cases hstored : (storedSlots sampleEnv (List.replicate 40 (codePoint 'A'))).run b with
  | error e b1 =>
    rw [hstored] at hturns
    cases hturns
  | ok stored b1 =>
    rw [hstored] at hturns
    cases hopen : (openSlot sampleEnv flakyToken service (ascii "1234") (sampleSlot, sampleCredential)).run b1 with
    | ok key b2 => simp [hopen] at hturns
    | error e b2 =>
      simp only [hopen, Bool.and_eq_true, decide_eq_true_eq, Bool.not_eq_true'] at hturns
      obtain ⟨rfl, hnonfatal, hworks⟩ := hturns
      obtain ⟨key, b3, hopen', -⟩ := returns_eq_true.mp hworks
      have hlist : withBinding (fidoSlots [(1, sampleSlot), (2, sampleSlot)]) =
        [(sampleSlot, sampleCredential)] ++ (sampleSlot, sampleCredential) :: [] := rfl
      obtain ⟨b4, hrun⟩ := hfirst _ b1 [(sampleSlot, sampleCredential)] key b3 hstored
        ⟨b2, e, b2, hopen, hnonfatal, rfl⟩ ⟨_, [], b2, hlist, ⟨e, b2, hopen, trivial, rfl⟩, hopen'⟩
      rw [returns_eq_true.mpr ⟨key, b4, hrun, rfl⟩] at hfails
      cases hfails

end KeyUnlockService
end GpgMeister
