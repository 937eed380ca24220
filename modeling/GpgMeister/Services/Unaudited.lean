/-
# What the audit log cannot change

Two runs from worlds that differ in the audit log and in the history only end
alike, whether either of them keeps an audit log or not: a record that is
refused or lost is never seen by the code (`SameButAudit`,
`agree_createKeyWithToken`).
-/
import GpgMeister.Lib.Agree
import GpgMeister.Services.KeyEnrolment

namespace GpgMeister

open Program

variable {δ γ Time α β : Type}

/-- All the same, but for the audit log and the history. -/
def SameButAudit (w v : World γ Time) : Prop := ∃ audit history, v = { w with audit := audit, history := history }

/-- The program does not see the audit log, nor the history. -/
abbrev Deaf (x y : Program (World γ Time) Exc α) : Prop := Agree SameButAudit x y

namespace Deaf

variable (env : Platform γ Time)

theorem syscall : Deaf (syscall : Program (World γ Time) Exc Unit) syscall := by
  rintro w v ⟨audit, history, rfl⟩
  unfold Meets GpgMeister.syscall
  simp only [EStateM.run]
  cases w.faults 0 with
  | none => exact ⟨_, rfl, audit, history, rfl⟩
  | some e => exact ⟨_, rfl, audit, history, rfl⟩

theorem tokenBytes (n : ℕ) : Deaf (tokenBytes n : Program (World γ Time) Exc Bytes) (tokenBytes n) := by
  rintro w v ⟨audit, history, rfl⟩
  exact ⟨_, rfl, audit, history, rfl⟩

theorem onGnupg (f : γ → Except Exc α × γ) :
    Deaf (GPGService.onGnupg f : Program (World γ Time) Exc α) (GPGService.onGnupg f) := by
  rintro w v ⟨audit, history, rfl⟩
  unfold Meets GPGService.onGnupg
  simp only [EStateM.run]
  rcases f w.gnupg with ⟨_ | _, g⟩
  · exact ⟨_, rfl, audit, history, rfl⟩
  · exact ⟨_, rfl, audit, history, rfl⟩

theorem validated (o : Option α) : Deaf (validated o : Program (World γ Time) Exc α) (validated o) := by
  cases o with
  | none => exact .raise _
  | some a => exact .pure a

theorem recorded {x y : Program (World γ Time) Exc α} {call : Option Exc → Call} (hx : Deaf x y) :
    Deaf (recorded call x) (recorded call y) := by
  intro w v h
  rw [meets_recorded]
  refine (hx w v h).mono ?_ ?_
  · rintro a w' ⟨v', hy, audit, history, rfl⟩
    exact ⟨_, run_recorded_eq_ok.mpr ⟨_, hy, rfl⟩, audit, history ++ [call none], rfl⟩
  · rintro e w' ⟨v', hy, audit, history, rfl⟩
    exact ⟨_, run_recorded_eq_error.mpr ⟨_, hy, rfl⟩, audit, history ++ [call (some e)], rfl⟩

/-- Whatever becomes of a record, it has been tried to write it. -/
theorem run_emitBestEffort (audit : Bool) (event outcome : Str) (payload : Dict) (w : World γ Time) :
    ∃ w', (SmartcardService.emitBestEffort env audit event outcome payload).run w = .ok () w' ∧ SameButAudit w w' := by
  unfold SmartcardService.emitBestEffort
  cases audit with
  | false => exact ⟨w, rfl, w.audit, w.history, rfl⟩
  | true =>
    rw [if_pos rfl, run_catching]
    unfold emit GpgMeister.recorded
    simp only [EStateM.run, onPart]
    cases AuditSink.emit env.toEnv event outcome payload w.audit with
    | ok a audit => exact ⟨_, rfl, audit, _, rfl⟩
    | error e audit => exact ⟨_, rfl, audit, _, rfl⟩

theorem emitBestEffort (audit audit' : Bool) (event outcome : Str) (payload : Dict) :
    Deaf (SmartcardService.emitBestEffort env audit event outcome payload)
      (SmartcardService.emitBestEffort env audit' event outcome payload) := by
  rintro w v ⟨a, history, rfl⟩
  obtain ⟨w1, hw, a1, h1, rfl⟩ := run_emitBestEffort env audit event outcome payload w
  obtain ⟨v1, hv, a2, h2, rfl⟩ := run_emitBestEffort env audit' event outcome payload
    { w with audit := a, history := history }
  unfold Meets
  rw [hw]
  exact ⟨_, hv, a2, h2, rfl⟩

theorem call (x : Sql α) : Deaf (MetadataStore.call x : Program (World γ Time) Exc α) (MetadataStore.call x) := by
  have hrun : ∀ (x : Sql α) (c : Connection),
      Deaf (MetadataStore.runSql x c : Program (World γ Time) Exc α) (MetadataStore.runSql x c) := by
    intro x
    induction x with
    | done r =>
      intro c
      refine Agree.bind (fun w v h => ?_) fun _ => .ofExcept r
      obtain ⟨audit, history, rfl⟩ := h
      exact ⟨_, rfl, audit, history, rfl⟩
    | step next set ih =>
      rintro c w v ⟨audit, history, rfl⟩
      exact ih (w.faults 0) c (set (w.faults 0) c) _ _ ⟨audit, history, rfl⟩
  refine Agree.bind_get fun w v h => ?_
  obtain ⟨audit, history, rfl⟩ := h
  exact hrun x _

/-! ### GnuPG -/

theorem runGpg (args : List Str) (input passphrase : Option Bytes) (statusFd : Bool) :
    Deaf (GPGService.runGpg env args input passphrase statusFd) (GPGService.runGpg env args input passphrase statusFd) := by
  refine syscall.bind fun _ => (Agree.ofExcept _).bind fun _ => syscall.bind fun _ => Agree.bind_get fun w v h => ?_
  obtain ⟨audit, history, rfl⟩ := h
  exact (Agree.ofExcept _).bind fun _ => (onGnupg _).bind fun _ => .pure _

theorem listKeys (secret : Bool) : Deaf (GPGService.listKeys env secret) (GPGService.listKeys env secret) := onGnupg _

theorem findKey (fingerprint : Str) : Deaf (GPGService.findKey env fingerprint) (GPGService.findKey env fingerprint) := by
  refine (Agree.ofExcept _).bind fun fp => (listKeys env false).bind fun keys => ?_
  cases keys.find? (·.fingerprint = fp) with
  | some key => exact .pure key
  | none => exact .raise _

theorem generateKey (request : GPGService.KeyRequest) (secret : Bytes) :
    Deaf (GPGService.generateKey env request secret) (GPGService.generateKey env request secret) := by
  refine (Agree.ofExcept _).bind fun checked => (runGpg env _ _ _ _).bind fun proc => (Agree.ofExcept _).bind fun _ => ?_
  apply Agree.bind
  · unfold GPGService.newFingerprint
    split_ifs
    · exact .pure _
    · exact (listKeys env true).bind fun _ => .pure _
  · intro fp
    split_ifs
    · exact .raise _
    · exact .ofExcept _

theorem deleteKey (fingerprint : Str) (includingSecret : Bool) (passphrase : Option Bytes) :
    Deaf (GPGService.deleteKey env fingerprint includingSecret passphrase)
      (GPGService.deleteKey env fingerprint includingSecret passphrase) := by
  refine recorded ((Agree.ofExcept _).bind fun fp => (runGpg env _ _ _ _).bind fun proc =>
    (Agree.ofExcept _).bind fun _ => ?_)
  apply Agree.bind
  · refine Agree.catching ((findKey env fp).bind fun _ => .pure _) fun e => ?_
    split_ifs
    · exact .pure _
    · exact .raise e
  · intro found
    split_ifs
    · exact .raise _
    · exact .pure _

/-! ### Slots -/

theorem wrapWithToken (secret tokenSecret : Bytes) (credential : FidoCredential) :
    Deaf (KeyUnlock.wrapWithToken env secret tokenSecret credential)
      (KeyUnlock.wrapWithToken env secret tokenSecret credential) :=
  (Agree.ofExcept _).bind fun _ => (Agree.ofExcept _).bind fun _ => (tokenBytes _).bind fun _ =>
    (Agree.ofExcept _).bind fun _ => validated _

theorem wrapWithPassphrase (secret passphrase : Bytes) (params : KDFParams) :
    Deaf (KeyUnlock.wrapWithPassphrase env secret passphrase params)
      (KeyUnlock.wrapWithPassphrase env secret passphrase params) := by
  refine (Agree.ofExcept _).bind fun _ => Agree.bind ?_ fun salt => (tokenBytes _).bind fun _ =>
    (recorded (.ofExcept _)).bind fun _ => (Agree.ofExcept _).bind fun _ => validated _
  unfold generateSalt
  split_ifs
  · exact .raise _
  · exact tokenBytes _

end Deaf

/-- The service without an audit log. -/
def EnrolmentService.unaudited (service : EnrolmentService) : EnrolmentService where
  fido := { service.fido with audit := false }
  audit := false
  kdf := service.kdf

namespace KeyUnlockService

variable (env : Platform γ Time) (lib : Fido2 δ) (service : EnrolmentService)

theorem deaf_buildSlots (secret tokenSecret : Bytes) (credential : FidoCredential) (emergencyPassphrase : Option Bytes) :
    Deaf (buildSlots env service secret tokenSecret credential emergencyPassphrase)
      (buildSlots env service.unaudited secret tokenSecret credential emergencyPassphrase) := by
  apply (Deaf.wrapWithToken env _ _ _).bind
  intro slot
  cases emergencyPassphrase with
  | none => exact .pure _
  | some passphrase => exact (Deaf.wrapWithPassphrase env _ _ _).bind fun _ => .pure _

theorem deaf_deleteSlots : ∀ stored : List ℕ,
    Deaf (deleteSlots stored : Program (World γ Time) Exc Unit) (deleteSlots stored)
  | [] => .pure _
  | _ :: stored => (Deaf.call _).bind fun _ => deaf_deleteSlots stored

theorem deaf_storeSlots (fingerprint event : Str) : ∀ (slots : List KeyUnlockSlot) (stored : List ℕ),
    Deaf (storeSlots env service fingerprint event stored slots)
      (storeSlots env service.unaudited fingerprint event stored slots)
  | [], _ => .pure _
  | slot :: slots, stored => by
    refine Agree.bind (Agree.catching ?_ fun e => ?_) fun id => deaf_storeSlots fingerprint event slots _
    · exact (Agree.ofExcept _).bind fun _ => Deaf.call _
    · exact (deaf_deleteSlots stored).bind fun _ => (Deaf.emitBestEffort env _ _ _ _ _).bind fun _ => .raise e

theorem deaf_persist (fingerprint : Str) (slots : List KeyUnlockSlot) (event : Str) :
    Deaf (persist env service fingerprint slots event) (persist env service.unaudited fingerprint slots event) :=
  (deaf_storeSlots env service fingerprint event slots []).bind fun _ => Deaf.emitBestEffort env _ _ _ _ _

theorem deaf_createWith (request : GPGService.KeyRequest) (secret tokenSecret : Bytes) (credential : FidoCredential)
    (emergencyPassphrase : Option Bytes) :
    Deaf (createWith env service request secret tokenSecret credential emergencyPassphrase)
      (createWith env service.unaudited request secret tokenSecret credential emergencyPassphrase) := by
  refine (deaf_buildSlots env service _ _ _ _).bind fun slots => (Deaf.generateKey env request secret).bind fun fp => ?_
  refine Agree.bind (Agree.catching (deaf_persist env service fp slots _) fun e => ?_) fun _ => .pure _
  refine Agree.bind (Agree.catching (Deaf.deleteKey env fp true (some secret)) fun _ => ?_) fun _ => .raise e
  exact Deaf.emitBestEffort env _ _ _ _ _

/-! ### With the tokens -/

/-- All the same, but for the audit log and the history of the world. -/
def SameTokens (b c : TokenWorld δ γ Time) : Prop := ∃ world, SameButAudit b.world world ∧ c = { b with world := world }

abbrev TokenDeaf (x y : Program (TokenWorld δ γ Time) Exc α) : Prop := Agree SameTokens x y

theorem tokenDeaf_onWorld {x y : Program (World γ Time) Exc α} (h : Deaf x y) :
    TokenDeaf (onWorld x : Program (TokenWorld δ γ Time) Exc α) (onWorld y) := by
  refine Agree.onPart h ?_ ?_
  · rintro b c ⟨world, h, rfl⟩
    exact h
  · rintro b c u v ⟨world, -, rfl⟩ h
    exact ⟨v, h, rfl⟩

theorem tokenDeaf_onTokens (f : δ → α × δ) :
    TokenDeaf (onTokens f : Program (TokenWorld δ γ Time) Exc α) (onTokens f) := by
  rintro b c ⟨world, h, rfl⟩
  exact ⟨_, rfl, world, h, rfl⟩

theorem tokenDeaf_viewSecret (secret : ℕ) :
    TokenDeaf (viewSecret secret : Program (TokenWorld δ γ Time) Exc Bytes) (viewSecret secret) := by
  refine Agree.bind_get fun b c h => ?_
  obtain ⟨world, -, rfl⟩ := h
  dsimp only
  split
  · exact .pure _
  · exact .raise _

theorem tokenDeaf_closeSecret (secret : ℕ) :
    TokenDeaf (closeSecret secret : Program (TokenWorld δ γ Time) Exc Unit) (closeSecret secret) := by
  rintro b c ⟨world, h, rfl⟩
  exact ⟨_, rfl, world, h, rfl⟩

theorem tokenDeaf_secureBytes (octets : Bytes) :
    TokenDeaf (secureBytes octets : Program (TokenWorld δ γ Time) Exc ℕ) (secureBytes octets) := by
  rintro b c ⟨world, h, rfl⟩
  exact ⟨_, rfl, world, h, rfl⟩

theorem tokenDeaf_recordedCall {credential : FidoCredential} {x y : Program (TokenWorld δ γ Time) Exc α}
    (hx : TokenDeaf x y) : TokenDeaf (recordedCall credential x) (recordedCall credential y) := by
  intro b c h
  rw [meets_recordedCall]
  refine (hx b c h).mono ?_ ?_
  · rintro a b' ⟨c', hy, world, h', rfl⟩
    exact ⟨_, by simp only [EStateM.run, recordedCall] at hy ⊢; rw [hy], world, h', rfl⟩
  · rintro e b' ⟨c', hy, world, h', rfl⟩
    exact ⟨_, by simp only [EStateM.run, recordedCall] at hy ⊢; rw [hy], world, h', rfl⟩

theorem tokenDeaf_emit (fido : FidoService) (event outcome : Str) (payload : Dict) :
    TokenDeaf (FidoService.emit env fido event outcome payload : Program (TokenWorld δ γ Time) Exc Unit)
      (FidoService.emit env { fido with audit := false } event outcome payload) :=
  tokenDeaf_onWorld (Deaf.emitBestEffort env _ _ _ _ _)

theorem tokenDeaf_requireToken :
    TokenDeaf (FidoService.requireToken lib : Program (TokenWorld δ γ Time) Exc _) (FidoService.requireToken lib) := by
  have hprobe : TokenDeaf (FidoService.probe lib : Program (TokenWorld δ γ Time) Exc _) (FidoService.probe lib) := by
    refine (tokenDeaf_onTokens _).bind fun device => ?_
    split
    · split_ifs
      · exact .pure _
      · exact .raise _
    · exact .pure _
    · refine (tokenDeaf_onTokens _).bind fun info => ?_
      split
      · exact .pure _
      · split_ifs
        · exact .pure _
        · exact .raise _
      · exact .pure _
  refine hprobe.bind fun found => ?_
  split
  split
  · split_ifs
    · exact .pure _
    · exact .raise _
  · exact .raise _

theorem tokenDeaf_client (fido : FidoService) (pin : Bytes) :
    TokenDeaf (FidoService.client lib fido pin : Program (TokenWorld δ γ Time) Exc _)
      (FidoService.client lib { fido with audit := false } pin) := by
  refine (tokenDeaf_onTokens _).bind fun device => (Agree.ofExcept _).bind fun device => ?_
  split
  · exact .raise _
  · exact (tokenDeaf_onTokens _).bind fun _ => (Agree.ofExcept _).bind fun _ => .pure _

theorem tokenDeaf_derive (fido : FidoService) (credential : FidoCredential) (pin : Bytes) :
    TokenDeaf (FidoService.derive env lib fido credential pin : Program (TokenWorld δ γ Time) Exc _)
      (FidoService.derive env lib { fido with audit := false } credential pin) := by
  have hfailed (event reason : Str) (e : Exc) : TokenDeaf
      ((do FidoService.emitFailed env fido event reason; raise e : Program (TokenWorld δ γ Time) Exc ℕ))
      (do FidoService.emitFailed env { fido with audit := false } event reason; raise e) :=
    (tokenDeaf_emit env fido _ _ _).bind fun _ => .raise e
  refine tokenDeaf_recordedCall ((tokenDeaf_requireToken lib).bind fun _ =>
    (tokenDeaf_client lib fido pin).bind fun client =>
    (tokenDeaf_onWorld (Deaf.tokenBytes 32)).bind fun challenge => (tokenDeaf_onTokens _).bind fun reply => ?_)
  split
  · exact .raise _
  · exact hfailed _ _ _
  · unfold FidoService.derived
    split
    · split_ifs
      · exact (tokenDeaf_emit env fido _ _ _).bind fun _ => tokenDeaf_secureBytes _
      · exact hfailed _ _ _
    · exact hfailed _ _ _

theorem tokenDeaf_enroll (fido : FidoService) (pin : Bytes) (userLabel : Str) (resident : Bool) :
    TokenDeaf (FidoService.enroll env lib fido pin userLabel resident : Program (TokenWorld δ γ Time) Exc _)
      (FidoService.enroll env lib { fido with audit := false } pin userLabel resident) := by
  have hfailed (event reason : Str) (e : Exc) : TokenDeaf
      ((do FidoService.emitFailed env fido event reason; raise e :
        Program (TokenWorld δ γ Time) Exc (FidoCredential × ℕ)))
      (do FidoService.emitFailed env { fido with audit := false } event reason; raise e) :=
    (tokenDeaf_emit env fido _ _ _).bind fun _ => .raise e
  refine (tokenDeaf_requireToken lib).bind fun token => ?_
  split_ifs
  · exact .raise _
  · exact .raise _
  refine (tokenDeaf_client lib fido pin).bind fun client => (tokenDeaf_onWorld (Deaf.tokenBytes 16)).bind fun userId =>
    (tokenDeaf_onWorld (Deaf.tokenBytes 32)).bind fun challenge => (tokenDeaf_onTokens _).bind fun reply => ?_
  split
  · exact .raise _
  · exact hfailed _ _ _
  · next registration =>
    unfold FidoService.enrolled
    by_cases henabled : ((registration.results.field (lit "prf")).field (lit "enabled")).isTrue = true
    · rw [if_pos henabled, if_pos henabled]
      exact (tokenDeaf_onWorld (Deaf.tokenBytes _)).bind fun salt =>
        (tokenDeaf_onWorld (Deaf.validated _)).bind fun credential =>
          (tokenDeaf_derive env lib fido credential pin).bind fun secret =>
            (tokenDeaf_emit env fido _ _ _).bind fun _ => .pure _
    · rw [if_neg henabled, if_neg henabled]
      exact hfailed _ _ _

/-- **A creation ends alike** whether there is an audit log or not, and
whatever the audit log does. -/
theorem agree_createKeyWithToken (request : GPGService.KeyRequest) (pin : Bytes) (emergencyPassphrase : Option Bytes) :
    TokenDeaf (createKeyWithToken env lib service request pin emergencyPassphrase : Program (TokenWorld δ γ Time) Exc Str)
      (createKeyWithToken env lib service.unaudited request pin emergencyPassphrase) := by
  refine (Agree.ofExcept _).bind fun _ => (tokenDeaf_enroll env lib service.fido pin _ true).bind fun found => ?_
  obtain ⟨credential, tokenSecret⟩ := found
  refine Agree.ensuring ?_ (tokenDeaf_closeSecret _)
  refine (tokenDeaf_onWorld ((Deaf.tokenBytes _).bind fun _ => .pure _)).bind fun octets =>
    (tokenDeaf_secureBytes _).bind fun secret => Agree.ensuring ?_ (tokenDeaf_closeSecret _)
  exact (tokenDeaf_viewSecret _).bind fun _ => (tokenDeaf_viewSecret _).bind fun _ =>
    tokenDeaf_onWorld (deaf_createWith env service request _ _ credential emergencyPassphrase)

end KeyUnlockService
end GpgMeister
