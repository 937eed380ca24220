/-
# A new key, or none

What `create_key_with_token` does to the keys and to their slots. It hangs on
the fingerprint that `generate_key` returns:

* `newOnly_iff`: exactly when that is the fingerprint of the new key, so that
  the keys that were there before are left alone;
* `allOrNothing`: then there is a key with its slots if the call returns, no new
  key if it raises, and what becomes of the audit records does not matter.
-/
import GpgMeister.Services.EnrolmentRuns
import GpgMeister.Services.Unaudited

namespace GpgMeister
namespace KeyUnlockService

open Program

variable {δ γ Time : Type}

/-! ### Creating all of a key or nothing -/

section Creation

variable (env : Platform γ Time) (keyring : γ → Keyring) (request : GPGService.KeyRequest)

/-- However a creation ends, the keys that were there stay, and so do their
slots. -/
def SparesOld (g : γ) : Prop :=
  ∀ (δ : Type) (lib : Fido2 δ) service pin emergencyPassphrase (b : TokenWorld δ γ Time), b.world.gnupg = g →
    b.world.store.Numbered → ∀ k, keyring g k ≠ none →
      keyring ((createKeyWithToken env lib service request pin emergencyPassphrase).after b).world.gnupg k = keyring g k ∧
        ((createKeyWithToken env lib service request pin emergencyPassphrase).after b).world.store.rowsOf k =
          b.world.store.rowsOf k

/-- **What is returned is the fingerprint of the key that was created**, and
nothing is done to a key that was there before. -/
structure NewOnly (g : γ) : Prop where
  created : GPGService.CreatesNew env keyring request g
  spares : SparesOld env keyring request g

/-- A call of `generate_key` that raises has created no key. -/
def FailsClean (g : γ) : Prop :=
  ∀ secret e (w w' : World γ Time), w.gnupg = g → (GPGService.generateKey env request secret).run w = .error e w' →
    keyring w'.gnupg = keyring g

variable (lib : Fido2 δ) (service : EnrolmentService) (pin : Bytes) (emergencyPassphrase : Option Bytes)

/-- **All or nothing.** -/
structure AllOrNothing (b : TokenWorld δ γ Time) : Prop where
  /-- The key that is returned is there, with a slot for the token, and one for
  the emergency passphrase if there is one. -/
  created : ∀ fingerprint b',
    (createKeyWithToken env lib service request pin emergencyPassphrase).run b = .ok fingerprint b' →
      keyring b'.world.gnupg fingerprint ≠ none ∧
        (∃ slot ∈ b'.world.store.slotsOf env.pydantic fingerprint, slot.2.type = .fido) ∧
        (emergencyPassphrase ≠ none → ∃ slot ∈ b'.world.store.slotsOf env.pydantic fingerprint, slot.2.type = .passphrase)
  /-- If it raises, there is no new key, unless `delete_key` has raised. -/
  refused : ∀ e b', (createKeyWithToken env lib service request pin emergencyPassphrase).run b = .error e b' →
    (∀ k, keyring b.world.gnupg k = none → keyring b'.world.gnupg k = none) ∨
      ∃ fingerprint raised, deletions b'.world = deletions b.world ++ [(fingerprint, some raised)]
  /-- What returns without an audit log returns with it. -/
  audited : ∀ fingerprint b',
    (createKeyWithToken env lib service.unaudited request pin emergencyPassphrase).run b = .ok fingerprint b' →
      ∃ b'', (createKeyWithToken env lib service request pin emergencyPassphrase).run b = .ok fingerprint b'' ∧
        b''.world.stores = b'.world.stores

end Creation

/-! ### The keyring -/

section Keyring

variable {env : Platform γ Time} {keyring : γ → Keyring} {request : GPGService.KeyRequest} {secret : Bytes}
  {w w' : World γ Time}

/-- The keys of a keyring are still there. -/
def Keeping (keyring : γ → Keyring) (K : Keyring) (g : γ) : Prop := ∀ k, K k ≠ none → keyring g k = K k

/-- Making a key leaves the other keys alone. -/
theorem keeping_generateKey (hgenerates : env.gpg.Generates keyring) (hlists : env.gpg.ListsSecret keyring) (K : Keyring) :
    Stays (fun w => Keeping keyring K w.gnupg) (fun _ => True) (GPGService.generateKey env request secret) := by
  apply stays_generateKey
  · intro args g r g' hpopen hg k hk
    have hold := hg k hk
    rw [hgenerates.keeps args secret g r g' hpopen k (by rw [hold]; exact hk), hold]
  · intro g r g' hlist hg k hk
    rw [hlists.keeps g r g' hlist, hg k hk]

/-- A call that returns has added one key. -/
theorem generateKey_adds (hgenerates : env.gpg.Generates keyring) (hlists : env.gpg.ListsSecret keyring)
    {fingerprint : Str} (h : (GPGService.generateKey env request secret).run w = .ok fingerprint w') :
    ∃ new, keyring w.gnupg new = none ∧ keyring w'.gnupg = Function.update (keyring w.gnupg) new (some true) := by
  obtain ⟨userId, args, out, g', hcheck, -, hpopen, hok, hfrom⟩ := GPGService.generateKey_eq_ok h
  obtain ⟨rest, rfl⟩ := GPGService.checkRequest_args hcheck
  obtain ⟨new, hnone, hnew, -⟩ := hgenerates.adds _ _ _ _ _ hpopen hok
  refine ⟨new, hnone, ?_⟩
  rcases hfrom with ⟨-, -, hg⟩ | ⟨-, keys, hlist, -⟩
  · rw [hg, hnew]
  · rw [hlists.keeps _ _ _ hlist, hnew]

end Keyring

/-! ### The keys that were there -/

section Old

variable {env : Platform γ Time} {lib : Fido2 δ} {service : EnrolmentService} {keyring : γ → Keyring}
  {request : GPGService.KeyRequest} {emergencyPassphrase : Option Bytes} {b : TokenWorld δ γ Time}

/-- A key whose fingerprint is returned where it was not there before is the one
that was made. -/
theorem Made.isNew {secret : Bytes} {fingerprint : Str} {slots : List KeyUnlockSlot} {w1 w2 w3 : World γ Time}
    (h : Made env lib request emergencyPassphrase b.world secret fingerprint slots w1 w2 w3)
    (hcreates : GPGService.CreatesNew env keyring request b.world.gnupg) :
    keyring b.world.gnupg fingerprint = none ∧ keyring w3.gnupg fingerprint ≠ none := by
  have hstart : w1.gnupg = b.world.gnupg := congrArg (fun l => l.1.gnupg) h.start
  obtain ⟨hnone, hthere⟩ := hcreates secret fingerprint w1 w2 hstart h.generated
  have hgnupg : w3.gnupg = w2.gnupg := h.grown.1
  exact ⟨hnone, by rw [hgnupg]; exact hthere⟩

/-- The keys that were there are still there, with their slots, when a key was
made. -/
theorem Made.spares {secret : Bytes} {fingerprint : Str} {slots : List KeyUnlockSlot} {w1 w2 w3 : World γ Time}
    (h : Made env lib request emergencyPassphrase b.world secret fingerprint slots w1 w2 w3)
    (hgenerates : env.gpg.Generates keyring) (hlists : env.gpg.ListsSecret keyring) {k : Str}
    (hk : keyring b.world.gnupg k ≠ none) (hne : k ≠ fingerprint) :
    keyring w3.gnupg k = keyring b.world.gnupg k ∧ w3.store.rowsOf k = b.world.store.rowsOf k := by
  have hstart : w1.stores = b.world.stores := congrArg Prod.fst h.start
  have hkeeping : Keeping keyring (keyring b.world.gnupg) w1.gnupg := fun k _ =>
    congrFun (congrArg keyring (congrArg Stores.gnupg hstart)) k
  have hkept : Keeping keyring (keyring b.world.gnupg) w2.gnupg :=
    (keeping_generateKey hgenerates hlists _ w1 hkeeping).of_run_eq_ok h.generated
  have hstore : w2.store = w1.store := keeps_store_generateKey.of_run_eq_ok h.generated
  have hgnupg : w3.gnupg = w2.gnupg := h.grown.1
  refine ⟨by rw [hgnupg, hkept k hk], ?_⟩
  have hrows : w3.store.rowsOf k = w2.store.rowsOf k := h.grown.2.rowsOf_eq hne
  rw [hrows, hstore]
  exact congrArg (fun s => s.store.rowsOf k) hstart

theorem validateFingerprint_of_made {secret : Bytes} {fingerprint : Str} {slots : List KeyUnlockSlot}
    {w w1 w2 w3 : World γ Time} (h : Made env lib request emergencyPassphrase w secret fingerprint slots w1 w2 w3) :
    GPGService.validateFingerprint fingerprint = .ok fingerprint := by
  obtain ⟨userId, args, out, g', -, -, -, -, hfrom⟩ := GPGService.generateKey_eq_ok h.generated
  rcases hfrom with ⟨-, hvalid, -⟩ | ⟨-, keys, -, -, hvalid⟩
  · exact GPGService.validateFingerprint_idem hvalid
  · exact GPGService.validateFingerprint_idem hvalid

theorem sparesOld_of_createsNew (hgenerates : env.gpg.Generates keyring) (hsecret : env.gpg.ListsSecret keyring)
    (hlists : env.gpg.Lists keyring) (hdeletes : env.gpg.Deletes keyring) {g : γ}
    (hcreates : GPGService.CreatesNew env keyring request g) : SparesOld env keyring request g := by
  rintro δ lib service pin emergencyPassphrase b rfl hm k hk
  have hnew {fingerprint : Str} (h : keyring b.world.gnupg fingerprint = none) : k ≠ fingerprint := by
    rintro rfl
    exact hk h
  unfold after
  cases hrun : (createKeyWithToken env lib service request pin emergencyPassphrase).run b with
  | ok fingerprint b' =>
    obtain ⟨secret, slots, w1, w2, hmade, -⟩ := createKeyWithToken_eq_ok hm hrun
    exact hmade.spares hgenerates hsecret hk (hnew (hmade.isNew hcreates).1)
  | error e b' =>
    rcases createKeyWithToken_eq_error hm hrun with hsame | ⟨secret, w1, hstart, hfails⟩ |
      ⟨secret, fingerprint, slots, w1, w2, w3, hmade, hdiscard⟩
    · have hstores : b'.world.stores = b.world.stores := congrArg Prod.fst hsame
      exact ⟨congrArg (fun s => keyring s.gnupg k) hstores, congrArg (fun s => s.store.rowsOf k) hstores⟩
    · have hstores : w1.stores = b.world.stores := congrArg Prod.fst hstart
      have hkeeping : Keeping keyring (keyring b.world.gnupg) w1.gnupg := fun k _ =>
        congrArg (fun s => keyring s.gnupg k) hstores
      have hkept : Keeping keyring (keyring b.world.gnupg) b'.world.gnupg :=
        ((keeping_generateKey hgenerates hsecret _ w1 hkeeping).of_run_eq_error hfails).1
      have hstore : b'.world.store = w1.store := keeps_store_generateKey.of_run_eq_error hfails
      refine ⟨hkept k hk, ?_⟩
      dsimp only
      rw [hstore]
      exact congrArg (fun s => s.store.rowsOf k) hstores
    · have hne := hnew (hmade.isNew hcreates).1
      obtain ⟨hkeyring, hrows⟩ := hmade.spares hgenerates hsecret hk hne
      obtain ⟨hstore, hothers, -⟩ := discardUnopenableKey_eq_ok hlists hdeletes (validateFingerprint_of_made hmade) hdiscard
      dsimp only
      rw [hothers k hne, hstore]
      exact ⟨hkeyring, hrows⟩

/-- **Only a new key is returned, rolled back or given slots** exactly if of
every run that makes the key a record is read, or the last key with the user ID
in the secret listing is no older one. -/
theorem newOnly_iff (hgenerates : env.gpg.Generates keyring) (hsecret : env.gpg.ListsSecret keyring)
    (hlists : env.gpg.Lists keyring) (hdeletes : env.gpg.Deletes keyring) (w : World γ Time) :
    NewOnly env keyring request w.gnupg ↔ GPGService.NamesNew env keyring request w.gnupg := by
  refine ⟨fun h => (GPGService.createsNew_iff hgenerates hsecret w).mp h.created, fun h => ?_⟩
  have hcreates := GPGService.createsNew_of_namesNew hgenerates hsecret h
  exact ⟨hcreates, sparesOld_of_createsNew hgenerates hsecret hlists hdeletes hcreates⟩

/-! ### All or nothing -/

/-- If a key that was made has been discarded, there is no new key. -/
theorem Made.refused {secret : Bytes} {fingerprint : Str} {slots : List KeyUnlockSlot} {w1 w2 w3 : World γ Time}
    {w' : World γ Time} (h : Made env lib request emergencyPassphrase b.world secret fingerprint slots w1 w2 w3)
    (hgenerates : env.gpg.Generates keyring) (hsecret : env.gpg.ListsSecret keyring) (hlists : env.gpg.Lists keyring)
    (hdeletes : env.gpg.Deletes keyring) (hcreates : GPGService.CreatesNew env keyring request b.world.gnupg)
    (hdiscard : (discardUnopenableKey env service fingerprint secret).run w3 = .ok () w') :
    (∀ k, keyring b.world.gnupg k = none → keyring w'.gnupg k = none) ∨
      ∃ fingerprint raised, deletions w' = deletions b.world ++ [(fingerprint, some raised)] := by
  obtain ⟨-, hothers, hgone | ⟨raised, hraised⟩⟩ :=
    discardUnopenableKey_eq_ok hlists hdeletes (validateFingerprint_of_made h) hdiscard
  · left
    obtain ⟨new, hnone, hadds⟩ := generateKey_adds hgenerates hsecret h.generated
    have hstart : w1.gnupg = b.world.gnupg := congrArg (fun l => l.1.gnupg) h.start
    have hgnupg : w3.gnupg = w2.gnupg := h.grown.1
    rw [hstart] at hnone hadds
    -- the key that was added is the one that is returned, and that is gone
    have hnew : fingerprint = new := by
      by_contra hne
      obtain ⟨hwas, his⟩ := h.isNew hcreates
      rw [hgnupg, hadds, Function.update_of_ne hne] at his
      exact his hwas
    subst hnew
    intro k hk
    by_cases hne : k = fingerprint
    · rw [hne, hgone]
    · rw [hothers k hne, hgnupg, hadds, Function.update_of_ne hne, hk]
  · exact .inr ⟨fingerprint, raised, by rw [hraised, h.undeleted]⟩

/-- **A creation is all or nothing** if of every run that makes the key a record
is read, or the last key with the user ID in the secret listing is no older
one. -/
theorem allOrNothing (hgenerates : env.gpg.Generates keyring) (hsecret : env.gpg.ListsSecret keyring)
    (hlists : env.gpg.Lists keyring) (hdeletes : env.gpg.Deletes keyring) (hm : b.world.store.Numbered)
    (hclean : FailsClean env keyring request b.world.gnupg)
    (hnames : GPGService.NamesNew env keyring request b.world.gnupg) (pin : Bytes) :
    AllOrNothing env keyring request lib service pin emergencyPassphrase b := by
  have hcreates := GPGService.createsNew_of_namesNew hgenerates hsecret hnames
  refine ⟨?_, ?_, ?_⟩
  · intro fingerprint b' hrun
    obtain ⟨secret, slots, w1, w2, hmade, hstored⟩ := createKeyWithToken_eq_ok hm hrun
    have hslot {type : UnlockSlotType} (h : ∃ slot ∈ slots, slot.type = type) :
        ∃ slot ∈ b'.world.store.slotsOf env.pydantic fingerprint, slot.2.type = type := by
      obtain ⟨slot, hmem, htype⟩ := h
      obtain ⟨id, hrow⟩ := hstored slot hmem
      exact ⟨(id, slot), MetadataStore.mem_slotsOf_of_row env.pydantic hrow, htype⟩
    exact ⟨(hmade.isNew hcreates).2, hslot hmade.built.token, fun h => hslot (hmade.built.fallback h)⟩
  · intro e b' hrun
    rcases createKeyWithToken_eq_error hm hrun with hsame | ⟨secret, w1, hstart, hfails⟩ |
      ⟨secret, fingerprint, slots, w1, w2, w3, hmade, hdiscard⟩
    · left
      intro k hk
      rw [← hk]
      exact congrArg (fun l => keyring l.1.gnupg k) hsame
    · left
      intro k hk
      rw [hclean secret e w1 b'.world (congrArg (fun l => l.1.gnupg) hstart) hfails, hk]
    · exact hmade.refused hgenerates hsecret hlists hdeletes hcreates hdiscard
  · intro fingerprint b' hrun
    have hsame : SameTokens b b := ⟨b.world, ⟨b.world.audit, b.world.history, rfl⟩, rfl⟩
    obtain ⟨b'', hrun', world, ⟨audit, history, rfl⟩, rfl⟩ :=
      (agree_createKeyWithToken env lib service request pin emergencyPassphrase).ok_of_ok hsame hrun
    exact ⟨b'', hrun', rfl⟩

end Old

/-! ### A home with two keys of one name -/

open GPGService

section FailsClean

variable {env : Platform γ Time} {keyring : γ → Keyring} {request : KeyRequest}

/-- The new key is found, in a record or in the listing. -/
def Finds (env : Platform γ Time) (userId : Str) (out : Gpg.Output) (g : γ) : Prop :=
  if createdOf (statusOf out) ≠ [] then ∃ fp, validateFingerprint (createdOf (statusOf out)) = .ok fp
  else ∃ keys g' fp, env.gpg.listKeys true g = (.ok keys, g') ∧ validateFingerprint (lastWith userId keys) = .ok fp

/-- Where every run makes a key that is found, a call that raises has not come
to a run. -/
theorem failsClean_of_finds {g : γ}
    (h : ∀ secret userId args, checkRequest env request secret = .ok (userId, args) →
      ∃ out g', env.gpg.popen args none (some secret) g = (.ok out, g') ∧ out.returncode = 0 ∧ Finds env userId out g') :
    FailsClean env keyring request g := by
  rintro secret e w w' rfl hrun
  have hensures : Ensures (generateKey env request secret) w.stores (fun _ _ => True)
      fun _ s' => s'.gnupg = w.stores.gnupg := by
    refine Ensures.bind (Q := fun checked s' => checkRequest env request secret = .ok checked ∧ s' = w.stores)
      (.ofExcept (fun _ hchecked => ⟨hchecked, rfl⟩) fun _ _ => rfl) ?_
    rintro ⟨userId, args⟩ s' ⟨hchecked, rfl⟩
    obtain ⟨out, g', hpopen, hok, hfinds⟩ := h secret userId args hchecked
    refine Ensures.bind (Q := fun proc s' =>
      proc = Gpg.statusRun out.returncode out.stdout out.stderr out.reads ∧ s'.gnupg = g')
      (ensures_runGpg (fun _ => rfl) ?_ ?_) ?_
    · intro out' g'' hpopen'
      obtain ⟨hout, rfl⟩ := Prod.mk.inj (hpopen.symm.trans hpopen')
      obtain rfl := Except.ok.inj hout
      exact ⟨rfl, rfl⟩
    · intro e g'' hpopen'
      cases hpopen.symm.trans hpopen'
    rintro proc s1 ⟨rfl, hg⟩
    have hrequire : requireOk (Gpg.statusRun out.returncode out.stdout out.stderr out.reads)
        (lit "GPG key generation failed") [0] = .ok () := by
      simp [requireOk, Gpg.statusRun, hok]
    refine Ensures.bind (Q := fun _ s' => s1 = s') (.ofExcept (fun _ _ => rfl) fun e he => ?_) ?_
    · cases hrequire.symm.trans he
    rintro ⟨⟩ s2 rfl
    refine Ensures.bind (Q := fun fp _ => ∃ fp', validateFingerprint fp = .ok fp') ?_ ?_
    · change Ensures (newFingerprint env userId (statusOf out)) s1 _ _
      unfold newFingerprint
      unfold Finds at hfinds
      by_cases hreported : createdOf (statusOf out) ≠ []
      · rw [if_pos hreported] at hfinds ⊢
        exact .pure hfinds
      · rw [if_neg hreported] at hfinds ⊢
        obtain ⟨keys, g'', fp, hlist, hvalid⟩ := hfinds
        rw [← hg] at hlist
        refine Ensures.bind (Q := fun keys' _ => keys' = keys) (ensures_onGnupg ?_ ?_) ?_
        · intro keys' g3 hlist'
          exact (Except.ok.inj (Prod.mk.inj (hlist.symm.trans hlist')).1).symm
        · intro e g3 hlist'
          cases hlist.symm.trans hlist'
        · rintro keys' s3 rfl
          exact .pure ⟨fp, hvalid⟩
    · rintro fp s3 ⟨fp', hvalid⟩
      have hne : fp ≠ [] := by
        rintro rfl
        cases hvalid
      rw [if_neg hne, hvalid]
      exact .pure trivial
  exact congrArg keyring (hensures.of_run_eq_error hrun)

end FailsClean

def sampleHome : SampleHome := {}

theorem not_newOnly : ¬ ∀ (γ Time : Type) (env : Platform γ Time) keyring request (g : γ), env.gpg.Generates keyring →
    env.gpg.ListsSecret keyring → env.gpg.Lists keyring → env.gpg.Deletes keyring → NewOnly env keyring request g := by
  intro h
  have hnew := h SampleHome Unit (samplePlatform (sampleGnuPG false)) SampleHome.keyring sampleRequest sampleHome
    (generates_sample false) (listsSecret_sample false) (lists_sample false) (deletes_sample false)
  have hrun : returns (fun fp _ => fp = oldFp)
      (generateKey (samplePlatform (sampleGnuPG false)) sampleRequest (ascii "new"))
        (sampleWorld sampleHome fun _ => none) = true := by
    decide +kernel
  obtain ⟨fp, w', hrun, hfp⟩ := returns_eq_true.mp hrun
  obtain ⟨hnone, -⟩ := hnew.created _ _ _ _ rfl hrun
  rw [of_decide_eq_true hfp] at hnone
  cases hnone

/-- Where the record of the new key is read. -/
theorem newOnly_sample : NewOnly (samplePlatform (sampleGnuPG true)) SampleHome.keyring sampleRequest sampleHome :=
  (newOnly_iff (generates_sample true) (listsSecret_sample true) (lists_sample true) (deletes_sample true)
    (sampleWorld sampleHome fun _ => none)).mpr (namesNew_sample rfl _)

/-! ### A store that fails once -/

/-- A cipher that puts the key and the associated data in front of the plaintext. -/
def sampleAead : Aead where
  encrypt _ key _ associatedData plaintext :=
    if key.length = keyLen ∧ associatedData.length < 256 then
      some (key ++ .ofNat associatedData.length :: associatedData ++ plaintext)
    else none
  decrypt _ key _ associatedData ciphertext :=
    if key.length = keyLen ∧ associatedData.length < 256 ∧
        key ++ .ofNat associatedData.length :: associatedData <+: ciphertext then
      some (ciphertext.drop (key.length + (associatedData.length + 1)))
    else none

def homeEnv (reports : Bool) : Platform SampleHome Unit :=
  { samplePlatform (sampleGnuPG reports) with aead := sampleAead }

/-- A token that derives one secret. -/
def sampleToken : Fido2 Unit where
  firstDevice d := (.ok (some { id := 0, productName := none }), d)
  info _ d := (.ok { clientPin := true, rk := true, extensions := [lit "hmac-secret"] }, d)
  connect _ d := (.ok (), d)
  makeCredential _ _ d :=
    (.ok { rawId := [1], results := .members [(lit "prf", .members [(lit "enabled", .other true)])] }, d)
  getAssertion _ _ d :=
    (.ok (.members [(lit "prf", .members [(lit "results", .members [(lit "first", .bytes (List.replicate 32 7))])])]), d)

def sampleService : EnrolmentService where
  fido := { audit := false }
  audit := false
  kdf := balancedParams

/-- Nothing fails but the statement at one place. -/
def sampleTokens (fault : ℕ) : TokenWorld Unit SampleHome Unit where
  world :=
    { sampleWorld sampleHome (fun _ => none) with
      faults := fun n => if n = fault then some { cls := .databaseError, message := lit "disk I/O error" } else none }
  tokens := ()

theorem checkedUser_sample (reports : Bool) :
    checkedUser (homeEnv reports) sampleRequest = .ok (lit "Ann", lit "ann@example.org") := by
  cases reports <;> decide +kernel

/-- The user ID of the request. -/
theorem checkRequest_sample {reports : Bool} {secret : Bytes} {userId : Str} {args : List Str}
    (h : checkRequest (homeEnv reports) sampleRequest secret = .ok (userId, args)) :
    userId = lit "Ann <ann@example.org>" := by
  unfold checkRequest at h
  rw [checkedUser_sample] at h
  obtain ⟨⟨name, email⟩, hchecked, h⟩ := bind_eq_ok h
  obtain ⟨rfl, rfl⟩ := Prod.mk.inj (Except.ok.inj hchecked)
  dsimp only at h
  split_ifs at h
  obtain ⟨quick, -, h⟩ := bind_eq_ok h
  rw [← (Prod.mk.inj (Except.ok.inj h)).1]
  decide

theorem failsClean_sample (reports : Bool) :
    FailsClean (homeEnv reports) SampleHome.keyring sampleRequest sampleHome := by
  refine failsClean_of_finds fun secret userId args hcheck => ?_
  obtain ⟨rest, rfl⟩ := checkRequest_args hcheck
  refine ⟨_, _, popen_generate reports rest secret sampleHome, rfl, ?_⟩
  rw [checkRequest_sample hcheck]
  unfold Finds
  cases reports with
  | true =>
    rw [if_pos (by decide +kernel)]
    exact ⟨newFp, by decide +kernel⟩
  | false =>
    rw [if_neg (by decide +kernel)]
    refine ⟨_, _, oldFp, rfl, ?_⟩
    have hlast : lastWith (lit "Ann <ann@example.org>") ({ sampleHome with new := some (some secret) } : SampleHome).keys =
        oldFp := rfl
    rw [hlast]
    decide +kernel

/-- The slot of the new key goes to the old one, which is deleted when the slot
cannot be stored. -/
theorem not_allOrNothing : ¬ ∀ (δ γ Time : Type) (env : Platform γ Time) (lib : Fido2 δ) service keyring request pin
    emergencyPassphrase (b : TokenWorld δ γ Time), env.gpg.Generates keyring → env.gpg.ListsSecret keyring →
      env.gpg.Lists keyring → env.gpg.Deletes keyring → b.world.store.Numbered →
        FailsClean env keyring request b.world.gnupg →
          AllOrNothing env keyring request lib service pin emergencyPassphrase b := by
  intro h
  have hall := h Unit SampleHome Unit (homeEnv false) sampleToken sampleService SampleHome.keyring sampleRequest
    (ascii "1234") none (sampleTokens 2) (generates_sample false) (listsSecret_sample false) (lists_sample false)
    (deletes_sample false) MetadataStore.numbered_empty (failsClean_sample false)
  have hends : (match (createKeyWithToken (homeEnv false) sampleToken sampleService sampleRequest (ascii "1234") none).run
      (sampleTokens 2) with
    | .ok _ _ => false
    | .error _ b' => b'.world.gnupg.keyring newFp = some true && deletions b'.world = [(oldFp, none)]) = true := by
    decide +kernel
  cases hrun : (createKeyWithToken (homeEnv false) sampleToken sampleService sampleRequest (ascii "1234") none).run
      (sampleTokens 2) with
  | ok fp b' =>
    rw [hrun] at hends
    cases hends
  | error e b' =>
    rw [hrun, Bool.and_eq_true, decide_eq_true_eq, decide_eq_true_eq] at hends
    rcases hall.refused e b' hrun with hnone | ⟨fingerprint, raised, hraised⟩
    · cases hends.1.symm.trans (hnone newFp rfl)
    · rw [hends.2] at hraised
      cases hraised

/-- Where the record of the new key is read. -/
theorem allOrNothing_sample : AllOrNothing (homeEnv true) SampleHome.keyring sampleRequest sampleToken sampleService
    (ascii "1234") none (sampleTokens 2) :=
  allOrNothing (generates_sample true) (listsSecret_sample true) (lists_sample true) (deletes_sample true)
    MetadataStore.numbered_empty (failsClean_sample true) (namesNew_sample rfl _) (ascii "1234")

end KeyUnlockService
end GpgMeister
