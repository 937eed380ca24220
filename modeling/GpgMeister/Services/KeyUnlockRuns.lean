/-
# What the slots hold

Creations, bindings and deletions of slots, in any order, each of which may fail
at any step. What GnuPG holds is read from its state: of every key whether there
has been one, and its passphrase as long as it is there.

* `recovers_of_namesNew`: after every run whose creations all find the key they
  have made, the slots of a key that is there open to its passphrase, and that
  is what an unlocking returns.
-/
import GpgMeister.Services.KeyCreation

namespace GpgMeister

variable {δ γ Time : Type}

/-! ### What is relied on -/

/-- Of every key whether there has been one, and its passphrase as long as its
secret half is there. -/
abbrev Passphrases := Str → Option (Option Bytes)

/-- The keys that are there. -/
def Passphrases.keyring (h : Passphrases) : Keyring := fun fp => (h fp).join.map fun _ => true

/-- A run for a new key makes a key that there has not been, or none, and one that
ends well reports no other; the secret listing shows keys that are there; a
deletion touches one key; and what is signed is signed with the passphrase. -/
structure GnuPG.Holds (gpg : GnuPG γ Time) (held : γ → Passphrases) : Prop where
  creates : ∀ args passphrase g r g',
    gpg.popen (lit "--yes" :: lit "--quick-generate-key" :: args) none (some passphrase) g = (r, g') →
      held g' = held g ∨ ∃ fp, held g fp = none ∧ held g' = Function.update (held g) fp (some (some passphrase))
  reports : ∀ args passphrase g out g',
    gpg.popen (lit "--yes" :: lit "--quick-generate-key" :: args) none (some passphrase) g = (.ok out, g') →
      out.returncode = 0 →
      ∃ fp, held g fp = none ∧ held g' = Function.update (held g) fp (some (some passphrase)) ∧
        ∀ reported ∈ (GPGService.statusOf out).filterMap GPGService.keyCreated,
          GPGService.validateFingerprint reported = .ok fp
  lists : ∀ secret g r g', gpg.listKeys secret g = (r, g') → held g' = held g
  shows : ∀ g keys g', gpg.listKeys true g = (.ok keys, g') → ∀ key ∈ keys,
    GPGService.validateFingerprint key.fingerprint = .ok key.fingerprint ∧
      (held g).keyring key.fingerprint ≠ none
  deletes : ∀ fp passphrase g r g', gpg.popen (GPGService.deleteArgs fp true) none passphrase g = (r, g') →
    (∀ k ≠ fp, held g' k = held g k) ∧ (held g' fp = held g fp ∨ held g' fp = some none)
  signs : ∀ fp data passphrase g r g',
    gpg.popen (GPGService.signArgs fp true) (some data) (some passphrase) g = (r, g') →
      held g' = held g ∧ ∀ out, r = .ok out → out.returncode = 0 → held g fp = some (some passphrase)

/-- The token derives one secret for a credential and a salt. -/
def Fido2.Derives (lib : Fido2 δ) (prf : Bytes → Bytes → Bytes) : Prop :=
  ∀ client request d results d' octets, lib.getAssertion client request d = (.ok results, d') →
    FidoService.prfOutput results = some octets → octets = prf request.credentialId request.salt

/-- A key that there was keeps its passphrase, or is gone. -/
def Passphrases.Evolves (h h' : Passphrases) : Prop := ∀ k, h k ≠ none → h' k = h k ∨ h' k = some none

namespace Passphrases

variable {h h' h'' : Passphrases} {k : Str} {pass : Bytes}

theorem Evolves.refl (h : Passphrases) : h.Evolves h := fun _ _ => .inl rfl

theorem Evolves.ne_none (he : h.Evolves h') (hk : h k ≠ none) : h' k ≠ none := by
  rcases he k hk with heq | hgone
  · rw [heq]
    exact hk
  · rw [hgone]
    exact Option.some_ne_none _

theorem Evolves.trans (he : h.Evolves h') (he' : h'.Evolves h'') : h.Evolves h'' := by
  intro k hk
  rcases he' k (he.ne_none hk) with heq | hgone
  · rw [heq]
    exact he k hk
  · exact .inr hgone

/-- The passphrase of a key that is still there is the old one. -/
theorem Evolves.eq_of_some (he : h.Evolves h') (hk : h k ≠ none) (hpass : h' k = some (some pass)) :
    h k = some (some pass) := by
  rcases he k hk with heq | hgone
  · rw [← heq, hpass]
  · cases hgone.symm.trans hpass

theorem evolves_update (hk : h k = none) (new : Option (Option Bytes)) : h.Evolves (Function.update h k new) := by
  intro k' hk'
  have hne : k' ≠ k := by
    rintro rfl
    exact hk' hk
  exact .inl (Function.update_of_ne hne _ _)

theorem keyring_ne_none : h.keyring k ≠ none ↔ ∃ pass, h k = some (some pass) := by
  unfold keyring
  rcases h k with _ | _ | pass <;> simp

end Passphrases

namespace GnuPG.Holds

variable {gpg : GnuPG γ Time} {held : γ → Passphrases}

theorem generates (h : gpg.Holds held) : gpg.Generates fun g => (held g).keyring where
  keeps args passphrase g r g' hpopen k hk := by
    unfold Passphrases.keyring
    rcases h.creates args passphrase g r g' hpopen with heq | ⟨fp, hnone, hnew⟩
    · rw [heq]
    · have hne : k ≠ fp := by
        rintro rfl
        obtain ⟨pass, hpass⟩ := Passphrases.keyring_ne_none.mp hk
        cases hnone.symm.trans hpass
      rw [hnew, Function.update_of_ne hne]
  adds args passphrase g out g' hpopen hok := by
    obtain ⟨fp, hnone, hnew, hreports⟩ := h.reports args passphrase g out g' hpopen hok
    refine ⟨fp, ?_, ?_, hreports⟩
    · simp [Passphrases.keyring, hnone]
    · funext k
      by_cases hk : k = fp
      · subst hk
        simp [Passphrases.keyring, hnew]
      · simp [Passphrases.keyring, hnew, hk]

theorem listsSecret (h : gpg.Holds held) : gpg.ListsSecret fun g => (held g).keyring where
  keeps g r g' hlist := by rw [h.lists true g r g' hlist]
  shows := h.shows

end GnuPG.Holds

namespace KeyUnlockService

open Program

/-! ### What GnuPG does -/

section Gnupg

variable {env : Platform γ Time} {held : γ → Passphrases} {request : GPGService.KeyRequest} {secret : Bytes}
  {w w' : World γ Time} {fingerprint : Str} {service : EnrolmentService}

/-- What GnuPG holds has evolved from what it held. -/
def EvolvedFrom (held : γ → Passphrases) (h : Passphrases) (g : γ) : Prop := h.Evolves (held g)

/-- What is there evolves while a key is made. -/
theorem evolves_generateKey (hholds : env.gpg.Holds held) (h : Passphrases) :
    Stays (fun w => EvolvedFrom held h w.gnupg) (fun _ => True) (GPGService.generateKey env request secret) := by
  apply stays_generateKey
  · intro args g r g' hpopen hg
    rcases hholds.creates args secret g r g' hpopen with heq | ⟨fp, hnone, hnew⟩
    · unfold EvolvedFrom
      rw [heq]
      exact hg
    · unfold EvolvedFrom
      rw [hnew]
      exact hg.trans (Passphrases.evolves_update hnone _)
  · intro g r g' hlist hg
    unfold EvolvedFrom
    rw [hholds.lists true g r g' hlist]
    exact hg

theorem evolves_deletion (hholds : env.gpg.Holds held) (h : Passphrases) {passphrase : Option Bytes} :
    Stays (fun w => EvolvedFrom held h w.gnupg) (fun _ => True) (GPGService.deleteKey env fingerprint true passphrase) := by
  apply stays_deleteKey
  · intro fp g r g' hpopen hg
    obtain ⟨hothers, hfp⟩ := hholds.deletes fp passphrase g r g' hpopen
    refine hg.trans fun k _ => ?_
    by_cases hk : k = fp
    · rw [hk]
      exact hfp
    · exact .inl (hothers k hk)
  · intro g r g' hlist hg
    unfold EvolvedFrom
    rw [hholds.lists false g r g' hlist]
    exact hg

theorem evolves_discardUnopenableKey (hholds : env.gpg.Holds held)
    (h : (discardUnopenableKey env service fingerprint secret).run w = .ok () w') :
    (held w.gnupg).Evolves (held w'.gnupg) := by
  have hemit : Keeps World.gnupg (emitFailed env service (lit "key_created_with_token") (lit "orphan_key")) := fun u =>
    congrArg Stores.gnupg (keeps_emitBestEffort env steady_stores _ _ _ _ u)
  have hstays : Stays (fun u : World γ Time => EvolvedFrom held (held w.gnupg) u.gnupg) (fun _ => True)
      (discardUnopenableKey env service fingerprint secret) :=
    (evolves_deletion hholds _).catching fun _ _ => stays_of_keeps hemit
  exact (hstays w (.refl _)).of_run_eq_ok h

/-- The key that is returned has the passphrase that was given, where it is the
one that was made. -/
theorem held_of_generateKey (hholds : env.gpg.Holds held)
    (hnames : GPGService.NamesNew env (fun g => (held g).keyring) request w.gnupg)
    (h : (GPGService.generateKey env request secret).run w = .ok fingerprint w') :
    held w.gnupg fingerprint = none ∧
      held w'.gnupg = Function.update (held w.gnupg) fingerprint (some (some secret)) := by
  obtain ⟨hnone, hthere⟩ := GPGService.createsNew_of_namesNew hholds.generates hholds.listsSecret hnames secret fingerprint
    w w' rfl h
  obtain ⟨userId, args, out, g', hcheck, -, hpopen, hok, hfrom⟩ := GPGService.generateKey_eq_ok h
  obtain ⟨rest, rfl⟩ := GPGService.checkRequest_args hcheck
  obtain ⟨new, hnew, hheld, -⟩ := hholds.reports _ _ _ _ _ hpopen hok
  have hend : held w'.gnupg = held g' := by
    rcases hfrom with ⟨-, -, hg⟩ | ⟨-, keys, hlist, -⟩
    · rw [hg]
    · exact hholds.lists _ _ _ _ hlist
  -- only one key has come
  have heq : fingerprint = new := by
    by_contra hne
    obtain ⟨pass, hpass⟩ := Passphrases.keyring_ne_none.mp hthere
    rw [hend, hheld, Function.update_of_ne hne] at hpass
    exact Passphrases.keyring_ne_none.mpr ⟨pass, hpass⟩ hnone
  rw [hend, hheld, heq]
  exact ⟨hnew, rfl⟩

/-- A signature is made with the passphrase of the key. -/
theorem ensures_verifyPassphrase (hholds : env.gpg.Holds held) {fpr : Str} {passphrase : Bytes} (s : Stores γ)
    (hfpr : GPGService.validateFingerprint fpr = .ok fpr) :
    Ensures (verifyPassphrase env fpr passphrase) s
      (fun _ s' => held s'.gnupg = held s.gnupg ∧ s'.store = s.store ∧ held s.gnupg fpr = some (some passphrase))
      fun _ s' => held s'.gnupg = held s.gnupg ∧ s'.store = s.store := by
  have hsign : Ensures (GPGService.sign env probeData fpr passphrase true) s
      (fun _ s' => held s'.gnupg = held s.gnupg ∧ s'.store = s.store ∧ held s.gnupg fpr = some (some passphrase))
      fun _ s' => held s'.gnupg = held s.gnupg ∧ s'.store = s.store := by
    unfold GPGService.sign
    rw [hfpr]
    refine Ensures.bind (Q := fun fp s' => fp = fpr ∧ s' = s)
      (.ofExcept (fun fp h => ⟨(Except.ok.inj h).symm, rfl⟩) nofun) ?_
    rintro fp s' ⟨rfl, rfl⟩
    refine Ensures.bind (Q := fun proc s1 => held s1.gnupg = held s'.gnupg ∧ s1.store = s'.store ∧
      (proc.returncode = 0 → held s'.gnupg fp = some (some passphrase)))
      (GPGService.ensures_runGpg (fun _ => ⟨rfl, rfl⟩) ?_ ?_) ?_
    · intro out g hpopen
      obtain ⟨hsame, hpass⟩ := hholds.signs _ _ _ _ _ _ hpopen
      exact ⟨hsame, rfl, hpass out rfl⟩
    · intro e g hpopen
      exact ⟨(hholds.signs _ _ _ _ _ _ hpopen).1, rfl⟩
    · rintro proc s1 ⟨hsame, hstore, hpass⟩
      refine .ofExcept (fun text htext => ⟨hsame, hstore, hpass ?_⟩) fun _ _ => ⟨hsame, hstore⟩
      by_contra hfailed
      unfold GPGService.signed at htext
      rw [if_pos (.inl hfailed)] at htext
      obtain ⟨-, -, htext⟩ := bind_eq_ok htext
      cases htext
  refine Ensures.catching (hsign.bind fun _ s' h => .pure h) fun e s' h => ?_
  split_ifs
  · exact .raise h
  · exact .raise h

end Gnupg

/-! ### What the slots hold -/

section Slots

variable (env : Platform γ Time) (prf : Bytes → Bytes → Bytes) (given : Bytes → Prop)

/-- The slot was made of the passphrase, under what the token derives for its
binding or an emergency passphrase that was given, and opens to it. -/
inductive Opens (slot : KeyUnlockSlot) (pass : Bytes) : Prop
  | token {credential : FidoCredential} (htype : slot.type = .fido) (hfido : slot.fido = some credential)
    (hseals : KeyUnlock.Seals env slot (prf credential.credentialId credential.salt) pass)
    (hopens : KeyUnlock.unwrapWithToken env slot (prf credential.credentialId credential.salt) = .ok pass)
  | fallback {passphrase key : Bytes} {kdf : KDFFields} (hgiven : given passphrase) (htype : slot.type = .passphrase)
    (hkdf : slot.kdf = some kdf) (hkey : deriveKeyOf env passphrase kdf.salt kdf.toParams = .ok key)
    (hseals : KeyUnlock.Seals env slot key pass)
    (hopens : ∀ w : World γ Time, ∃ w',
      (KeyUnlock.unwrapWithPassphrase env slot passphrase kdf.toParams).run w = .ok pass w')

variable (held : γ → Passphrases)

/-- Every row is a slot of a key that there has been. If the key is there, the
slot opens to its passphrase. -/
structure Sound (s : Stores γ) : Prop where
  numbered : s.store.Numbered
  rows : ∀ row ∈ s.store.unlockSlots, ∃ slot, row = MetadataStore.rowOf row.fingerprint (row.id, slot) ∧
    held s.gnupg row.fingerprint ≠ none ∧
    ∀ pass, held s.gnupg row.fingerprint = some (some pass) → Opens env prf given slot pass

variable {env prf given held} {s s' : Stores γ}

/-- What an opened slot holds. -/
theorem Opens.seals {slot : KeyUnlockSlot} {pass : Bytes} (h : Opens env prf given slot pass) :
    ∃ key, KeyUnlock.Seals env slot key pass := by
  cases h with
  | token _ _ hseals _ => exact ⟨_, hseals⟩
  | fallback _ _ _ _ hseals _ => exact ⟨_, hseals⟩

theorem opens_of_madeFrom {lib : Fido2 δ} {slot : KeyUnlockSlot} {secret tokenSecret : Bytes} {credential : FidoCredential}
    {emergencyPassphrase : Option Bytes} (hinverts : env.aead.Inverts) (hderives : lib.Derives prf)
    (hderived : DerivedFrom lib credential tokenSecret) (hgiven : ∀ p, emergencyPassphrase = some p → given p)
    (h : MadeFrom env secret tokenSecret credential emergencyPassphrase slot) : Opens env prf given slot secret := by
  cases h with
  | token htype hfido hseals =>
    obtain ⟨client, challenge, d, results, d', hassertion, hprf, -⟩ := hderived
    obtain rfl := hderives client (requestOf credential challenge) d results d' tokenSecret hassertion hprf
    exact .token htype hfido hseals (hseals.unwrapWithToken hinverts htype)
  | fallback hp htype hkdf hkey hseals =>
    exact .fallback (hgiven _ hp) htype hkdf hkey hseals (hseals.unwrapWithPassphrase hinverts htype hkdf hkey)

/-- A key that there was is left alone, or goes. -/
theorem Sound.evolve (h : Sound env prf given held s) (hstore : s'.store = s.store)
    (hevolves : (held s.gnupg).Evolves (held s'.gnupg)) : Sound env prf given held s' := by
  refine ⟨by rw [hstore]; exact h.numbered, fun row hrow => ?_⟩
  rw [hstore] at hrow
  obtain ⟨slot, hof, hthere, hopens⟩ := h.rows row hrow
  exact ⟨slot, hof, hevolves.ne_none hthere, fun pass hpass => hopens pass (hevolves.eq_of_some hthere hpass)⟩

/-- Slots of a key that is there are added. -/
theorem Sound.grow (h : Sound env prf given held s) {fpr : Str} {slots : List KeyUnlockSlot} {pass : Bytes}
    (hgrown : GrownBy fpr slots s s') (hpass : held s.gnupg fpr = some (some pass))
    (hopens : ∀ slot ∈ slots, Opens env prf given slot pass) : Sound env prf given held s' := by
  obtain ⟨hgnupg, hextended⟩ := hgrown
  refine ⟨hextended.numbered h.numbered, fun row hrow => ?_⟩
  rw [hgnupg]
  obtain ⟨-, new, hrows, -, hnew⟩ := hextended
  rw [hrows] at hrow
  rcases List.mem_append.mp hrow with hrow | hrow
  · exact h.rows row hrow
  · obtain ⟨-, -, slot, hslot, hof⟩ := hnew row hrow
    have hfpr : row.fingerprint = fpr := congrArg UnlockSlotRow.fingerprint hof
    rw [hfpr]
    refine ⟨slot, hof, by rw [hpass]; exact Option.some_ne_none _, fun pass' hpass' => ?_⟩
    obtain rfl : pass = pass' := by simpa [hpass] using hpass'
    exact hopens slot hslot

theorem Sound.deleteRows (h : Sound env prf given held s) (p : UnlockSlotRow → Bool) :
    Sound env prf given held { s with store := s.store.deleteRows p } :=
  ⟨h.numbered.deleteRows p, fun row hrow => h.rows row (List.mem_of_mem_filter hrow)⟩

end Slots

/-! ### Calls -/

/-- A call of the service. -/
inductive EnrolmentCall
  | create (request : GPGService.KeyRequest) (pin : Bytes) (emergencyPassphrase : Option Bytes)
  | bind (fingerprint : Str) (passphrase pin : Bytes)
  | forget (fingerprint : Str)

section Calls

variable (env : Platform γ Time) (lib : Fido2 δ) (service : EnrolmentService)

/-- The call, with what it returns left out. -/
def EnrolmentCall.run : EnrolmentCall → Program (TokenWorld δ γ Time) Exc Unit
  | .create request pin emergencyPassphrase => do
    let _ ← createKeyWithToken env lib service request pin emergencyPassphrase
  | .bind fingerprint passphrase pin => bindExistingKey env lib service fingerprint passphrase pin
  | .forget fingerprint => forgetKey env service fingerprint

/-- Where calls end, one after the other, whether they return or raise. -/
def runCalls : List EnrolmentCall → TokenWorld δ γ Time → TokenWorld δ γ Time
  | [], b => b
  | call :: calls, b => runCalls calls ((call.run env lib service).after b)

/-- An emergency passphrase that is given in one of the calls. -/
def GivenIn (calls : List EnrolmentCall) (passphrase : Bytes) : Prop :=
  ∃ request pin, .create request pin (some passphrase) ∈ calls

variable (held : γ → Passphrases)

/-- Where it creates a key, the key that is made is found. -/
def EnrolmentCall.NamesNew : EnrolmentCall → γ → Prop
  | .create request _ _, g => GPGService.NamesNew env (fun g => (held g).keyring) request g
  | _, _ => True

/-- Every creation finds the key that it has made. -/
def NamesNewIn : List EnrolmentCall → TokenWorld δ γ Time → Prop
  | [], _ => True
  | call :: calls, b =>
    call.NamesNew env held b.world.gnupg ∧ NamesNewIn calls ((call.run env lib service).after b)

variable (prf : Bytes → Bytes → Bytes) (given : Bytes → Prop)

/-- **The slots recover the passphrases.** -/
structure Recovers (b : TokenWorld δ γ Time) : Prop where
  /-- Every slot of a key that is there opens to its passphrase, under what it was
  made with. -/
  slots : ∀ row ∈ b.world.store.unlockSlots, ∀ pass, held b.world.gnupg row.fingerprint = some (some pass) →
    ∃ slot, KeyUnlockSlot.modelValidateJson env.pydantic row.slotJson = some slot ∧ Opens env prf given slot pass
  token : ∀ fingerprint fpr pin pass secret b', MetadataStore.normalise fingerprint = .ok fpr →
    held b.world.gnupg fpr = some (some pass) →
      (unlockWithToken env lib service.toKeyUnlockService fingerprint pin).run b = .ok secret b' → secret = pass
  passphrase : ∀ fingerprint fpr passphrase pass secret b', MetadataStore.normalise fingerprint = .ok fpr →
    held b.world.gnupg fpr = some (some pass) →
      (unlockWithPassphrase env service fingerprint passphrase).run b = .ok secret b' → secret = pass

end Calls

/-! ### One call -/

section Steps

variable {env : Platform γ Time} {lib : Fido2 δ} {service : EnrolmentService} {prf : Bytes → Bytes → Bytes}
  {given : Bytes → Prop} {held : γ → Passphrases} {b : TokenWorld δ γ Time} {request : GPGService.KeyRequest}
  {emergencyPassphrase : Option Bytes}

/-- After a key was made and its slots were stored, as many as could be. -/
theorem Made.sound {secret : Bytes} {fingerprint : Str} {slots : List KeyUnlockSlot} {w1 w2 w3 : World γ Time}
    (h : Made env lib request emergencyPassphrase b.world secret fingerprint slots w1 w2 w3)
    (hholds : env.gpg.Holds held) (hinverts : env.aead.Inverts) (hderives : lib.Derives prf)
    (hnames : GPGService.NamesNew env (fun g => (held g).keyring) request b.world.gnupg)
    (hgiven : ∀ p, emergencyPassphrase = some p → given p) (hs : Sound env prf given held b.world.stores) :
    Sound env prf given held w3.stores := by
  have hstart : w1.stores = b.world.stores := congrArg Prod.fst h.start
  have hgnupg : w1.gnupg = b.world.gnupg := congrArg Stores.gnupg hstart
  rw [← hgnupg] at hnames
  rw [← hstart] at hs
  obtain ⟨hnone, hheld⟩ := held_of_generateKey hholds hnames h.generated
  have hmade : Sound env prf given held w2.stores := by
    refine hs.evolve (keeps_store_generateKey.of_run_eq_ok h.generated) ?_
    change (held w1.gnupg).Evolves (held w2.gnupg)
    rw [hheld]
    exact Passphrases.evolves_update hnone _
  obtain ⟨tokenSecret, credential, hderived, hslots⟩ := h.built.made
  have hpass : held w2.gnupg fingerprint = some (some secret) := by rw [hheld, Function.update_self]
  exact hmade.grow h.grown hpass fun slot hslot => opens_of_madeFrom hinverts hderives hderived hgiven (hslots slot hslot)

theorem sound_create (hholds : env.gpg.Holds held) (hinverts : env.aead.Inverts) (hderives : lib.Derives prf)
    (hnames : GPGService.NamesNew env (fun g => (held g).keyring) request b.world.gnupg)
    (hgiven : ∀ p, emergencyPassphrase = some p → given p) (pin : Bytes) (hs : Sound env prf given held b.world.stores) :
    (createKeyWithToken env lib service request pin emergencyPassphrase).Meets b
      (fun _ b' => Sound env prf given held b'.world.stores) fun _ b' => Sound env prf given held b'.world.stores := by
  unfold Meets
  cases hrun : (createKeyWithToken env lib service request pin emergencyPassphrase).run b with
  | ok fingerprint b' =>
    obtain ⟨secret, slots, w1, w2, hmade, -⟩ := createKeyWithToken_eq_ok hs.numbered hrun
    exact hmade.sound hholds hinverts hderives hnames hgiven hs
  | error e b' =>
    rcases createKeyWithToken_eq_error hs.numbered hrun with hsame | ⟨secret, w1, hstart, hfails⟩ |
      ⟨secret, fingerprint, slots, w1, w2, w3, hmade, hdiscard⟩
    · have hstores : b'.world.stores = b.world.stores := congrArg Prod.fst hsame
      dsimp only
      rw [hstores]
      exact hs
    · have hstores : w1.stores = b.world.stores := congrArg Prod.fst hstart
      rw [← hstores] at hs
      have hevolves : EvolvedFrom held (held w1.gnupg) b'.world.gnupg :=
        ((evolves_generateKey hholds _ w1 (.refl _)).of_run_eq_error hfails).1
      exact hs.evolve (keeps_store_generateKey.of_run_eq_error hfails) hevolves
    · exact (hmade.sound hholds hinverts hderives hnames hgiven hs).evolve
        (keeps_store_discardUnopenableKey.of_run_eq_ok hdiscard) (evolves_discardUnopenableKey hholds hdiscard)

theorem meets_wrapWithToken {secret tokenSecret : Bytes} {credential : FidoCredential} (w : World γ Time) :
    (KeyUnlock.wrapWithToken env secret tokenSecret credential).Meets w
      (fun slot w' => w'.stores = w.stores ∧ MadeFrom env secret tokenSecret credential none slot)
      fun _ w' => w'.stores = w.stores := by
  have hkeeps : Keeps World.stores (KeyUnlock.wrapWithToken env secret tokenSecret credential) :=
    keeps_wrapWithToken steady_stores
  unfold Meets
  cases hrun : (KeyUnlock.wrapWithToken env secret tokenSecret credential).run w with
  | ok slot w' =>
    obtain ⟨htype, hfido, hseals⟩ := KeyUnlock.wrapWithToken_eq_ok hrun
    exact ⟨hkeeps.of_run_eq_ok hrun, .token htype hfido hseals⟩
  | error e w' => exact hkeeps.of_run_eq_error hrun

theorem sound_bind (hholds : env.gpg.Holds held) (hinverts : env.aead.Inverts) (hderives : lib.Derives prf)
    (fingerprint : Str) (passphrase pin : Bytes) (hs : Sound env prf given held b.world.stores) :
    (bindExistingKey env lib service fingerprint passphrase pin).Meets b
      (fun _ b' => Sound env prf given held b'.world.stores) fun _ b' => Sound env prf given held b'.world.stores := by
  have hsame {s : Stores γ} (hheld : held s.gnupg = held b.world.gnupg) (hstore : s.store = b.world.store) :
      Sound env prf given held s := by
    refine hs.evolve hstore ?_
    rw [hheld]
    exact .refl _
  have hnone : ∀ p, (none : Option Bytes) = some p → given p := nofun
  unfold bindExistingKey
  cases hn : MetadataStore.normalise fingerprint with
  | error e => exact hs
  | ok fpr =>
    have hisFp : IsFingerprint fpr := isFingerprint_of_normalise (MetadataStore.normalise_eq_ok.mp hn)
    have hvalid : GPGService.validateFingerprint fpr = .ok fpr := by
      simp [GPGService.validateFingerprint, normalise_of_isFingerprint hisFp]
    have hfpr : MetadataStore.normalise fpr = .ok fpr :=
      MetadataStore.normalise_eq_ok.mpr (normalise_of_isFingerprint hisFp)
    cases KeyUnlock.checkSecret passphrase with
    | error e => exact hs
    | ok u =>
      rw [meets_bind, meets_ofExcept_ok, meets_bind, meets_ofExcept_ok, meets_bind, onWorld, meets_onPart]
      refine (ensures_verifyPassphrase hholds b.world.stores hvalid b.world rfl).mono ?_ ?_
      · rintro ⟨⟩ w1 ⟨hheld, hstore, hpass⟩
        rw [meets_bind]
        have hs1 : Sound env prf given held w1.stores := hsame hheld hstore
        refine (meets_enroll env lib steady_stores service.fido pin _ true _).mono ?_ ?_
        · rintro ⟨credential, tokenSecret⟩ b2 ⟨h2, octets, hopen, hderived⟩
          rw [meets_bind, meets_ensuring, meets_bind]
          refine meets_viewOpen hopen ?_
          rw [onWorld, meets_onPart]
          have h2' : b2.world.stores = w1.stores := h2
          refine (meets_wrapWithToken b2.world).mono ?_ ?_
          · rintro slot w3 ⟨h3, hmade⟩
            have h3' : w3.stores = w1.stores := h3.trans h2'
            have hheld3 : held w3.stores.gnupg = held b.world.gnupg := by rw [h3']; exact hheld
            have hs3 : Sound env prf given held w3.stores := by rw [h3']; exact hs1
            change Meets (onPart _ _ _) _ _ _
            rw [meets_onPart]
            refine (ensures_persist (s := w3.stores) hs3.numbered hfpr _ rfl).mono ?_ ?_
            · rintro ⟨⟩ w4 ⟨hgrown, -⟩
              refine hs3.grow hgrown (by rw [hheld3]; exact hpass) ?_
              rw [List.forall_mem_singleton]
              exact opens_of_madeFrom hinverts hderives hderived hnone hmade
            · intro e w4 hgrown
              refine hs3.grow hgrown (by rw [hheld3]; exact hpass) ?_
              rw [List.forall_mem_singleton]
              exact opens_of_madeFrom hinverts hderives hderived hnone hmade
          · intro e w3 h3
            have h3' : w3.stores = w1.stores := h3.trans h2'
            change Sound env prf given held w3.stores
            rw [h3']
            exact hs1
        · intro e b2 h2
          have h2' : b2.world.stores = w1.stores := h2
          rw [h2']
          exact hs1
      · rintro e w1 ⟨hheld, hstore⟩
        exact hsame hheld hstore

theorem sound_forget (fingerprint : Str) (hs : Sound env prf given held b.world.stores) :
    (forgetKey env service fingerprint).Meets b
      (fun _ b' => Sound env prf given held b'.world.stores) fun _ b' => Sound env prf given held b'.world.stores := by
  rw [forgetKey, meets_bind, onWorld, meets_onPart]
  refine (MetadataStore.ensures_deleteUnlockSlots fingerprint b.world.stores b.world rfl).mono ?_ ?_
  · rintro ⟨⟩ w1 ⟨fpr, -, h1⟩
    have hs1 : Sound env prf given held w1.stores := by
      rw [h1]
      exact hs.deleteRows _
    refine meets_onWorld (keeps_emitBestEffort env steady_stores _ _ _ _) (fun e w h => ?_) fun _ w h => ?_
    · change Sound env prf given held w.stores
      rw [h]
      exact hs1
    · change Sound env prf given held w.stores
      rw [h]
      exact hs1
  · intro e w1 h1
    change Sound env prf given held w1.stores
    rw [h1]
    exact hs

end Steps

/-! ### Unlocking -/

section Unlocking

variable {env : Platform γ Time} {lib : Fido2 δ} {service : EnrolmentService} {prf : Bytes → Bytes → Bytes}
  {given : Bytes → Prop} {held : γ → Passphrases} {b b' : TokenWorld δ γ Time} {fingerprint fpr : Str}
  {pass secret : Bytes}

/-- The slots that the store shows of a key that is there. -/
theorem Sound.opens {s : Stores γ} (hs : Sound env prf given held s) {id : ℕ} {slot : KeyUnlockSlot}
    (hpass : held s.gnupg fpr = some (some pass)) (h : (id, slot) ∈ s.store.slotsOf env.pydantic fpr) :
    Opens env prf given slot pass := by
  obtain ⟨row, hrow, rfl, -, hparse⟩ := (MetadataStore.mem_slotsOf env.pydantic).mp h
  obtain ⟨slot', hof, -, hopens⟩ := hs.rows row hrow
  have hjson : row.slotJson = slot'.modelDumpJson := congrArg UnlockSlotRow.slotJson hof
  rw [hjson, slot'.modelValidateJson_modelDumpJson] at hparse
  obtain rfl := Option.some.inj hparse
  exact hopens pass hpass

theorem storedSlots_eq_ok {stored : List (ℕ × KeyUnlockSlot)} (hfpr : MetadataStore.normalise fingerprint = .ok fpr)
    (h : (storedSlots env fingerprint).run b = .ok stored b') : stored = b.world.store.slotsOf env.pydantic fpr := by
  obtain ⟨w, h, -⟩ := run_onPart_eq_ok.mp h
  obtain ⟨fpr', w1, h1, h⟩ := run_bind_eq_ok.mp h
  obtain ⟨hfpr', rfl⟩ := run_ofExcept_eq_ok.mp h1
  obtain rfl := Except.ok.inj (hfpr.symm.trans hfpr')
  exact ((MetadataStore.ensures_unlockSlotsOf env.pydantic fpr b.world.stores).of_run_eq_ok h).1

theorem Sound.eq_of_unlockWithToken (hs : Sound env prf given held b.world.stores) (hinverts : env.aead.Inverts)
    (hauthentic : env.aead.Authentic) (hfpr : MetadataStore.normalise fingerprint = .ok fpr)
    (hpass : held b.world.gnupg fpr = some (some pass)) {service : KeyUnlockService} {pin : Bytes}
    (h : (unlockWithToken env lib service fingerprint pin).run b = .ok secret b') : secret = pass := by
  obtain ⟨stored, b1, hstored, h⟩ := run_bind_eq_ok.mp h
  obtain rfl := storedSlots_eq_ok hfpr hstored
  dsimp only at h
  split_ifs at h
  · cases h
  obtain ⟨found, b2, htry, h⟩ := run_bind_eq_ok.mp h
  obtain ⟨-, b3, -, h⟩ := run_bind_eq_ok.mp h
  obtain ⟨rfl, -⟩ := run_pure_eq_ok.mp h
  have hloop : (tryTokens env lib service pin (fidoSlots (b.world.store.slotsOf env.pydantic fpr))).Meets b1
      (fun found _ => found = pass) fun _ _ => True := by
    refine Meets.firstOf (I := fun _ => True) (fun _ s _ => meets_of_forall_ok fun a s' hrun => ?_)
      (fun slot hslot s _ => ?_)
      none b1 trivial
    · obtain ⟨-, s1, -, hrun⟩ := run_bind_eq_ok.mp hrun
      cases hrun
    · refine (meets_of_forall_ok fun found s' hrun => ?_).mono (fun _ _ h => h) fun e s' _ => by split_ifs
      obtain ⟨⟨id, slot'⟩, hmem, hslot'⟩ : ∃ stored ∈ b.world.store.slotsOf env.pydantic fpr, stored.2 = slot.1 := by
        obtain ⟨slot', hslot', hbound⟩ := List.mem_filterMap.mp hslot
        obtain ⟨credential, -, rfl⟩ := Option.map_eq_some_iff.mp hbound
        exact List.mem_map.mp (List.mem_of_mem_filter hslot')
      obtain rfl : slot' = slot.1 := hslot'
      obtain ⟨key, hseals⟩ := (hs.opens hpass hmem).seals
      obtain ⟨tokenSecret, s1, -, hrun⟩ := run_bind_eq_ok.mp hrun
      obtain ⟨s2, hrun, -⟩ := run_ensuring_eq_ok.mp hrun
      obtain ⟨octets, s3, -, hrun⟩ := run_bind_eq_ok.mp hrun
      exact hseals.eq_of_unwrapWithToken hinverts hauthentic (run_ofExcept_eq_ok.mp hrun).1
  exact hloop.of_run_eq_ok htry

theorem Sound.eq_of_unlockWithPassphrase (hs : Sound env prf given held b.world.stores) (hinverts : env.aead.Inverts)
    (hauthentic : env.aead.Authentic) (hfpr : MetadataStore.normalise fingerprint = .ok fpr)
    (hpass : held b.world.gnupg fpr = some (some pass)) {passphrase : Bytes}
    (h : (unlockWithPassphrase env service fingerprint passphrase).run b = .ok secret b') : secret = pass := by
  obtain ⟨stored, b1, hstored, h⟩ := run_bind_eq_ok.mp h
  obtain rfl := storedSlots_eq_ok hfpr hstored
  dsimp only at h
  split_ifs at h
  · cases h
  obtain ⟨found, b2, htry, h⟩ := run_bind_eq_ok.mp h
  obtain ⟨-, b3, -, h⟩ := run_bind_eq_ok.mp h
  obtain ⟨rfl, -⟩ := run_pure_eq_ok.mp h
  refine (Meets.firstOf (I := fun _ => True) (Q := fun found _ => found = pass) (E := fun _ _ => True)
    (fun _ s _ => meets_of_forall_ok fun a s' hrun => ?_) (fun slot hslot s _ => ?_) none b1 trivial).of_run_eq_ok htry
  · obtain ⟨-, s1, -, hrun⟩ := run_bind_eq_ok.mp hrun
    cases hrun
  · refine (meets_of_forall_ok fun found s' hrun => ?_).mono (fun _ _ h => h) fun e s' _ => by split_ifs
    obtain ⟨slot', hslot', hkdf⟩ := List.mem_filterMap.mp hslot
    split_ifs at hkdf
    obtain ⟨kdf, -, rfl⟩ := Option.map_eq_some_iff.mp hkdf
    obtain ⟨⟨id, stored⟩, hmem, rfl⟩ := List.mem_map.mp hslot'
    obtain ⟨key, hseals⟩ := (hs.opens hpass hmem).seals
    obtain ⟨w, hrun, -⟩ := run_onPart_eq_ok.mp hrun
    exact hseals.eq_of_unwrapWithPassphrase hinverts hauthentic hrun

end Unlocking

/-! ### Runs -/

section Runs

variable {env : Platform γ Time} {lib : Fido2 δ} {service : EnrolmentService} {prf : Bytes → Bytes → Bytes}
  {given : Bytes → Prop} {held : γ → Passphrases}

theorem Sound.recovers {b : TokenWorld δ γ Time} (hs : Sound env prf given held b.world.stores)
    (hinverts : env.aead.Inverts) (hauthentic : env.aead.Authentic) : Recovers env lib service held prf given b := by
  refine ⟨fun row hrow pass hpass => ?_, ?_, ?_⟩
  · obtain ⟨slot, hof, -, hopens⟩ := hs.rows row hrow
    have hjson : row.slotJson = slot.modelDumpJson := congrArg UnlockSlotRow.slotJson hof
    exact ⟨slot, by rw [hjson]; exact slot.modelValidateJson_modelDumpJson env.pydantic, hopens pass hpass⟩
  · intro fingerprint fpr pin pass secret b' hfpr hpass h
    exact hs.eq_of_unlockWithToken hinverts hauthentic hfpr hpass h
  · intro fingerprint fpr passphrase pass secret b' hfpr hpass h
    exact hs.eq_of_unlockWithPassphrase hinverts hauthentic hfpr hpass h

/-- What one call does. -/
theorem sound_call (hholds : env.gpg.Holds held) (hinverts : env.aead.Inverts) (hderives : lib.Derives prf)
    {b : TokenWorld δ γ Time} (hs : Sound env prf given held b.world.stores) (call : EnrolmentCall)
    (hgiven : ∀ p, GivenIn [call] p → given p) (hnames : call.NamesNew env held b.world.gnupg) :
    Sound env prf given held ((call.run env lib service).after b).world.stores := by
  have hmeets : (call.run env lib service).Meets b (fun _ b' => Sound env prf given held b'.world.stores)
      fun _ b' => Sound env prf given held b'.world.stores := by
    cases call with
    | create request pin emergencyPassphrase =>
      rw [EnrolmentCall.run, meets_bind]
      refine sound_create hholds hinverts hderives hnames (fun p hp => hgiven p ⟨request, pin, ?_⟩) pin hs
      rw [hp]
      exact List.mem_singleton.mpr rfl
    | bind fingerprint passphrase pin => exact sound_bind hholds hinverts hderives fingerprint passphrase pin hs
    | forget fingerprint => exact sound_forget fingerprint hs
  unfold after
  cases hrun : (call.run env lib service).run b with
  | ok u b' => exact hmeets.of_run_eq_ok hrun
  | error e b' => exact hmeets.of_run_eq_error hrun

theorem sound_runCalls (hholds : env.gpg.Holds held) (hinverts : env.aead.Inverts) (hderives : lib.Derives prf) :
    ∀ (calls : List EnrolmentCall) {b : TokenWorld δ γ Time}, Sound env prf given held b.world.stores →
      (∀ p, GivenIn calls p → given p) → NamesNewIn env lib service held calls b →
        Sound env prf given held (runCalls env lib service calls b).world.stores
  | [], _, hs, _, _ => hs
  | call :: calls, b, hs, hgiven, hnames => by
    refine sound_runCalls hholds hinverts hderives calls
      (sound_call hholds hinverts hderives hs call (fun p hp => hgiven p ?_) hnames.1) (fun p hp => hgiven p ?_) hnames.2
    · obtain ⟨request, pin, hmem⟩ := hp
      exact ⟨request, pin, List.mem_cons.mpr (.inl (List.mem_singleton.mp hmem))⟩
    · obtain ⟨request, pin, hmem⟩ := hp
      exact ⟨request, pin, List.mem_cons_of_mem _ hmem⟩

/-- **After every run whose creations find the keys that they have made**, the
slots of a key that is there open to its passphrase, and that is what an
unlocking returns. -/
theorem recovers_of_namesNew (hholds : env.gpg.Holds held) (hinverts : env.aead.Inverts)
    (hauthentic : env.aead.Authentic) (hderives : lib.Derives prf) {b : TokenWorld δ γ Time}
    (hempty : b.world.store.unlockSlots = []) (calls : List EnrolmentCall)
    (hnames : NamesNewIn env lib service held calls b) :
    Recovers env lib service held prf (GivenIn calls) (runCalls env lib service calls b) := by
  have hstart : Sound env prf (GivenIn calls) held b.world.stores := by
    have hrows : b.world.stores.store.unlockSlots = [] := hempty
    refine ⟨⟨?_, ?_⟩, ?_⟩
    · rw [hrows]
      exact .nil
    · rw [hrows]
      exact nofun
    · rw [hrows]
      exact nofun
  exact (sound_runCalls hholds hinverts hderives calls hstart (fun _ hp => hp) hnames).recovers hinverts hauthentic

end Runs

/-! ### A home with two keys of one name -/

section Sample

open GPGService

theorem popen_sign (reports : Bool) (fp : Str) (data passphrase : Bytes) (g : SampleHome) :
    (sampleGnuPG reports).popen (signArgs fp true) (some data) (some passphrase) g =
      if g.held fp = some (some passphrase) then (.ok { returncode := 0, stdout := ascii "signature" }, g)
      else (.ok { returncode := 2 }, g) := by
  have htake : (signArgs fp true).take 2 ≠ [lit "--yes", lit "--quick-generate-key"] := by
    change [lit "--armor", lit "--local-user"] ≠ _
    decide
  dsimp only [sampleGnuPG]
  rw [if_neg htake]
  simp [signArgs]

/-- What a run for a new key does. -/
theorem held_generate {reports : Bool} {args : List Str} {passphrase : Bytes} {g g' : SampleHome}
    {r : Except Exc Gpg.Output}
    (h : (sampleGnuPG reports).popen (lit "--yes" :: lit "--quick-generate-key" :: args) none
      (some passphrase) g = (r, g')) :
    g' = g ∧ r = .ok { returncode := 2 } ∨
      g.held newFp = none ∧ g'.held = Function.update g.held newFp (some (some passphrase)) ∧
        r = .ok { returncode := 0, reads := if reports then [newRecord] else [] } := by
  rw [popen_generate] at h
  have hne : newFp ≠ oldFp := by decide
  cases hnew : g.new with
  | some held =>
    rw [hnew] at h
    obtain ⟨rfl, rfl⟩ := Prod.mk.inj h
    exact .inl ⟨rfl, rfl⟩
  | none =>
    rw [hnew] at h
    obtain ⟨rfl, rfl⟩ := Prod.mk.inj h
    refine .inr ⟨?_, ?_, rfl⟩
    · simp [SampleHome.held, hne, hnew]
    · funext k
      by_cases hk : k = newFp
      · subst hk
        simp [SampleHome.held, hne]
      · simp [SampleHome.held, hk]

theorem holds_sample (reports : Bool) : (sampleGnuPG reports).Holds SampleHome.held where
  creates args passphrase g r g' h := by
    rcases held_generate h with ⟨rfl, -⟩ | ⟨hnone, hnew, -⟩
    · exact .inl rfl
    · exact .inr ⟨newFp, hnone, hnew⟩
  reports args passphrase g out g' h hok := by
    rcases held_generate h with ⟨-, hout⟩ | ⟨hnone, hnew, hout⟩
    · obtain rfl := Except.ok.inj hout
      cases hok
    · obtain rfl := Except.ok.inj hout
      refine ⟨newFp, hnone, hnew, ?_⟩
      cases reports <;> decide +kernel
  lists secret g r g' h := by
    obtain ⟨-, rfl⟩ := Prod.mk.inj h
    rfl
  shows := (listsSecret_sample reports).shows
  deletes fp passphrase g r g' h := by
    rw [popen_delete] at h
    obtain ⟨-, rfl⟩ := Prod.mk.inj h
    unfold SampleHome.held SampleHome.delete
    dsimp only
    refine ⟨fun k hk => ?_, ?_⟩
    · by_cases h1 : k = oldFp
      · rw [if_pos h1, if_pos h1, if_neg (h1 ▸ hk.symm)]
      · rw [if_neg h1, if_neg h1]
        by_cases h2 : k = newFp
        · rw [if_pos h2, if_pos h2, if_neg (h2 ▸ hk.symm)]
        · rw [if_neg h2, if_neg h2]
    · by_cases h1 : fp = oldFp
      · exact .inr (by simp [h1])
      · simp only [if_neg h1]
        by_cases h2 : fp = newFp
        · simp only [if_pos h2]
          cases g.new with
          | none => exact .inl rfl
          | some held => exact .inr rfl
        · exact .inl (by simp only [if_neg h2])
  signs fp data passphrase g r g' h := by
    rw [popen_sign] at h
    split_ifs at h with hpass
    · obtain ⟨rfl, rfl⟩ := Prod.mk.inj h
      exact ⟨rfl, fun _ _ _ => hpass⟩
    · obtain ⟨rfl, rfl⟩ := Prod.mk.inj h
      refine ⟨rfl, fun out hout hok => ?_⟩
      obtain rfl := Except.ok.inj hout
      cases hok

theorem inverts_sample : sampleAead.Inverts := by
  intro cipher key nonce associatedData plaintext ciphertext h
  dsimp only [sampleAead] at h ⊢
  split_ifs at h with hlen
  obtain rfl := Option.some.inj h
  rw [if_pos ⟨hlen.1, hlen.2, List.prefix_append _ _⟩]
  congr 1
  exact List.drop_left' (by simp)

theorem authentic_sample : sampleAead.Authentic := by
  intro cipher key key' nonce associatedData associatedData' plaintext ciphertext h hne
  dsimp only [sampleAead] at h ⊢
  split_ifs at h with hlen
  obtain rfl := Option.some.inj h
  rw [if_neg]
  rintro ⟨hkey', hdata', t, ht⟩
  rw [List.append_assoc, List.append_assoc] at ht
  obtain ⟨rfl, hrest⟩ := List.append_inj ht (hkey'.trans hlen.1.symm)
  obtain ⟨hcount, hdata⟩ := List.cons.inj hrest
  have hlengths : associatedData'.length = associatedData.length := by
    have hnat := congrArg UInt8.toNat hcount
    simpa [Nat.mod_eq_of_lt hdata', Nat.mod_eq_of_lt hlen.2] using hnat
  obtain ⟨rfl, -⟩ := List.append_inj hdata hlengths
  exact hne rfl

def samplePrf (_ _ : Bytes) : Bytes := List.replicate 32 7

theorem derives_sample : sampleToken.Derives samplePrf := by
  intro client request d results d' octets h hprf
  obtain ⟨hresults, -⟩ := Prod.mk.inj h
  obtain rfl := Fido2.Reply.ok.inj hresults
  exact (Option.some.inj hprf).symm

/-- A new key, a binding of the old one, and no slots of the new one. -/
def sampleCalls : List EnrolmentCall :=
  [.create sampleRequest (ascii "1234") none, .bind oldFp (ascii "old") (ascii "1234"), .forget newFp]

/-- The token gives the passphrase of the new key for the old one. -/
theorem not_recovers : ¬ ∀ (δ γ Time : Type) (env : Platform γ Time) (lib : Fido2 δ) service prf held
    (b : TokenWorld δ γ Time) calls, env.gpg.Holds held → env.aead.Inverts → env.aead.Authentic → lib.Derives prf →
      b.world.store.unlockSlots = [] →
        Recovers env lib service held prf (GivenIn calls) (runCalls env lib service calls b) := by
  intro h
  have hrecovers := h Unit SampleHome Unit (homeEnv false) sampleToken sampleService samplePrf SampleHome.held
    (sampleTokens 100) (sampleCalls.take 1) (holds_sample false) inverts_sample authentic_sample derives_sample rfl
  have hrun : (runCalls (homeEnv false) sampleToken sampleService (sampleCalls.take 1) (sampleTokens 100)).world.gnupg.held
      oldFp = some (some (ascii "old")) ∧
      returns (fun secret _ => ! decide (secret = ascii "old"))
        (unlockWithToken (homeEnv false) sampleToken sampleService.toKeyUnlockService oldFp (ascii "1234"))
        (runCalls (homeEnv false) sampleToken sampleService (sampleCalls.take 1) (sampleTokens 100)) = true := by
    decide +kernel
  obtain ⟨secret, b', hunlock, hwrong⟩ := returns_eq_true.mp hrun.2
  have hsame := hrecovers.token oldFp oldFp (ascii "1234") (ascii "old") secret b' (by decide +kernel) hrun.1 hunlock
  simp [hsame] at hwrong

/-- Where the record of the new key is read. -/
theorem recovers_sample : Recovers (homeEnv true) sampleToken sampleService SampleHome.held samplePrf (GivenIn sampleCalls)
    (runCalls (homeEnv true) sampleToken sampleService sampleCalls (sampleTokens 100)) :=
  recovers_of_namesNew (holds_sample true) inverts_sample authentic_sample derives_sample rfl sampleCalls
    ⟨namesNew_sample rfl _, trivial, trivial, trivial⟩

end Sample

end KeyUnlockService
end GpgMeister
