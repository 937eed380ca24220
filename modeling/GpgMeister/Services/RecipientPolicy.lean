/-
# Who may be encrypted to

`enforce_recipient_policy` and `MessageService.encrypt` of
`services/message_service.py`. To speak of what GnuPG is asked in a call, GnuPG
is given a list of that (`GnuPG.watched`), which it does not look at
(`agree_encrypt`).

* `asked_encrypt`: the plaintext is handed to GnuPG at most once, and only after
  every recipient's key was looked up and found fit; nothing else but the
  listing is asked for, and GnuPG is told to trust the recipients' keys only if
  the caller has confirmed them.
-/
import GpgMeister.Lib.Agree
import GpgMeister.Lib.MapM
import GpgMeister.Services.Keyring
import GpgMeister.Services.VaultService

namespace GpgMeister

open Program

variable {γ Time α : Type}

/-! ### What GnuPG is asked -/

/-- A call of GnuPG; a listing with the answer. -/
inductive Asked (Time : Type)
  | listing (secret : Bool) (answer : Except Exc (List (KeyInfo Time)))
  | run (args : List Str) (input passphrase : Option Bytes)
  | editor (args : List Str)

def Asked.IsListing : Asked Time → Prop
  | listing _ _ => True
  | _ => False

/-- GnuPG, with a list of what it has been asked. -/
def GnuPG.watched (gpg : GnuPG γ Time) : GnuPG (γ × List (Asked Time)) Time where
  baseCmd := gpg.baseCmd
  pipes g := gpg.pipes g.1
  popen args input passphrase g :=
    ((gpg.popen args input passphrase g.1).1, (gpg.popen args input passphrase g.1).2,
      g.2 ++ [.run args input passphrase])
  listKeys secret g :=
    ((gpg.listKeys secret g.1).1, (gpg.listKeys secret g.1).2, g.2 ++ [.listing secret (gpg.listKeys secret g.1).1])
  editor args g := ((gpg.editor args g.1).1, (gpg.editor args g.1).2, g.2 ++ [.editor args])

def Platform.watched (env : Platform γ Time) : Platform (γ × List (Asked Time)) Time :=
  { env with gpg := env.gpg.watched }

def World.asked (w : World (γ × List (Asked Time)) Time) : List (Asked Time) := w.gnupg.2

/-- The world without the list. -/
def World.unwatched (w : World (γ × List (Asked Time)) Time) : World γ Time := { w with gnupg := w.gnupg.1 }

/-! ### The policy -/

/-- The `algorithm` and the `length` of a key. -/
structure KeyStrength where
  algorithm : KeyAlgorithm
  length : ℕ

namespace MessageService

open GPGService

def policyError (message : Str) : Exc where
  cls := .valueError
  message := message

structure EncryptResult (Time : Type) where
  armoredCiphertext : Str
  recipientFingerprints : List Str
  signingFingerprint : Option Str
  createdAt : Time

section Service

variable (env : Platform γ Time)
/- What a listing says of a key besides what is in `KeyInfo`. -/
variable (strength : KeyInfo Time → KeyStrength)

/-- What `enforce_recipient_policy` asks of the key of one recipient. -/
def checkKey (key : KeyInfo Time) (expired trustConfirmed : Bool) : Except Exc Unit :=
  if key.isRevoked then .error (policyError (lit "cannot encrypt to a revoked recipient key"))
  else if expired then .error (policyError (lit "cannot encrypt to an expired recipient key"))
  else if (strength key).algorithm = .dsa ∨ (strength key).algorithm = .unknown then
    .error (policyError (lit "cannot encrypt to an unsupported recipient key algorithm"))
  else if (strength key).algorithm = .rsa ∧ (strength key).length < 2048 then
    .error (policyError (lit "cannot encrypt to an RSA key below 2048 bits"))
  else if (key.trust = .unknown ∨ key.trust = .never) ∧ trustConfirmed = false then
    .error (policyError (lit "recipient trust must be confirmed before encryption"))
  else .ok ()

/-- `key.is_expired`, for which the clock is not read if the key is revoked. -/
def readExpiry (key : KeyInfo Time) : Program (World γ Time) Exc Bool :=
  if key.isRevoked then pure false else VaultService.isExpired env key

/-- One round of the loop. -/
def checkRecipient (trustConfirmed : Bool) (fp : Str) : Program (World γ Time) Exc Unit := do
  let key ← findKey env fp
  let expired ← readExpiry env key
  Program.ofExcept (checkKey strength key expired trustConfirmed)

def checkRecipients (trustConfirmed : Bool) : List Str → Program (World γ Time) Exc Unit
  | [] => return
  | fp :: fps => do
    checkRecipient env strength trustConfirmed fp
    checkRecipients trustConfirmed fps

/-- `enforce_recipient_policy` -/
def enforceRecipientPolicy (recipients : List Str) (trustConfirmed : Bool) : Program (World γ Time) Exc Unit :=
  if recipients = [] then Program.raise (policyError (lit "at least one recipient is required"))
  else checkRecipients env strength trustConfirmed recipients

/-- The record of a signature that was made. -/
def signedPayload (signer : Str) (recipients : List Str) : Dict where
  items := [(lit "fingerprint", .str signer), (lit "recipient_count", .int recipients.length)]
  unique := Dict.evaluated

/-- The record of a signature that failed. -/
def notSignedPayload (signer : Str) (e : Exc) : Dict where
  items := [(lit "fingerprint", .str signer), (lit "reason", .str e.cls.name)]
  unique := Dict.evaluated

/-- `if signer: self._audit.emit("message_signed", …)` -/
def emitSigned (signer : Option Str) (outcome : Str) (payload : Str → Dict) : Program (World γ Time) Exc Unit :=
  match signer with
  | some signer => emit env.toEnv (lit "message_signed") outcome (payload signer)
  | none => pure ()

/-- `encrypt` -/
def encrypt (plaintext : Bytes) (recipientFingerprints : List Str) (signWith : Option Str) (passphrase : Option Bytes)
    (alwaysTrust trustConfirmed : Bool) : Program (World γ Time) Exc (EncryptResult Time) := do
  let recipients ← Program.ofExcept (recipientFingerprints.mapM validateFingerprint)
  let signer ← Program.ofExcept ((signWith.filter (· ≠ [])).mapM validateFingerprint)
  enforceRecipientPolicy env strength recipients trustConfirmed
  if alwaysTrust = true ∧ trustConfirmed = false then
    Program.raise (policyError (lit "recipient trust must be confirmed before encryption"))
  else do
    let armored ← (GPGService.encrypt env plaintext recipients signer passphrase alwaysTrust).catching fun e => do
      emitSigned env signer (lit "failed") fun signer => notSignedPayload signer e
      Program.raise e
    emitSigned env signer (lit "ok") fun signer => signedPayload signer recipients
    let createdAt ← utcNow
    return {
      armoredCiphertext := armored
      recipientFingerprints := recipients
      signingFingerprint := signer
      createdAt
    }

end Service

/-! ### Fit keys -/

section Fit

variable (env : Platform γ Time) (strength : KeyInfo Time → KeyStrength)

/-- A key that may be encrypted to, at a time; who confirms the recipients
answers for keys that are not trusted. -/
structure Fit (trustConfirmed : Bool) (now : Time) (key : KeyInfo Time) : Prop where
  notRevoked : key.isRevoked = false
  notExpired : ∀ expiresAt, key.expiresAt = some expiresAt → env.isOver now expiresAt = false
  algorithm : (strength key).algorithm ≠ .dsa ∧ (strength key).algorithm ≠ .unknown
  length : (strength key).algorithm = .rsa → 2048 ≤ (strength key).length
  trusted : trustConfirmed = false → key.trust ≠ .unknown ∧ key.trust ≠ .never

/-- The recipient's key is in the listing, and was fit at some reading of the
clock. -/
def Admits (trustConfirmed : Bool) (clock : ℕ → Time) (fp : Str) (keys : List (KeyInfo Time)) : Prop :=
  ∃ key n, keys.find? (·.fingerprint = fp) = some key ∧ Fit env strength trustConfirmed (clock n) key

variable {env strength}

/-- What passes the check is fit. -/
theorem fit_of_checkKey {trustConfirmed expired : Bool} {now : Time} {key : KeyInfo Time}
    (hexpired : ∀ expiresAt, key.expiresAt = some expiresAt → expired = false → env.isOver now expiresAt = false)
    (h : checkKey strength key expired trustConfirmed = .ok ()) : Fit env strength trustConfirmed now key := by
  unfold checkKey at h
  split_ifs at h with hrevoked hexp halgorithm hlength htrust
  have hexp' : expired = false := by simpa using hexp
  exact
    { notRevoked := by simpa using hrevoked
      notExpired := fun expiresAt hat => hexpired expiresAt hat hexp'
      algorithm := not_or.mp halgorithm
      length := fun hrsa => by
        have := not_and.mp hlength hrsa
        omega
      trusted := fun hconfirmed => not_or.mp fun hunknown => htrust ⟨hunknown, hconfirmed⟩ }

end Fit

/-! ### What GnuPG is asked in a call -/

section Calls

variable {env : Platform γ Time} {strength : KeyInfo Time → KeyStrength} {w w' : World (γ × List (Asked Time)) Time}

theorem steady_asked : Steady (World.asked : World (γ × List (Asked Time)) Time → List (Asked Time)) where
  audit _ _ := rfl
  faults _ _ := rfl
  random _ _ := rfl
  clock _ _ := rfl
  buffers _ _ := rfl
  emitted _ _ _ _ := rfl
  derived _ _ _ _ := rfl

/-- From one world to the other GnuPG was asked for listings only. -/
def Listed (w w' : World (γ × List (Asked Time)) Time) : Prop :=
  ∃ asked, w'.asked = w.asked ++ asked ∧ ∀ a ∈ asked, a.IsListing

/-- The clock of the one world is ahead of that of the other. -/
def Ahead (w w' : World (γ × List (Asked Time)) Time) : Prop := ∃ k, ∀ n, w'.clock n = w.clock (n + k)

theorem Listed.refl (w : World (γ × List (Asked Time)) Time) : Listed w w := ⟨[], by simp, by simp⟩

theorem Listed.trans {w'' : World (γ × List (Asked Time)) Time} (h : Listed w w') (h' : Listed w' w'') : Listed w w'' := by
  obtain ⟨asked, hasked, hall⟩ := h
  obtain ⟨asked', hasked', hall'⟩ := h'
  refine ⟨asked ++ asked', ?_, List.forall_mem_append.mpr ⟨hall, hall'⟩⟩
  rw [hasked', hasked, List.append_assoc]

theorem Ahead.admits {trustConfirmed : Bool} {fp : Str} {keys : List (KeyInfo Time)} (h : Ahead w w')
    (hadmits : Admits env strength trustConfirmed w'.clock fp keys) :
    Admits env strength trustConfirmed w.clock fp keys := by
  obtain ⟨k, hk⟩ := h
  obtain ⟨key, n, hfind, hfit⟩ := hadmits
  exact ⟨key, n + k, hfind, hk n ▸ hfit⟩

theorem meets_findKey_watched {fp : Str} (hfp : validateFingerprint fp = .ok fp)
    (w : World (γ × List (Asked Time)) Time) :
    (findKey env.watched fp).Meets w
      (fun key w' => w'.clock = w.clock ∧
        ∃ keys, w'.asked = w.asked ++ [.listing false (.ok keys)] ∧ keys.find? (·.fingerprint = fp) = some key)
      fun _ w' => Listed w w' := by
  unfold findKey
  rw [hfp, meets_bind, meets_ofExcept_ok, meets_bind]
  unfold listKeys onGnupg Program.Meets
  simp only [EStateM.run, Platform.watched, GnuPG.watched]
  cases hlist : (env.gpg.listKeys false w.gnupg.1).1 with
  | error e => exact ⟨[.listing false (.error e)], rfl, by simp [Asked.IsListing]⟩
  | ok keys =>
    dsimp only
    cases hfind : keys.find? (·.fingerprint = fp) with
    | none => exact ⟨[.listing false (.ok keys)], rfl, by simp [Asked.IsListing]⟩
    | some key => exact ⟨rfl, keys, rfl, hfind⟩

theorem meets_isExpired (key : KeyInfo Time) (w : World (γ × List (Asked Time)) Time) :
    (VaultService.isExpired env.watched key).Meets w
      (fun expired w' => w'.asked = w.asked ∧ Ahead w w' ∧
        ∃ n, ∀ expiresAt, key.expiresAt = some expiresAt → env.isOver (w.clock n) expiresAt = expired)
      fun _ _ => False := by
  unfold VaultService.isExpired
  cases key.expiresAt with
  | none => exact ⟨rfl, ⟨0, fun _ => rfl⟩, 0, by simp⟩
  | some expiresAt =>
    refine ⟨rfl, ⟨1, fun _ => rfl⟩, 0, ?_⟩
    intro t ht
    rw [← Option.some.inj ht]
    rfl

theorem meets_checkRecipient {fp : Str} (hfp : validateFingerprint fp = .ok fp) (trustConfirmed : Bool)
    (w : World (γ × List (Asked Time)) Time) :
    (checkRecipient env.watched strength trustConfirmed fp).Meets w
      (fun _ w' => Ahead w w' ∧
        ∃ keys, w'.asked = w.asked ++ [.listing false (.ok keys)] ∧ Admits env strength trustConfirmed w.clock fp keys)
      fun _ w' => Listed w w' := by
  unfold checkRecipient
  rw [meets_bind]
  refine (meets_findKey_watched hfp w).mono (fun key w1 h => ?_) fun _ _ h => h
  obtain ⟨hclock, keys, hasked, hfind⟩ := h
  have hlisted : ∀ w2 : World (γ × List (Asked Time)) Time, w2.asked = w1.asked → Listed w w2 := fun w2 h2 =>
    ⟨[.listing false (.ok keys)], h2.trans hasked, by simp [Asked.IsListing]⟩
  rw [meets_bind]
  unfold readExpiry
  by_cases hrevoked : key.isRevoked = true
  · have hcheck : checkKey strength key false trustConfirmed =
        .error (policyError (lit "cannot encrypt to a revoked recipient key")) := if_pos hrevoked
    rw [if_pos hrevoked, meets_pure, hcheck]
    exact hlisted w1 rfl
  · rw [if_neg hrevoked]
    refine (meets_isExpired key w1).mono (fun expired w2 h => ?_) fun _ _ h => h.elim
    obtain ⟨hasked2, ⟨k, hk⟩, n, hover⟩ := h
    cases hcheck : checkKey strength key expired trustConfirmed with
    | error e => exact hlisted w2 hasked2
    | ok u =>
      refine ⟨⟨k, fun n => (hk n).trans (congrFun hclock _)⟩, keys, hasked2.trans hasked, key, n, hfind, ?_⟩
      refine fit_of_checkKey ?_ hcheck
      intro expiresAt hat hexpired
      rw [← congrFun hclock n, hover expiresAt hat, hexpired]

theorem meets_checkRecipients (trustConfirmed : Bool) : ∀ (fps : List Str)
    (w : World (γ × List (Asked Time)) Time), (∀ fp ∈ fps, validateFingerprint fp = .ok fp) →
    (checkRecipients env.watched strength trustConfirmed fps).Meets w
      (fun _ w' => ∃ listings : List (List (KeyInfo Time)),
        w'.asked = w.asked ++ listings.map (fun keys => .listing false (.ok keys)) ∧
        List.Forall₂ (Admits env strength trustConfirmed w.clock) fps listings)
      fun _ w' => Listed w w'
  | [], w, _ => ⟨[], by simp, .nil⟩
  | fp :: fps, w, hfps => by
    rw [List.forall_mem_cons] at hfps
    unfold checkRecipients
    rw [meets_bind]
    refine (meets_checkRecipient hfps.1 trustConfirmed w).mono (fun _ w1 h => ?_) fun _ _ h => h
    obtain ⟨hahead, keys, hasked, hadmits⟩ := h
    refine (meets_checkRecipients trustConfirmed fps w1 hfps.2).mono (fun _ w2 h => ?_) fun _ w2 h => ?_
    · obtain ⟨listings, hasked2, hall⟩ := h
      refine ⟨keys :: listings, ?_, .cons hadmits (hall.imp fun _ _ => hahead.admits)⟩
      rw [hasked2, hasked, List.map_cons, List.append_assoc, List.singleton_append]
    · exact Listed.trans ⟨[.listing false (.ok keys)], hasked, by simp [Asked.IsListing]⟩ h

theorem meets_enforceRecipientPolicy {recipients : List Str} (hfps : ∀ fp ∈ recipients, validateFingerprint fp = .ok fp)
    (trustConfirmed : Bool) (w : World (γ × List (Asked Time)) Time) :
    (enforceRecipientPolicy env.watched strength recipients trustConfirmed).Meets w
      (fun _ w' => recipients ≠ [] ∧ ∃ listings : List (List (KeyInfo Time)),
        w'.asked = w.asked ++ listings.map (fun keys => .listing false (.ok keys)) ∧
        List.Forall₂ (Admits env strength trustConfirmed w.clock) recipients listings)
      fun _ w' => Listed w w' := by
  unfold enforceRecipientPolicy
  by_cases hnil : recipients = []
  · rw [if_pos hnil]
    exact Listed.refl w
  · rw [if_neg hnil]
    exact (meets_checkRecipients trustConfirmed recipients w hfps).mono (fun _ _ h => ⟨hnil, h⟩) fun _ _ h => h

/-- A run is asked for once it starts. -/
theorem meets_runGpg_watched (args : List Str) (input passphrase : Option Bytes) (statusFd : Bool)
    (w : World (γ × List (Asked Time)) Time) :
    (runGpg env.watched args input passphrase statusFd).Meets w
      (fun _ w' => w'.asked = w.asked ++ [.run args input passphrase])
      fun _ w' => w'.asked = w.asked ∨ w'.asked = w.asked ++ [.run args input passphrase] := by
  have hsyscall : Keeps World.asked (syscall : Program (World (γ × List (Asked Time)) Time) Exc Unit) :=
    steady_asked.syscall
  unfold runGpg
  rw [meets_bind]
  refine hsyscall.meets (fun _ w1 h1 => ?_) fun _ w1 h1 => .inl h1
  rw [meets_bind]
  refine (keeps_ofExcept (f := World.asked) _).meets (fun passBytes w2 h2 => ?_) fun _ w2 h2 => .inl (h2.trans h1)
  rw [meets_bind]
  refine hsyscall.meets (fun _ w3 h3 => ?_) fun _ w3 h3 => .inl (h3.trans (h2.trans h1))
  rw [meets_bind, meets_get, meets_bind]
  have h31 : w3.asked = w.asked := h3.trans (h2.trans h1)
  refine (keeps_ofExcept (f := World.asked) _).meets (fun _ w4 h4 => ?_) fun _ w4 h4 => .inl (h4.trans h31)
  rw [meets_bind, ← h31, ← h4]
  unfold onGnupg Program.Meets
  simp only [EStateM.run, Platform.watched, GnuPG.watched]
  cases (env.gpg.popen args input passphrase w4.gnupg.1).1 with
  | error e => exact .inr rfl
  | ok out => rfl

/-- What a call with these arguments has handed to GnuPG. -/
structure Handed (env : Platform γ Time) (strength : KeyInfo Time → KeyStrength) (plaintext : Bytes)
    (recipients : List Str) (signer : Option Str) (passphrase : Option Bytes) (alwaysTrust trustConfirmed : Bool)
    (w w' : World (γ × List (Asked Time)) Time) : Prop where
  nonempty : recipients ≠ []
  confirmed : alwaysTrust = true → trustConfirmed = true
  signed : signer.isSome = true → passphrase.isSome = true
  asked : ∃ listings : List (List (KeyInfo Time)),
    List.Forall₂ (Admits env strength trustConfirmed w.clock) recipients listings ∧
    w'.asked = w.asked ++ listings.map (fun keys => .listing false (.ok keys)) ++
      [.run (encryptArgs recipients signer alwaysTrust) (some plaintext) (if signer.isSome then passphrase else none)]

theorem mapM_validateFingerprint {values results : List Str} (h : values.mapM validateFingerprint = .ok results) :
    results.mapM validateFingerprint = .ok results := by
  rw [mapM_eq_ok_iff, List.forall₂_same]
  exact validateFingerprint_of_mapM h

theorem filter_mapM_validateFingerprint {signWith signer : Option Str}
    (h : (signWith.filter (· ≠ [])).mapM validateFingerprint = .ok signer) :
    (signer.filter (· ≠ [])).mapM validateFingerprint = .ok signer := by
  cases hsign : signWith.filter (· ≠ []) with
  | none =>
    rw [hsign] at h
    rw [← Except.ok.inj h]
    rfl
  | some fp =>
    rw [hsign] at h
    obtain ⟨fp', hfp', h⟩ := bind_eq_ok h
    obtain rfl := Except.ok.inj h
    have hone : [fp].mapM validateFingerprint = .ok [fp'] := mapM_cons_of_ok hfp' rfl
    have hvalid : validateFingerprint fp' = .ok fp' := validateFingerprint_of_mapM hone fp' (List.mem_singleton_self _)
    have hne : fp' ≠ [] := by
      intro hnil
      rw [hnil] at hvalid
      exact absurd hvalid (by decide)
    simp [Option.filter, hne, hvalid]

end Calls

section Calls

variable {env : Platform γ Time} {strength : KeyInfo Time → KeyStrength} {w w' : World (γ × List (Asked Time)) Time}

/-- `GPGService.encrypt`, of recipients and a signer that are valid: it asks for
one run. -/
theorem meets_encrypt_watched {plaintext : Bytes} {recipients : List Str} {signer : Option Str} {passphrase : Option Bytes}
    {alwaysTrust : Bool} (hrecipients : recipients.mapM validateFingerprint = .ok recipients)
    (hsigner : (signer.filter (· ≠ [])).mapM validateFingerprint = .ok signer)
    (w : World (γ × List (Asked Time)) Time) {run : Asked Time}
    (hrun : run = .run (encryptArgs recipients signer alwaysTrust) (some plaintext)
      (if signer.isSome then passphrase else none)) :
    (GPGService.encrypt env.watched plaintext recipients signer passphrase alwaysTrust).Meets w
      (fun _ w' => (signer.isSome = true → passphrase.isSome = true) ∧ w'.asked = w.asked ++ [run])
      fun _ w' => w'.asked = w.asked ∨
        (signer.isSome = true → passphrase.isSome = true) ∧ w'.asked = w.asked ++ [run] := by
  subst hrun
  unfold GPGService.encrypt
  rw [hrecipients, hsigner, meets_bind, meets_ofExcept_ok, meets_bind, meets_ofExcept_ok]
  by_cases hnone : signer.isSome = true ∧ passphrase = none
  · rw [if_pos hnone]
    exact .inl rfl
  · rw [if_neg hnone, meets_bind]
    have hsigned : signer.isSome = true → passphrase.isSome = true := fun h =>
      Option.isSome_iff_ne_none.mpr fun hpass => hnone ⟨h, hpass⟩
    refine (meets_runGpg_watched _ _ _ true w).mono (fun proc w1 h1 => ?_) fun _ w1 h1 => h1.imp_right fun h => ⟨hsigned, h⟩
    rw [meets_bind]
    refine (keeps_ofExcept (f := World.asked) _).meets (fun _ w2 h2 => ?_) fun _ w2 h2 => .inr ⟨hsigned, h2.trans h1⟩
    exact ⟨hsigned, h2.trans h1⟩

theorem keeps_emitSigned (signer : Option Str) (outcome : Str) (payload : Str → Dict) :
    Keeps World.asked (emitSigned env.watched signer outcome payload) := by
  cases signer with
  | none => exact keeps_pure _
  | some signer => exact steady_asked.emit _ _ _ _

/-- **What GnuPG is asked in a call of `encrypt`.** The listing is asked for, once
for each recipient, and then, if every one has a fit key in it, for one run with
the plaintext, which names the recipients that were looked up and no others.
Where the call raises, GnuPG may have been asked for listings only. -/
theorem asked_encrypt (env : Platform γ Time) (strength : KeyInfo Time → KeyStrength) (plaintext : Bytes)
    (fps : List Str) (signWith : Option Str) (passphrase : Option Bytes) (alwaysTrust trustConfirmed : Bool)
    (w : World (γ × List (Asked Time)) Time) :
    (encrypt env.watched strength plaintext fps signWith passphrase alwaysTrust trustConfirmed).Meets w
      (fun r w' => fps.mapM validateFingerprint = .ok r.recipientFingerprints ∧
        (signWith.filter (· ≠ [])).mapM validateFingerprint = .ok r.signingFingerprint ∧
        Handed env strength plaintext r.recipientFingerprints r.signingFingerprint passphrase alwaysTrust trustConfirmed
          w w')
      fun _ w' => Listed w w' ∨ ∃ recipients signer, fps.mapM validateFingerprint = .ok recipients ∧
        (signWith.filter (· ≠ [])).mapM validateFingerprint = .ok signer ∧
        Handed env strength plaintext recipients signer passphrase alwaysTrust trustConfirmed w w' := by
  unfold encrypt
  rw [meets_bind]
  cases hrecipients : fps.mapM validateFingerprint with
  | error e => exact .inl (Listed.refl w)
  | ok recipients =>
    rw [meets_ofExcept_ok, meets_bind]
    cases hsigner : (signWith.filter (· ≠ [])).mapM validateFingerprint with
    | error e => exact .inl (Listed.refl w)
    | ok signer =>
      rw [meets_ofExcept_ok, meets_bind]
      refine (meets_enforceRecipientPolicy (validateFingerprint_of_mapM hrecipients) trustConfirmed w).mono
        (fun _ w1 h => ?_) fun _ _ h => .inl h
      obtain ⟨hne, listings, hasked, hadmits⟩ := h
      have hlisted : ∀ w2 : World (γ × List (Asked Time)) Time, w2.asked = w1.asked → Listed w w2 := fun w2 h2 =>
        ⟨_, h2.trans hasked, by simp [Asked.IsListing]⟩
      by_cases htrust : alwaysTrust = true ∧ trustConfirmed = false
      · rw [if_pos htrust]
        exact .inl (hlisted w1 rfl)
      · rw [if_neg htrust]
        have hhanded : ∀ w2 : World (γ × List (Asked Time)) Time, (signer.isSome = true → passphrase.isSome = true) →
            w2.asked = w1.asked ++ [.run (encryptArgs recipients signer alwaysTrust) (some plaintext)
              (if signer.isSome then passphrase else none)] →
            Handed env strength plaintext recipients signer passphrase alwaysTrust trustConfirmed w w2 := by
          intro w2 hsigned h2
          exact
            { nonempty := hne
              confirmed := fun halways => by
                have := not_and.mp htrust halways
                simpa using this
              signed := hsigned
              asked := ⟨listings, hadmits, by rw [h2, hasked]⟩ }
        rw [meets_bind, meets_catching]
        refine (meets_encrypt_watched (mapM_validateFingerprint hrecipients) (filter_mapM_validateFingerprint hsigner) w1
          rfl).mono (fun armored w2 h2 => ?_) fun e w2 h2 => ?_
        · have hdone := hhanded w2 h2.1 h2.2
          rw [meets_bind]
          refine (keeps_emitSigned signer _ _).meets (fun _ w3 h3 => ?_) fun _ w3 h3 =>
            .inr ⟨recipients, signer, rfl, rfl, hhanded w3 h2.1 (h3.trans h2.2)⟩
          exact ⟨rfl, rfl, hhanded _ h2.1 (h3.trans h2.2)⟩
        · rw [meets_bind]
          refine (keeps_emitSigned signer _ _).meets (fun _ w3 h3 => ?_) fun _ w3 h3 => ?_
          all_goals
            rcases h2 with h2 | ⟨hsigned, h2⟩
            · exact .inl (hlisted w3 (h3.trans h2))
            · exact .inr ⟨recipients, signer, rfl, rfl, hhanded w3 hsigned (h3.trans h2)⟩

end Calls

/-! ### The list is not looked at -/

/-- With the list and without it, the program does the same. -/
abbrev Unseen (x : Program (World (γ × List (Asked Time)) Time) Exc α) (y : Program (World γ Time) Exc α) : Prop :=
  Agree (fun w v => w.unwatched = v) x y

namespace Unseen

variable (env : Platform γ Time) (strength : KeyInfo Time → KeyStrength)

theorem syscall : Unseen (syscall : Program (World (γ × List (Asked Time)) Time) Exc Unit) syscall := by
  intro w v h
  subst h
  unfold Meets GpgMeister.syscall
  simp only [EStateM.run, World.unwatched]
  cases w.faults 0 with
  | none => exact ⟨_, rfl, rfl⟩
  | some e => exact ⟨_, rfl, rfl⟩

theorem utcNow : Unseen (utcNow : Program (World (γ × List (Asked Time)) Time) Exc Time) utcNow := by
  intro w v h
  subst h
  exact ⟨_, rfl, rfl⟩

theorem onGnupg {f : γ × List (Asked Time) → Except Exc α × (γ × List (Asked Time))} {f' : γ → Except Exc α × γ}
    (hf : ∀ g, (f g).1 = (f' g.1).1 ∧ (f g).2.1 = (f' g.1).2) : Unseen (GPGService.onGnupg f) (GPGService.onGnupg f') := by
  intro w v h
  subst h
  obtain ⟨hresult, hstate⟩ := hf w.gnupg
  unfold Meets GPGService.onGnupg
  simp only [EStateM.run, World.unwatched]
  rcases hr : f w.gnupg with ⟨r, g⟩
  rcases hr' : f' w.gnupg.1 with ⟨r', g'⟩
  simp only [hr, hr'] at hresult hstate
  subst hresult hstate
  cases r with
  | ok a => exact ⟨_, rfl, rfl⟩
  | error e => exact ⟨_, rfl, rfl⟩

theorem emit (event outcome : Str) (payload : Dict) :
    Unseen (emit env.toEnv event outcome payload : Program (World (γ × List (Asked Time)) Time) Exc Unit)
      (emit env.toEnv event outcome payload) := by
  intro w v h
  subst h
  unfold Meets GpgMeister.emit recorded
  simp only [EStateM.run, onPart, World.unwatched]
  cases AuditSink.emit env.toEnv event outcome payload w.audit with
  | ok a audit => exact ⟨_, rfl, rfl⟩
  | error e audit => exact ⟨_, rfl, rfl⟩

theorem runGpg (args : List Str) (input passphrase : Option Bytes) (statusFd : Bool) :
    Unseen (runGpg env.watched args input passphrase statusFd) (runGpg env args input passphrase statusFd) := by
  refine syscall.bind fun _ => (Agree.ofExcept _).bind fun _ => syscall.bind fun _ => Agree.bind_get fun w v h => ?_
  subst h
  exact (Agree.ofExcept _).bind fun _ => (onGnupg fun _ => ⟨rfl, rfl⟩).bind fun _ => .pure _

theorem findKey (fp : Str) : Unseen (findKey env.watched fp) (findKey env fp) := by
  refine (Agree.ofExcept _).bind fun fp => (onGnupg fun _ => ⟨rfl, rfl⟩).bind fun keys => ?_
  cases keys.find? (·.fingerprint = fp) with
  | some key => exact .pure key
  | none => exact .raise _

theorem readExpiry (key : KeyInfo Time) : Unseen (readExpiry env.watched key) (readExpiry env key) := by
  unfold MessageService.readExpiry VaultService.isExpired
  split_ifs
  · exact .pure _
  · cases key.expiresAt with
    | none => exact .pure _
    | some expiresAt => exact utcNow.bind fun _ => .pure _

theorem checkRecipients (trustConfirmed : Bool) : ∀ fps : List Str,
    Unseen (checkRecipients env.watched strength trustConfirmed fps) (checkRecipients env strength trustConfirmed fps)
  | [] => .pure _
  | fp :: fps => by
    refine Agree.bind ?_ fun _ => checkRecipients trustConfirmed fps
    exact (findKey env fp).bind fun key => (readExpiry env key).bind fun _ => .ofExcept _

theorem emitSigned (signer : Option Str) (outcome : Str) (payload : Str → Dict) :
    Unseen (emitSigned env.watched signer outcome payload) (emitSigned env signer outcome payload) := by
  cases signer with
  | none => exact .pure _
  | some signer => exact emit env _ _ _

theorem gpgEncrypt (plaintext : Bytes) (recipients : List Str) (signer : Option Str) (passphrase : Option Bytes)
    (alwaysTrust : Bool) : Unseen (GPGService.encrypt env.watched plaintext recipients signer passphrase alwaysTrust)
      (GPGService.encrypt env plaintext recipients signer passphrase alwaysTrust) := by
  refine (Agree.ofExcept _).bind fun recipients => (Agree.ofExcept _).bind fun signer => ?_
  by_cases hsigned : signer.isSome = true ∧ passphrase = none
  · rw [if_pos hsigned, if_pos hsigned]
    exact .raise _
  · rw [if_neg hsigned, if_neg hsigned]
    exact (runGpg env _ _ _ _).bind fun proc => (Agree.ofExcept _).bind fun _ => .pure _

end Unseen

/-- With the list and without it, `encrypt` does the same. -/
theorem agree_encrypt (env : Platform γ Time) (strength : KeyInfo Time → KeyStrength) (plaintext : Bytes) (fps : List Str)
    (signWith : Option Str) (passphrase : Option Bytes) (alwaysTrust trustConfirmed : Bool) :
    Unseen (encrypt env.watched strength plaintext fps signWith passphrase alwaysTrust trustConfirmed)
      (encrypt env strength plaintext fps signWith passphrase alwaysTrust trustConfirmed) := by
  refine (Agree.ofExcept _).bind fun recipients => (Agree.ofExcept _).bind fun signer => Agree.bind ?_ fun _ => ?_
  · unfold enforceRecipientPolicy
    split_ifs
    · exact .raise _
    · exact Unseen.checkRecipients env strength trustConfirmed recipients
  · split_ifs
    · exact .raise _
    · refine Agree.bind ((Unseen.gpgEncrypt env _ _ _ _ _).catching fun e => ?_) fun armored => ?_
      · exact (Unseen.emitSigned env signer _ _).bind fun _ => .raise e
      · exact (Unseen.emitSigned env signer _ _).bind fun _ => Unseen.utcNow.bind fun _ => .pure _

end MessageService
end GpgMeister
