/-
# Messages and their signers

`verify` and `decrypt` of `services/message_service.py`, and `GPGService.verify`
under the former. A signature may have been made by a subkey, and `find_key`
looks for a key by its own fingerprint only, so that the signature of a subkey
is reported without the trust in its key.

* `reportedTrust_iff`: exactly when the trust that is reported is the trust in
  the key that has signed.
-/
import GpgMeister.Services.GpgService
import GpgMeister.Services.SignatureOrder

namespace GpgMeister

variable {γ Time : Type}

/-- The home of GnuPG, as a directory in which files are put for a while. -/
structure HomeDir (γ : Type) where
  temporaryName : (suffix : Str) → γ → Str
  write : (path : Str) → Bytes → γ → γ
  unlink : (path : Str) → γ → γ

/-! ### The run -/

namespace GPGService

variable (env : Platform γ Time) (home : HomeDir γ)

/-- A `NamedTemporaryFile` in the home, that stays. -/
def namedTemporaryFile (suffix : Str) (data : Bytes) : Program (World γ Time) Exc Str := do
  syscall
  let path := home.temporaryName suffix (← get).gnupg
  modify fun w => { w with gnupg := home.write path data w.gnupg }
  return path

/-- `with suppress(OSError): os.unlink(path)` -/
def unlinkQuietly (path : Str) : Program (World γ Time) Exc Unit :=
  Program.catching (do syscall; modify fun w => { w with gnupg := home.unlink path w.gnupg }) fun e =>
    if e.isA [.osError] then return () else Program.raise e

/-- The run of `verify`. -/
def verifyRun (data : Bytes) : Option Bytes → Program (World γ Time) Exc Gpg.GPGRun
  | some signature => do
    let sigPath ← namedTemporaryFile home (lit ".asc") signature
    let dataPath ← namedTemporaryFile home (lit ".data") data
    (runGpg env [lit "--verify", sigPath, dataPath] none none true).ensuring do
      unlinkQuietly home sigPath
      unlinkQuietly home dataPath
  | none => runGpg env [lit "--verify"] (some data) none true

/-- `verify` -/
def verify (data : Bytes) (detachedSignature : Option Bytes) :
    Program (World γ Time) Exc (Gpg.SignatureStatus × Option Str × Option Time) := do
  let proc ← verifyRun env home data detachedSignature
  return Gpg.verify env.fromTimestamp proc

end GPGService

/-! ### The service -/

/-- The value of a `TrustLevel` -/
def TrustLevel.value : TrustLevel → Str
  | unknown => lit "unknown"
  | never => lit "never"
  | marginal => lit "marginal"
  | full => lit "full"
  | ultimate => lit "ultimate"

namespace Gpg.SignatureStatus

/-- The value of a `SignatureStatus` -/
def value : SignatureStatus → Str
  | none => lit "none"
  | valid => lit "valid"
  | invalid => lit "invalid"
  | revokedKey => lit "revoked_key"
  | expiredKey => lit "expired_key"
  | expiredSig => lit "expired_sig"
  | error => lit "error"

/-- `summary` -/
def summary : SignatureStatus → Str
  | none => lit "no signature"
  | valid => lit "valid"
  | invalid => lit "INVALID"
  | revokedKey => lit "INVALID — signing key REVOKED"
  | expiredKey => lit "INVALID — signing key EXPIRED"
  | expiredSig => lit "INVALID — signature EXPIRED"
  | error => lit "could not be verified"

end Gpg.SignatureStatus

namespace MessageService

open Gpg GPGService

structure VerifyResult (Time : Type) where
  signatureStatus : SignatureStatus
  signerFingerprint : Option Str
  signerTrust : TrustLevel
  signedAt : Option Time
  failureReason : Option Str

structure DecryptResult where
  plaintext : Bytes
  signerFingerprint : Option Str
  signatureStatus : SignatureStatus
  signerTrust : TrustLevel
  decryptedWithFingerprint : Option Str

section Service

variable (env : Platform γ Time) (home : HomeDir γ)

/-- `_validate_text_payload` -/
def validateTextPayload (data : Bytes) : Except Exc Unit :=
  if Utf8.decodeStrict data = none ∨ 0 ∈ data then
    .error { cls := .valueError, message := lit "message signing and verification are text-only" }
  else .ok ()

/-- `_resolve_signer_trust`: no text and no signer are the same. -/
def resolveSignerTrust (signer : Option Str) : Program (World γ Time) Exc TrustLevel :=
  match signer.filter (· ≠ []) with
  | some fp => (KeyInfo.trust <$> findKey env fp).catching fun _ => pure .unknown
  | none => pure .unknown

/-- `verify` -/
def verify (data : Bytes) (detachedSignature : Option Bytes) : Program (World γ Time) Exc (VerifyResult Time) := do
  Program.ofExcept (validateTextPayload data)
  let (status, signer, signedAt) ← GPGService.verify env home data detachedSignature
  let trust ← resolveSignerTrust env signer
  return {
    signatureStatus := status
    signerFingerprint := signer
    signerTrust := trust
    signedAt
    failureReason := if status = .valid then none else some status.summary
  }

/-- What `decrypt` writes of a message into the audit log. -/
def decryptedPayload (d : Decrypted) (trust : TrustLevel) : Dict where
  items :=
    [(lit "byte_count", .int d.plaintext.length), (lit "signer", .str (d.signer.getD [])),
      (lit "signature_status", .str d.signatureStatus.value),
      (lit "signer_trust", .str (if d.signer.getD [] = [] then [] else trust.value)),
      (lit "decrypted_with", .str (d.decryptedWith.getD []))]
  unique := rfl

/-- `decrypt` -/
def decrypt (ciphertext : Bytes) (passphrase : Option Bytes) : Program (World γ Time) Exc DecryptResult := do
  let d ← (GPGService.decrypt env ciphertext passphrase).catching fun e => do
    emit env.toEnv (lit "message_decrypt_failed") (lit "failed")
      { items := [(lit "reason", .str e.cls.name)], unique := rfl }
    Program.raise e
  let trust ← resolveSignerTrust env d.signer
  emit env.toEnv (lit "message_decrypted") (lit "ok") (decryptedPayload d trust)
  return {
    plaintext := d.plaintext
    signerFingerprint := d.signer
    signatureStatus := d.signatureStatus
    signerTrust := trust
    decryptedWithFingerprint := d.decryptedWith
  }

end Service

/-! ### Signers -/

/-- The records show a valid signature by the key, made by the key itself or by a
subkey: of the last `VALIDSIG` the first value is the fingerprint of what made
it, and the last value that of the key. -/
structure SignedBy (records : List Record) (key : KeyInfo Time) (signer : Str) : Prop where
  valid : ShowsValid records
  validsig : ∃ values, (records.filter Record.isValidsig).getLast? = some (validsig :: signer :: values) ∧
    (signer :: values).getLast? = some key.fingerprint
  mem : signer ∈ key.allFingerprints

/-- A listing: fingerprints are fingerprints, and a key is trusted alike wherever
it is listed. -/
structure Listing (keys : List (KeyInfo Time)) : Prop where
  isFingerprint : ∀ key ∈ keys, IsFingerprint key.fingerprint
  trust : ∀ key ∈ keys, ∀ key' ∈ keys, key.fingerprint = key'.fingerprint → key.trust = key'.trust

/-- The signer's fingerprint is that of a listed key with the same trust, or of
none, and there is no trust in the key. -/
def Coincides (keys : List (KeyInfo Time)) (key : KeyInfo Time) (signer : Str) : Prop :=
  (∃ k ∈ keys, normaliseFingerprint signer = some k.fingerprint ∧ k.trust = key.trust) ∨
    (∀ k ∈ keys, normaliseFingerprint signer ≠ some k.fingerprint) ∧ key.trust = .unknown

/-- A call that judges a signature. -/
inductive Call
  | verify (data : Bytes) (detachedSignature : Option Bytes)
  | decrypt (ciphertext : Bytes) (passphrase : Option Bytes)

section Calls

variable (env : Platform γ Time) (home : HomeDir γ)

/-- The run of GnuPG in a call. -/
def Call.gpgRun : Call → Program (World γ Time) Exc GPGRun
  | verify data signature => verifyRun env home data signature
  | decrypt ciphertext passphrase => runGpg env [lit "--decrypt"] (some ciphertext) passphrase true

/-- The trust that a call reports. -/
def Call.signerTrust : Call → Program (World γ Time) Exc TrustLevel
  | verify data signature => VerifyResult.signerTrust <$> MessageService.verify env home data signature
  | decrypt ciphertext passphrase => DecryptResult.signerTrust <$> MessageService.decrypt env ciphertext passphrase

/-- What is reported of a valid signature is the trust in its key. -/
def ReportsTrust : Prop :=
  ∀ (c : Call) (w w1 w' : World γ Time) (proc : GPGRun) (keys : List (KeyInfo Time)) (g : γ) (key : KeyInfo Time)
    (signer : Str) (trust : TrustLevel), (c.gpgRun env home).run w = .ok proc w1 →
    env.gpg.listKeys false w1.gnupg = (.ok keys, g) → Listing keys → key ∈ keys →
    SignedBy (parseStatus proc.status) key signer → (c.signerTrust env home).run w = .ok trust w' → trust = key.trust

end Calls

/-! ### The last `VALIDSIG` -/

theorem scanRecord_signerFp (fromTimestamp : Str → Option Time) (s : Scan Time) (r : Record) :
    (scanRecord fromTimestamp s r).signerFp = if r.isValidsig = true then r[1]? else s.signerFp := by
  have hne : goodsig ≠ validsig := by decide
  cases r with
  | nil => rfl
  | cons tag values =>
    have hv : Record.isValidsig (tag :: values) = decide (tag = validsig ∧ values ≠ []) := by
      cases values <;> simp [Record.isValidsig]
    rw [hv, scanRecord]
    by_cases hgood : tag = goodsig
    · simp [hgood, hne]
    · rw [if_neg hgood]
      by_cases hvalid : tag = validsig ∧ values ≠ []
      · rw [if_pos hvalid, decide_eq_true hvalid, if_pos rfl, List.getElem?_cons_succ, ← List.head?_eq_getElem?]
      · rw [if_neg hvalid, decide_eq_false hvalid, if_neg Bool.false_ne_true]
        cases sigDowngrade.lookup tag <;> rfl

theorem foldl_signerFp (fromTimestamp : Str → Option Time) : ∀ (records : List Record) (s : Scan Time),
    (records.foldl (scanRecord fromTimestamp) s).signerFp =
      match (records.filter Record.isValidsig).getLast? with
      | some r => r[1]?
      | none => s.signerFp
  | [], _ => rfl
  | r :: records, s => by
    rw [List.foldl_cons, foldl_signerFp fromTimestamp records, scanRecord_signerFp, List.filter_cons]
    by_cases hr : r.isValidsig = true
    · rw [if_pos hr, if_pos hr, List.getLast?_cons]
      cases (records.filter Record.isValidsig).getLast? <;> rfl
    · rw [if_neg hr, if_neg hr]

/-- The signer that is reported is the one that made the signature. -/
theorem SignedBy.evaluateSignature_eq {records : List Record} {key : KeyInfo Time} {signer : Str}
    (h : SignedBy records key signer) (fromTimestamp : Str → Option Time) :
    ∃ signedAt, evaluateSignature fromTimestamp records = (.valid, some signer, signedAt) := by
  have hvalid := (evaluateSignature_valid_iff fromTimestamp records).mpr h.valid
  have hfp := foldl_signerFp fromTimestamp records {}
  obtain ⟨values, hlast, -⟩ := h.validsig
  rw [hlast] at hfp
  unfold evaluateSignature at hvalid ⊢
  dsimp only at hvalid ⊢
  cases hd : (records.foldl (scanRecord fromTimestamp) {}).downgrade with
  | some d =>
    rw [hd] at hvalid
    exact ⟨_, Prod.ext hvalid (Prod.ext hfp rfl)⟩
  | none =>
    rw [hd] at hvalid
    dsimp only at hvalid ⊢
    split_ifs at hvalid ⊢
    exact ⟨_, Prod.ext rfl (Prod.ext hfp rfl)⟩

/-! ### The lookup -/

section Lookup

variable {env : Platform γ Time} {home : HomeDir γ} {keys : List (KeyInfo Time)} {key : KeyInfo Time} {signer : Str}

/-- The key with the fingerprint. -/
def keyIn (keys : List (KeyInfo Time)) (signer : Str) : Option (KeyInfo Time) :=
  (normaliseFingerprint signer).bind fun fp => keys.find? (·.fingerprint = fp)

/-- What a lookup comes to. -/
def trustIn (keys : List (KeyInfo Time)) (signer : Str) : TrustLevel :=
  ((keyIn keys signer).map KeyInfo.trust).getD .unknown

theorem keyIn_eq_some (h : keyIn keys signer = some key) :
    key ∈ keys ∧ normaliseFingerprint signer = some key.fingerprint := by
  obtain ⟨fp, hfp, hfind⟩ := Option.bind_eq_some_iff.mp h
  have hkey := List.find?_some hfind
  rw [decide_eq_true_eq] at hkey
  exact ⟨List.mem_of_find?_eq_some hfind, hkey ▸ hfp⟩

theorem keyIn_eq_none :
    keyIn keys signer = none ↔ ∀ key ∈ keys, normaliseFingerprint signer ≠ some key.fingerprint := by
  rw [keyIn, Option.bind_eq_none_iff]
  constructor
  · intro h key hkey hfp
    simpa using List.find?_eq_none.mp (h _ hfp) key hkey
  · intro h fp hfp
    rw [List.find?_eq_none]
    intro key hkey hfound
    exact h key hkey (hfp.trans (congrArg some (of_decide_eq_true hfound).symm))

/-- Every listed key with the fingerprint is trusted as the first. -/
theorem trustIn_eq (hkeys : Listing keys) (hkey : key ∈ keys)
    (hfp : normaliseFingerprint signer = some key.fingerprint) : trustIn keys signer = key.trust := by
  cases hfound : keyIn keys signer with
  | none => exact absurd hfp (keyIn_eq_none.mp hfound key hkey)
  | some key' =>
    obtain ⟨hkey', hfp'⟩ := keyIn_eq_some hfound
    rw [trustIn, hfound]
    exact hkeys.trust key' hkey' key hkey (Option.some.inj (hfp'.symm.trans hfp))

theorem meets_findKey {w : World γ Time} {g : γ} (hlist : env.gpg.listKeys false w.gnupg = (.ok keys, g)) :
    (findKey env signer).Meets w (fun key _ => keyIn keys signer = some key) fun _ _ => keyIn keys signer = none := by
  have hlisted : (listKeys env false).run w = .ok keys { w with gnupg := g } := by
    simp only [listKeys, onGnupg, EStateM.run, hlist]
  unfold findKey validateFingerprint keyIn
  cases normaliseFingerprint signer with
  | none => rfl
  | some fp =>
    rw [Program.meets_bind, Program.meets_ofExcept_ok, Program.meets_bind, Program.Meets, hlisted, Option.bind_some]
    dsimp only
    cases keys.find? (·.fingerprint = fp) <;> rfl

/-- `_resolve_signer_trust` looks the signer up, and does not raise. -/
theorem meets_resolveSignerTrust {w : World γ Time} {g : γ} (hlist : env.gpg.listKeys false w.gnupg = (.ok keys, g)) :
    (resolveSignerTrust env (some signer)).Meets w (fun trust _ => trust = trustIn keys signer) fun _ _ => False := by
  unfold resolveSignerTrust
  by_cases hnil : signer = []
  · subst hnil
    rfl
  · have hsome : (some signer).filter (· ≠ []) = some signer :=
      Option.filter_eq_some_iff.mpr ⟨rfl, by simpa using hnil⟩
    rw [hsome]
    dsimp only
    rw [Program.meets_catching, map_eq_pure_bind, Program.meets_bind]
    refine (meets_findKey hlist).mono (fun key _ hkey => ?_) fun _ _ hnone => ?_
    · rw [Program.meets_pure, trustIn, hkey]
      rfl
    · rw [Program.meets_pure, trustIn, hnone]
      rfl

/-- `GPGService.verify` names the signer. -/
theorem verify_eq {w w1 w2 : World γ Time} {data : Bytes} {signature : Option Bytes} {proc : GPGRun}
    {r : SignatureStatus × Option Str × Option Time} (hrun : (verifyRun env home data signature).run w = .ok proc w1)
    (hsigned : SignedBy (parseStatus proc.status) key signer)
    (h : (GPGService.verify env home data signature).run w = .ok r w2) : w1 = w2 ∧ r.2.1 = some signer := by
  rw [GPGService.verify, Program.run_bind_eq_ok] at h
  obtain ⟨proc', w', hrun', h⟩ := h
  obtain ⟨rfl, rfl⟩ := EStateM.Result.ok.inj (hrun.symm.trans hrun')
  obtain ⟨rfl, rfl⟩ := Program.run_pure_eq_ok.mp h
  obtain ⟨signedAt, heval⟩ := hsigned.evaluateSignature_eq env.fromTimestamp
  rw [Gpg.verify, heval]
  exact ⟨rfl, rfl⟩

/-- `GPGService.decrypt` names the signer. -/
theorem decrypt_eq {w w1 w2 : World γ Time} {ciphertext : Bytes} {passphrase : Option Bytes} {proc : GPGRun}
    {d : Decrypted} (hrun : (runGpg env [lit "--decrypt"] (some ciphertext) passphrase true).run w = .ok proc w1)
    (hsigned : SignedBy (parseStatus proc.status) key signer)
    (h : (GPGService.decrypt env ciphertext passphrase).run w = .ok d w2) :
    w1.gnupg = w2.gnupg ∧ d.signer = some signer := by
  rw [GPGService.decrypt, run_recorded_eq_ok] at h
  obtain ⟨w', h, rfl⟩ := h
  rw [Program.run_bind_eq_ok] at h
  obtain ⟨proc', w'', hrun', h⟩ := h
  obtain ⟨rfl, rfl⟩ := EStateM.Result.ok.inj (hrun.symm.trans hrun')
  obtain ⟨hd, rfl⟩ := Program.run_ofExcept_eq_ok.mp h
  obtain ⟨signedAt, heval⟩ := hsigned.evaluateSignature_eq env.fromTimestamp
  refine ⟨rfl, ?_⟩
  unfold Gpg.decrypt at hd
  cases hok : requireDecryptOk env.lower proc with
  | error e =>
    rw [hok] at hd
    cases hd
  | ok u =>
    rw [hok] at hd
    cases hd
    exact congrArg (fun r => r.2.1) heval

/-- A call reports what the lookup of the signer comes to. -/
theorem signerTrust_eq {c : Call} {w w1 w' : World γ Time} {proc : GPGRun} {g : γ} {trust : TrustLevel}
    (hrun : (c.gpgRun env home).run w = .ok proc w1) (hlist : env.gpg.listKeys false w1.gnupg = (.ok keys, g))
    (hsigned : SignedBy (parseStatus proc.status) key signer) (h : (c.signerTrust env home).run w = .ok trust w') :
    trust = trustIn keys signer := by
  cases c with
  | verify data signature =>
    rw [Call.signerTrust, map_eq_pure_bind, Program.run_bind_eq_ok] at h
    obtain ⟨result, w2, h, hresult⟩ := h
    obtain ⟨rfl, rfl⟩ := Program.run_pure_eq_ok.mp hresult
    rw [MessageService.verify, Program.run_bind_eq_ok] at h
    obtain ⟨_, w3, hpayload, h⟩ := h
    obtain ⟨-, rfl⟩ := Program.run_ofExcept_eq_ok.mp hpayload
    rw [Program.run_bind_eq_ok] at h
    obtain ⟨r, w3, hverify, h⟩ := h
    obtain ⟨rfl, hsigner⟩ := verify_eq hrun hsigned hverify
    rw [Program.run_bind_eq_ok, hsigner] at h
    obtain ⟨t, w4, hresolve, h⟩ := h
    obtain ⟨rfl, rfl⟩ := Program.run_pure_eq_ok.mp h
    exact (meets_resolveSignerTrust hlist).of_run_eq_ok hresolve
  | decrypt ciphertext passphrase =>
    rw [Call.signerTrust, map_eq_pure_bind, Program.run_bind_eq_ok] at h
    obtain ⟨result, w2, h, hresult⟩ := h
    obtain ⟨rfl, rfl⟩ := Program.run_pure_eq_ok.mp hresult
    rw [MessageService.decrypt, Program.run_bind_eq_ok] at h
    obtain ⟨d, w3, hdecrypt, h⟩ := h
    have hraises : ∀ (e : Exc) (s : World γ Time) (a : Decrypted) (s' : World γ Time), (do
        emit env.toEnv (lit "message_decrypt_failed") (lit "failed")
          { items := [(lit "reason", .str e.cls.name)], unique := rfl }
        Program.raise e : Program (World γ Time) Exc Decrypted).run s ≠ .ok a s' := by
      intro e s a s' he
      obtain ⟨_, s1, -, he⟩ := Program.run_bind_eq_ok.mp he
      cases he
    rw [Program.run_catching_eq_ok hraises] at hdecrypt
    obtain ⟨hgnupg, hsigner⟩ := decrypt_eq hrun hsigned hdecrypt
    rw [hgnupg] at hlist
    rw [Program.run_bind_eq_ok, hsigner] at h
    obtain ⟨t, w4, hresolve, h⟩ := h
    obtain ⟨_, w5, -, h⟩ := Program.run_bind_eq_ok.mp h
    obtain ⟨rfl, rfl⟩ := Program.run_pure_eq_ok.mp h
    exact (meets_resolveSignerTrust hlist).of_run_eq_ok hresolve

/-- **A valid signature by a key is reported with the trust in the key if and only
if the key itself made it**, or the fingerprint of the subkey leads to the same
trust by coincidence. -/
theorem reportedTrust_iff {c : Call} {w w1 w' : World γ Time} {proc : GPGRun} {g : γ} {trust : TrustLevel}
    (hrun : (c.gpgRun env home).run w = .ok proc w1) (hlist : env.gpg.listKeys false w1.gnupg = (.ok keys, g))
    (hkeys : Listing keys) (hkey : key ∈ keys) (hsigned : SignedBy (parseStatus proc.status) key signer)
    (h : (c.signerTrust env home).run w = .ok trust w') :
    trust = key.trust ↔ signer = key.fingerprint ∨ Coincides keys key signer := by
  rw [signerTrust_eq hrun hlist hsigned h]
  constructor
  · intro htrust
    cases hfound : keyIn keys signer with
    | none =>
      rw [trustIn, hfound] at htrust
      exact .inr (.inr ⟨keyIn_eq_none.mp hfound, htrust.symm⟩)
    | some key' =>
      obtain ⟨hkey', hfp⟩ := keyIn_eq_some hfound
      rw [trustIn, hfound] at htrust
      exact .inr (.inl ⟨key', hkey', hfp, htrust⟩)
  · rintro (rfl | ⟨key', hkey', hfp, htrust⟩ | ⟨hnone, htrust⟩)
    · exact trustIn_eq hkeys hkey (normalise_of_isFingerprint (hkeys.isFingerprint key hkey))
    · exact (trustIn_eq hkeys hkey' hfp).trans htrust
    · rw [trustIn, keyIn_eq_none.mpr hnone, htrust]
      rfl

end Lookup

/-! ### A key with a subkey that signs -/

/-- A key that is trusted ultimately. -/
def sampleKey : KeyInfo Unit where
  fingerprint := List.replicate 40 (codePoint 'A')
  userIds := [lit "Ann"]
  createdAt := ()
  subkeyFingerprints := [List.replicate 40 (codePoint 'B')]
  trust := .ultimate

/-- What GnuPG writes of a signature by the key or its subkey. -/
def sampleStatus (bySubkey : Bool) : Gpg.Chunk where
  data :=
    ascii "[GNUPG:] GOODSIG 0123456789ABCDEF Ann\n[GNUPG:] VALIDSIG " ++
      List.replicate 40 (if bySubkey then 0x42 else 0x41) ++ ascii " 2026-01-01 0 0 4 0 22 8 00 " ++
      List.replicate 40 0x41 ++ [0x0A]
  nonempty := by cases bySubkey <;> decide
  bound := by cases bySubkey <;> decide +kernel

def sampleGnuPG (bySubkey : Bool) : GnuPG Unit Unit where
  baseCmd := [lit "gpg"]
  pipes _ := (lit "3", lit "4")
  popen _ _ _ g := (.ok { returncode := 0, reads := [sampleStatus bySubkey] }, g)
  listKeys _ g := (.ok [sampleKey], g)

def sampleHome : HomeDir Unit where
  temporaryName suffix _ := lit "/home/tmp" ++ suffix
  write _ _ g := g
  unlink _ g := g

theorem listing_sample : Listing [sampleKey] where
  isFingerprint key hkey := by
    obtain rfl := List.mem_singleton.mp hkey
    decide
  trust key hkey key' hkey' _ := by
    obtain rfl := List.mem_singleton.mp hkey
    obtain rfl := List.mem_singleton.mp hkey'
    rfl

theorem signedBy_sample (bySubkey : Bool) :
    SignedBy (parseStatus (drainPipe statusBufLimit [] [sampleStatus bySubkey])) sampleKey
      (List.replicate 40 (codePoint (if bySubkey then 'B' else 'A'))) where
  valid := by cases bySubkey <;> exact ⟨by decide +kernel, by decide +kernel, by decide +kernel⟩
  validsig := by
    refine ⟨[lit "2026-01-01", lit "0", lit "0", lit "4", lit "0", lit "22", lit "8", lit "00",
      List.replicate 40 (codePoint 'A')], ?_, rfl⟩
    cases bySubkey <;> decide +kernel
  mem := by cases bySubkey <;> decide

/-- The call on a clear-signed message. -/
def sampleCall : Call := .verify (ascii "hello") none

theorem not_reportsTrust : ¬ ∀ (γ Time : Type) (env : Platform γ Time) (home : HomeDir γ), ReportsTrust env home := by
  intro h
  have hrun : Program.returns (fun proc _ => proc.status = drainPipe statusBufLimit [] [sampleStatus true])
      (sampleCall.gpgRun (samplePlatform (sampleGnuPG true)) sampleHome) (sampleWorld () fun _ => none) = true := by
    decide +kernel
  have htrust : Program.returns (fun trust _ => trust = .unknown)
      (sampleCall.signerTrust (samplePlatform (sampleGnuPG true)) sampleHome) (sampleWorld () fun _ => none) = true := by
    decide +kernel
  obtain ⟨proc, w1, hrun, hstatus⟩ := Program.returns_eq_true.mp hrun
  obtain ⟨trust, w', htrust, hunknown⟩ := Program.returns_eq_true.mp htrust
  have hsigned := signedBy_sample true
  rw [← of_decide_eq_true hstatus] at hsigned
  have hreport := h Unit Unit _ sampleHome sampleCall _ w1 w' proc [sampleKey] w1.gnupg sampleKey _ trust hrun rfl
    listing_sample (List.mem_singleton.mpr rfl) hsigned htrust
  rw [of_decide_eq_true hunknown] at hreport
  cases hreport

/-- The key itself has signed. -/
theorem reportedTrust_sample : ∃ trust w', (sampleCall.signerTrust (samplePlatform (sampleGnuPG false)) sampleHome).run
    (sampleWorld () fun _ => none) = .ok trust w' ∧ trust = .ultimate := by
  have hrun : Program.returns (fun proc _ => proc.status = drainPipe statusBufLimit [] [sampleStatus false])
      (sampleCall.gpgRun (samplePlatform (sampleGnuPG false)) sampleHome) (sampleWorld () fun _ => none) = true := by
    decide +kernel
  have htrust : Program.returns (fun _ _ => true)
      (sampleCall.signerTrust (samplePlatform (sampleGnuPG false)) sampleHome) (sampleWorld () fun _ => none) = true := by
    decide +kernel
  obtain ⟨proc, w1, hrun, hstatus⟩ := Program.returns_eq_true.mp hrun
  obtain ⟨trust, w', htrust, -⟩ := Program.returns_eq_true.mp htrust
  have hsigned := signedBy_sample false
  rw [← of_decide_eq_true hstatus] at hsigned
  have hlist : (samplePlatform (sampleGnuPG false)).gpg.listKeys false w1.gnupg = (.ok [sampleKey], w1.gnupg) := rfl
  exact ⟨trust, w', htrust, (reportedTrust_iff hrun hlist listing_sample (List.mem_singleton.mpr rfl) hsigned
    htrust).mpr (.inl rfl)⟩

end MessageService
end GpgMeister
