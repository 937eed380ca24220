/-
# Opening a vault twice

`VaultService._open`, in worlds with the same vault and the same sidecar in
which nothing fails and GnuPG answers alike (`Setting.Calm`): it ends alike in
all of them (`determined_openVault`). The sidecar is the only difference between
opening a vault with its checksum and without it (`openVault_of_skipChecksum`,
`sidecarMatches_of_openVault`).
-/
import GpgMeister.Lib.Determined
import GpgMeister.Services.VaultDerivations

namespace GpgMeister
namespace VaultService

open VaultFormat VaultKeyslots VaultPayload Program

variable {γ Time α : Type} {env : Platform γ Time}

/-! ### Worlds in which nothing gets in the way -/

/-- A vault and its sidecar, states of GnuPG, and states of the audit log. -/
structure Setting (γ : Type) where
  src : Path
  vault : Option Bytes
  sidecar : Option Bytes
  answers : γ → Prop
  takes : AuditSink → Prop

/-- The files are these, no call of the operating system fails, and GnuPG and the
audit log are in such states. -/
structure Setting.Calm (S : Setting γ) (w : World γ Time) : Prop where
  vault : w.files S.src = S.vault
  sidecar : w.files (sidecarOf S.src) = S.sidecar
  faults : ∀ n, w.faults n = none
  answers : S.answers w.gnupg
  takes : S.takes w.audit

/-- The reasons in the records of failed imports. -/
def failureReasons : List Str := [lit "format", lit "decryption", lit "smartcard", lit "checksum", lit "payload"]

/-- GnuPG gives the same answers in all of its states, and the audit log takes
the records of failed imports. -/
structure Setting.Steady (S : Setting γ) (env : Platform γ Time) : Prop where
  pipes : ∀ g g', S.answers g → S.answers g' → env.gpg.pipes g = env.gpg.pipes g'
  popen : ∀ args input passphrase g g', S.answers g → S.answers g' →
    (env.gpg.popen args input passphrase g).1 = (env.gpg.popen args input passphrase g').1
  keeps : ∀ args input passphrase g, S.answers g → S.answers (env.gpg.popen args input passphrase g).2
  records : ∀ audit, S.takes audit → ∀ reason ∈ failureReasons, ∃ audit',
    (AuditSink.emit env.toEnv (lit "vault_import_failed") (lit "failed")
      { items := [(lit "path", .str S.src.text), (lit "reason", .str reason)], unique := rfl }).run audit =
        .ok () audit' ∧ S.takes audit'

/-- The sidecar is missing, or has the digest of the vault. -/
def Setting.SidecarMatches (S : Setting γ) (env : Platform γ Time) : Prop :=
  ∀ raw data, S.sidecar = some raw → S.vault = some data →
    (decodeAscii (raw.take 256)).bind (sidecarDigest env) = .ok (env.lower (env.sha256 data))

/-! ### The primitives -/

section Primitives

variable {S : Setting γ}

theorem settles_syscall : Settles S.Calm id (syscall : Program (World γ Time) Exc Unit) (.ok ()) := by
  intro w hw
  unfold Meets
  simp only [EStateM.run, syscall, hw.faults 0]
  exact ⟨trivial, hw.vault, hw.sidecar, fun n => hw.faults (n + 1), hw.answers, hw.takes⟩

theorem settles_fileExists {path : Path} {o : Option Bytes} (ho : ∀ w : World γ Time, S.Calm w → w.files path = o) :
    Settles S.Calm id (fileExists path : Program (World γ Time) Exc Bool) (.ok o.isSome) := by
  intro w hw
  rw [fileExists, meets_bind]
  refine (settles_syscall w hw).mono ?_ ?_
  · rintro _ w' ⟨-, hw'⟩
    rw [meets_bind, meets_get, ho w' hw']
    exact ⟨rfl, hw'⟩
  · rintro e w' ⟨he, -⟩
    cases he

/-- What reading a file gives. -/
def readOf (path : Path) : Option Bytes → Except Exc Bytes
  | some data => .ok data
  | none => .error { cls := .fileNotFoundError, message := path.text }

theorem settles_readFile {path : Path} {o : Option Bytes} (ho : ∀ w : World γ Time, S.Calm w → w.files path = o) :
    Settles S.Calm id (readFile path : Program (World γ Time) Exc Bytes) (readOf path o) := by
  intro w hw
  rw [readFile, meets_bind]
  refine (settles_syscall w hw).mono ?_ ?_
  · rintro _ w' ⟨-, hw'⟩
    rw [meets_bind, meets_get, ho w' hw']
    cases o with
    | none => exact ⟨rfl, hw'⟩
    | some data => exact ⟨rfl, hw'⟩
  · rintro e w' ⟨he, -⟩
    cases he

theorem settles_recorded {β : Type} {p : α → β} {x : Program (World γ Time) Exc α} {r : Except Exc β}
    (h : Settles S.Calm p x r) (call : Option Exc → Call) : Settles S.Calm p (recorded call x) r := by
  intro w hw
  rw [meets_recorded]
  refine (h w hw).mono ?_ ?_
  · rintro a w' ⟨hr, hw'⟩
    exact ⟨hr, hw'.vault, hw'.sidecar, hw'.faults, hw'.answers, hw'.takes⟩
  · rintro e w' ⟨hr, hw'⟩
    exact ⟨hr, hw'.vault, hw'.sidecar, hw'.faults, hw'.answers, hw'.takes⟩

theorem settles_modifyBuffer (buffer : ℕ) (f : Bytes → Bytes) :
    Settles S.Calm id (modifyBuffer buffer f : Program (World γ Time) Exc Unit) (.ok ()) := fun _ hw =>
  ⟨rfl, hw.vault, hw.sidecar, hw.faults, hw.answers, hw.takes⟩

theorem determined_attempt {x : Program (World γ Time) Exc α} (h : Determined S.Calm id x) (classes : List ErrorClass) :
    Determined S.Calm id (attempt classes x) := by
  refine (h.map Except.ok).catching fun e => ?_
  split
  · exact .pure _
  · exact .raise e

theorem determined_deriveKey (passphrase salt : Bytes) (params : KDFParams) :
    Determined S.Calm id (deriveKey env passphrase salt params) :=
  ⟨_, settles_recorded (.ofExcept _) _⟩

theorem determined_unwrapWithPassphrase (slot : VaultKeySlot) (passphrase : Bytes) (params : KDFParams)
    (cipher : CipherAlgorithm) : Determined S.Calm id (unwrapWithPassphrase env slot passphrase params cipher) := by
  unfold unwrapWithPassphrase
  split
  · refine (determined_deriveKey passphrase _ params).bind fun slotKey => ?_
    split
    · exact .raise _
    · exact (Determined.ofExcept _).bind fun raw => .ofExcept _
  · exact .raise _

theorem determined_tryPassphraseSlots (masterPassphrase : Bytes) (cipher : CipherAlgorithm) :
    ∀ (slots : List VaultKeySlot) (lastError : Option Exc),
      Determined S.Calm id (tryPassphraseSlots env masterPassphrase cipher slots lastError)
  | [], lastError => .raise _
  | slot :: slots, lastError => by
    unfold tryPassphraseSlots
    split
    · exact determined_tryPassphraseSlots masterPassphrase cipher slots lastError
    · rename_i kdf hkdf
      have hunwrap : Determined S.Calm id (Program.ofExcept (validateImportKdf kdf.toParams) >>= fun _ =>
          unwrapWithPassphrase env slot masterPassphrase kdf.toParams cipher) :=
        (Determined.ofExcept _).bind fun _ => determined_unwrapWithPassphrase slot masterPassphrase kdf.toParams cipher
      refine (determined_attempt hunwrap _).bind fun result => ?_
      cases result with
      | ok fileKey => exact .pure fileKey
      | error e => exact determined_tryPassphraseSlots masterPassphrase cipher slots (some e)

variable (hS : S.Steady env)

include hS

theorem settles_emitImportFailed {reason : Str} (hreason : reason ∈ failureReasons) :
    Settles S.Calm id (emitImportFailed env S.src reason) (.ok ()) := by
  refine settles_recorded ?_ _
  intro w hw
  rw [meets_onPart]
  obtain ⟨audit', hrun, htakes⟩ := hS.records w.audit hw.takes reason hreason
  unfold Meets
  rw [hrun]
  exact ⟨rfl, hw.vault, hw.sidecar, hw.faults, hw.answers, htakes⟩

/-- The record of a failure, and the failure. -/
theorem determined_fail {reason : Str} (hreason : reason ∈ failureReasons) (e : Exc) :
    Determined S.Calm id
      (emitImportFailed env S.src reason >>= fun _ => (Program.raise e : Program (World γ Time) Exc α)) :=
  Determined.bind ⟨_, settles_emitImportFailed hS hreason⟩ fun _ => .raise e

theorem determined_popen (args : List Str) (input passphrase : Option Bytes) :
    Determined S.Calm id (GPGService.onGnupg (env.gpg.popen args input passphrase) : Program (World γ Time) Exc _) := by
  by_cases hany : ∃ w : World γ Time, S.Calm w
  · obtain ⟨w0, hw0⟩ := hany
    refine ⟨(env.gpg.popen args input passphrase w0.gnupg).1, fun w hw => ?_⟩
    have heq := hS.popen args input passphrase w0.gnupg w.gnupg hw0.answers hw.answers
    have hkeeps := hS.keeps args input passphrase w.gnupg hw.answers
    unfold Meets
    rw [heq]
    simp only [EStateM.run, GPGService.onGnupg]
    cases hpopen : env.gpg.popen args input passphrase w.gnupg with
    | mk answer g =>
      rw [hpopen] at hkeeps
      cases answer <;> exact ⟨rfl, hw.vault, hw.sidecar, hw.faults, hkeeps, hw.takes⟩
  · exact ⟨.error { cls := .exception, message := [] }, fun w hw => absurd ⟨w, hw⟩ hany⟩

theorem determined_runGpg (args : List Str) (input passphrase : Option Bytes) (statusFd : Bool) :
    Determined S.Calm id (GPGService.runGpg env args input passphrase statusFd) := by
  refine Determined.bind ⟨_, settles_syscall⟩ fun _ => (Determined.ofExcept _).bind fun passBytes =>
    Determined.bind ⟨_, settles_syscall⟩ fun _ => ?_
  -- the command line has the numbers of the pipes, which are the same
  have hget : Determined S.Calm (fun w : World γ Time => env.gpg.pipes w.gnupg)
      (get : Program (World γ Time) Exc _) := by
    by_cases hany : ∃ w : World γ Time, S.Calm w
    · obtain ⟨w0, hw0⟩ := hany
      refine ⟨.ok (env.gpg.pipes w0.gnupg), fun w hw => ?_⟩
      rw [meets_get, hS.pipes w0.gnupg w.gnupg hw0.answers hw.answers]
      exact ⟨rfl, hw⟩
    · exact ⟨.error { cls := .exception, message := [] }, fun w hw => absurd ⟨w, hw⟩ hany⟩
  refine hget.bind_of fun pipes => ?_
  have hrest : Determined S.Calm id (Program.ofExcept (GPGService.rejectPassphraseInArgv
      (env.gpg.baseCmd ++ (if statusFd then [lit "--status-fd", pipes.1] else []) ++
        (if passphrase.isSome then [lit "--passphrase-fd", pipes.2] else []) ++ args) passBytes) >>= fun _ =>
      GPGService.onGnupg (env.gpg.popen args input passphrase) >>= fun out =>
        (return Gpg.statusRun out.returncode out.stdout out.stderr (if statusFd then out.reads else []) :
          Program (World γ Time) Exc Gpg.GPGRun)) :=
    (Determined.ofExcept _).bind fun _ => (determined_popen hS args input passphrase).bind fun out => .pure _
  obtain ⟨r, hr⟩ := hrest
  refine ⟨r, fun w hw => ?_⟩
  rw [GPGService.commandLine, hw]
  exact hr

theorem determined_decrypt (ciphertext : Bytes) (passphrase : Option Bytes) :
    Determined S.Calm id (GPGService.decrypt env ciphertext passphrase) := by
  obtain ⟨r, hr⟩ := (determined_runGpg hS [lit "--decrypt"] (some ciphertext) passphrase true).bind fun proc =>
    Determined.ofExcept (Gpg.decrypt env.lower env.fromTimestamp proc)
  exact ⟨r, settles_recorded hr _⟩

theorem determined_tryOpenpgpSlots (smartcardPin : Bytes) : ∀ (slots : List VaultKeySlot) (lastError : Option Exc),
    Determined S.Calm id (tryOpenpgpSlots env smartcardPin S.src slots lastError)
  | [], lastError => determined_fail hS (by decide) _
  | slot :: slots, lastError => by
    refine (determined_attempt (determined_decrypt hS slot.wrappedKey (some smartcardPin)) caughtErrors).bind ?_
    intro result
    cases result with
    | ok decrypted => exact .ofExcept _
    | error e => exact determined_tryOpenpgpSlots smartcardPin slots (some e)


/-! ### The steps of an opening -/

/-- What a failure of one class is recorded as, and raised again. -/
theorem determined_recordedAs {x : Program (World γ Time) Exc α} (hx : Determined S.Calm id x)
    (classes : List ErrorClass) {reason : Str} (hreason : reason ∈ failureReasons) :
    Determined S.Calm id (x.catching fun e =>
      if e.isA classes then do
        emitImportFailed env S.src reason
        Program.raise e
      else Program.raise e) := by
  refine hx.catching fun e => ?_
  split
  · exact determined_fail hS hreason e
  · exact .raise e

theorem determined_vaultKey (frame : UnpackedFrame) (credentials : Credentials) :
    Determined S.Calm id (vaultKey env frame credentials S.src) := by
  unfold vaultKey
  dsimp only
  split
  · split
    · unfold unwrapOpenpgpSlot
      split
      · exact .raise _
      · exact determined_tryOpenpgpSlots hS _ _ _
    · exact .raise _
    · refine determined_recordedAs hS ?_ [.decryptionError] (by decide)
      unfold unwrapPassphraseSlot
      split
      · exact .raise _
      · exact determined_tryPassphraseSlots _ _ _ _
  · split
    · exact .raise _
    · exact .raise _
    · exact (Determined.ofExcept _).bind fun _ => determined_deriveKey _ _ _

/-- The plaintext is the same; where it is in memory need not be. -/
theorem determined_decryptFrame (frame : UnpackedFrame) (credentials : Credentials) :
    Determined S.Calm Plaintext.octets (decryptFrame env frame credentials S.src) := by
  refine (determined_vaultKey hS frame credentials).bind fun key => ?_
  refine (determined_recordedAs hS (.ofExcept _) [.decryptionError] (by decide)).bind fun octets => ?_
  exact ⟨.ok octets, fun w hw => ⟨rfl, hw.vault, hw.sidecar, hw.faults, hw.answers, hw.takes⟩⟩

theorem determined_readFrame : Determined S.Calm id (readFrame env S.src) := by
  refine Determined.bind ⟨_, settles_fileExists fun w hw => hw.vault⟩ fun there => ?_
  split
  · have hread : Determined S.Calm id (readVaultBytes S.src : Program (World γ Time) Exc Bytes) := by
      refine Determined.bind ⟨_, settles_syscall⟩ fun _ => ?_
      refine Determined.bind ⟨_, settles_readFile fun w hw => hw.vault⟩ fun data => ?_
      split
      · exact .raise _
      · exact .pure data
    refine hread.bind fun data => ?_
    refine (determined_recordedAs hS (.ofExcept _) [.vaultFormatError] (by decide)).bind fun frame => ?_
    exact .pure (data, frame)
  · exact .raise _

/-- The digest in a sidecar. -/
def digestOf (env : Platform γ Time) (S : Setting γ) : Except Exc Str :=
  (readOf (sidecarOf S.src) S.sidecar).bind fun raw => (decodeAscii (raw.take 256)).bind (sidecarDigest env)

omit hS in
theorem settles_readSidecarDigest :
    Settles S.Calm id (readSidecarDigest env (sidecarOf S.src)) (digestOf env S) :=
  Settles.bind (settles_readFile fun _ hw => hw.sidecar) fun _ => Settles.bind (.ofExcept _) fun _ => .ofExcept _

/-- What is made of the sidecar, if there is one. -/
def checksumOf (env : Platform γ Time) (S : Setting γ) (data : Bytes) : Except Exc Unit :=
  if S.sidecar.isSome then
    (digestOf env S).bind fun expected =>
      if expected ≠ env.lower (env.sha256 data) then
        .error
          { cls := .vaultChecksumMismatchError
            message := lit "vault checksum mismatch: expected " ++ expected.take 16 ++ lit "…" }
      else .ok ()
  else .ok ()

theorem settles_verifySidecar (data : Bytes) :
    Settles S.Calm id (verifySidecar env S.src data) (checksumOf env S data) := by
  refine Settles.bind (settles_fileExists fun w hw => hw.sidecar) (g := fun there =>
    if there then _ else _) fun there => ?_
  cases there with
  | false => exact .pure ()
  | true =>
    refine Settles.bind settles_readSidecarDigest fun expected => ?_
    by_cases hne : expected ≠ env.lower (env.sha256 data)
    · rw [id, if_pos hne, if_pos hne]
      exact Settles.bind (settles_emitImportFailed hS (by decide)) (g := fun _ => .error _) fun _ => .raise _
    · rw [id, if_neg hne, if_neg hne]
      exact .pure ()

/-- What is made of a plaintext. -/
def payloadOf (env : Platform γ Time) (src : Path) (frame : UnpackedFrame) (octets : Bytes) :
    Except Exc (OpenedVault Time) :=
  (deserialiseSegmentedPayload env octets).bind fun (manifest, keySlices, plaintext) =>
    if frame.header.cipher.nonce.length ≠ nonceLen then .error (formatError (lit "vault nonce length mismatch"))
    else .ok { manifest, srcPath := src, plaintext, keySlices }

omit hS in
theorem settles_copyLegacyPayload (octets : Bytes) :
    Settles S.Calm id (copyLegacyPayload env octets : Program (World γ Time) Exc Unit) (.ok ()) := by
  refine .of_meets fun w hw => ?_
  refine (spares_copyLegacyPayload env octets w List.nil_prefix).mono (fun _ w' h => ?_) fun _ _ h => h
  obtain ⟨-, b, -, rfl⟩ := h
  exact ⟨rfl, hw.vault, hw.sidecar, hw.faults, hw.answers, hw.takes⟩

omit hS in
theorem settles_openPayload_skip (src : Path) (data : Bytes) (frame : UnpackedFrame) (payload : Plaintext) :
    Settles S.Calm id (openPayload env src data frame true payload) (payloadOf env src frame payload.octets) := by
  refine (settles_copyLegacyPayload payload.octets).bind_of_ok fun _ _ => ?_
  refine Settles.bind (.ofExcept _) fun opened => ?_
  obtain ⟨manifest, keySlices, plaintext⟩ := opened
  refine Settles.bind (settles_modifyBuffer payload.buffer fun _ => plaintext) (g := fun _ =>
    (if frame.header.cipher.nonce.length ≠ nonceLen then .error (formatError (lit "vault nonce length mismatch"))
    else .ok { manifest, srcPath := src, plaintext, keySlices } : Except Exc (OpenedVault Time))) fun _ => ?_
  by_cases hn : frame.header.cipher.nonce.length ≠ nonceLen
  · rw [if_pos hn, if_pos hn]
    exact .raise _
  · rw [if_neg hn, if_neg hn]
    exact .pure _

theorem determined_openPayload (data : Bytes) (frame : UnpackedFrame) (skipChecksum : Bool) :
    ∃ r : Bytes → _, ∀ payload : Plaintext,
      Settles S.Calm id (openPayload env S.src data frame skipChecksum payload) (r payload.octets) := by
  cases skipChecksum with
  | true => exact ⟨payloadOf env S.src frame, settles_openPayload_skip S.src data frame⟩
  | false =>
    refine ⟨fun octets => (checksumOf env S data).bind fun _ => payloadOf env S.src frame octets, fun payload => ?_⟩
    rw [openPayload_eq]
    exact (settles_verifySidecar hS data).bind fun _ => settles_openPayload_skip S.src data frame payload

/-- The end of an opening that fails. -/
theorem settles_failPayload (payload : Plaintext) (e : Exc) :
    Settles S.Calm id (do
      zeroMutableBuffer payload.buffer
      if e.isA [.vaultFormatError] then do
        emitImportFailed env S.src (lit "payload")
        Program.raise e
      else Program.raise e : Program (World γ Time) Exc (OpenedVault Time)) (.error e) := by
  refine Settles.bind (settles_modifyBuffer _ _) (g := fun _ => .error e) fun _ => ?_
  split
  · exact Settles.bind (settles_emitImportFailed hS (by decide)) (g := fun _ => .error e) fun _ => .raise e
  · exact .raise e

/-- **Opening a vault ends alike** wherever nothing gets in the way. -/
theorem determined_openVault {sourcePath : Path} (hsrc : env.resolve sourcePath = S.src) (credentials : Credentials)
    (skipChecksum : Bool) : Determined S.Calm id (openVault env sourcePath credentials skipChecksum) := by
  unfold openVault
  split
  · exact .raise _
  · rw [hsrc]
    refine (determined_readFrame hS).bind fun (data, frame) => ?_
    obtain ⟨r, hr⟩ := determined_openPayload hS data frame skipChecksum
    refine (determined_decryptFrame hS frame credentials).bind_of fun octets => ?_
    refine ⟨(r octets).tryCatch .error, fun payload hpayload => ?_⟩
    rw [← hpayload]
    exact (hr payload).catching (settles_failPayload hS payload)

/-! ### The sidecar -/

omit hS in
theorem checksumOf_eq_ok_iff {data : Bytes} (hvault : S.vault = some data) :
    checksumOf env S data = .ok () ↔ S.SidecarMatches env := by
  unfold checksumOf digestOf Setting.SidecarMatches
  cases hsidecar : S.sidecar with
  | none => simp
  | some raw =>
    simp only [Option.isSome_some, if_true, hvault, readOf, Except.bind, Option.some.injEq]
    constructor
    · rintro hok raw' data' rfl rfl
      split at hok
      · cases hok
      · rename_i expected hdigest
        split at hok
        · cases hok
        · rename_i hne
          rw [← not_not.mp hne]
          exact hdigest
    · intro hmatches
      have hdigest := hmatches raw data rfl rfl
      rw [hdigest]
      simp

omit hS in
theorem failPayload_ne_ok (payload : Plaintext) (e : Exc) (w : World γ Time) (opened : OpenedVault Time)
    (w' : World γ Time) : (do
      zeroMutableBuffer payload.buffer
      if e.isA [.vaultFormatError] then do
        emitImportFailed env S.src (lit "payload")
        Program.raise e
      else Program.raise e : Program (World γ Time) Exc (OpenedVault Time)).run w ≠ .ok opened w' := by
  intro h
  obtain ⟨_, w1, -, h⟩ := run_bind_eq_ok.mp h
  split at h
  · obtain ⟨_, w2, -, h⟩ := run_bind_eq_ok.mp h
    cases h
  · cases h

/-- What an opening that returns has done. -/
theorem openVault_eq_ok {sourcePath : Path} (hsrc : env.resolve sourcePath = S.src) {credentials : Credentials}
    {skipChecksum : Bool} {w w' : World γ Time} (hw : S.Calm w) {opened : OpenedVault Time}
    (hrun : (openVault env sourcePath credentials skipChecksum).run w = .ok opened w') :
    ∃ data frame payload w1 w2, ¬ (credentials.masterPassphrase = none ∧ credentials.smartcardPin = none) ∧
      (readFrame env S.src).run w = .ok (data, frame) w1 ∧ S.vault = some data ∧
      (decryptFrame env frame credentials S.src).run w1 = .ok payload w2 ∧ S.Calm w2 ∧
      (openPayload env S.src data frame skipChecksum payload).run w2 = .ok opened w' := by
  unfold openVault at hrun
  split at hrun
  · cases hrun
  · rename_i hcredentials
    rw [hsrc] at hrun
    obtain ⟨⟨data, frame⟩, w1, hread, hrun⟩ := run_bind_eq_ok.mp hrun
    obtain ⟨payload, w2, hdecrypt, hrun⟩ := run_bind_eq_ok.mp hrun
    have hw1 := (determined_readFrame hS).inv_of_ok hw hread
    have hw2 := (determined_decryptFrame hS frame credentials).inv_of_ok hw1 hdecrypt
    have hvault : S.vault = some data := by
      rw [← hw.vault]
      exact (readFrame_eq_ok _ hread).1
    refine ⟨data, frame, payload, w1, w2, hcredentials, hread, hvault, hdecrypt, hw2, ?_⟩
    exact (run_catching_eq_ok (failPayload_ne_ok payload)).mp hrun

/-- A vault that opens with its checksum has a sidecar that matches. -/
theorem sidecarMatches_of_openVault {sourcePath : Path} (hsrc : env.resolve sourcePath = S.src)
    {credentials : Credentials} {w w' : World γ Time} (hw : S.Calm w) {opened : OpenedVault Time}
    (hrun : (openVault env sourcePath credentials false).run w = .ok opened w') : S.SidecarMatches env := by
  obtain ⟨data, frame, payload, w1, w2, -, -, hvault, -, hw2, hopen⟩ := openVault_eq_ok hS hsrc hw hrun
  rw [openPayload_eq] at hopen
  obtain ⟨u, w3, hverify, -⟩ := run_bind_eq_ok.mp hopen
  exact (checksumOf_eq_ok_iff hvault).mp ((settles_verifySidecar hS data).ok hw2 hverify).1

/-- With a sidecar that matches, what opens without the checksum opens with it. -/
theorem openVault_of_skipChecksum {sourcePath : Path} (hsrc : env.resolve sourcePath = S.src)
    {credentials : Credentials} (hmatches : S.SidecarMatches env) {w w' : World γ Time} (hw : S.Calm w)
    {opened : OpenedVault Time} (hrun : (openVault env sourcePath credentials true).run w = .ok opened w') :
    ∃ opened' w'', (openVault env sourcePath credentials false).run w = .ok opened' w'' := by
  obtain ⟨data, frame, payload, w1, w2, hcredentials, hread, hvault, hdecrypt, hw2, hopen⟩ :=
    openVault_eq_ok hS hsrc hw hrun
  have hverify := settles_verifySidecar hS data
  rw [(checksumOf_eq_ok_iff hvault).mpr hmatches] at hverify
  obtain ⟨u, w3, hverified, -, hw3⟩ := hverify.run_of_ok hw2
  obtain ⟨opened', w4, hopen', -, -⟩ :=
    Determined.ok ⟨_, settles_openPayload_skip S.src data frame payload⟩ hw2 hw3 hopen
  refine ⟨opened', w4, ?_⟩
  unfold openVault
  rw [if_neg hcredentials, hsrc]
  refine run_bind_eq_ok.mpr ⟨(data, frame), w1, hread, run_bind_eq_ok.mpr ⟨payload, w2, hdecrypt, ?_⟩⟩
  refine (run_catching_eq_ok (failPayload_ne_ok payload)).mpr ?_
  rw [openPayload_eq]
  exact run_bind_eq_ok.mpr ⟨u, w3, hverified, hopen'⟩

end Primitives

/-! ### A vault that a card opens -/

/-- So many octets of a number. -/
def octetsOf (length n : ℕ) : Bytes := (List.range length).map fun i => .ofNat (n / 256 ^ (length - 1 - i))

/-- The file key, encrypted for the key on the card. -/
def cardMessage : Bytes :=
  [0x2d2d2d2d2d424547494e20504750204d4553534147452d2d2d2d2d0a0a7759774456616d495843592f4148454241,
    0x2f34784a493649564c2b4568687945573830533549426148776d694c4236704e6f695668593547774e78512f5352,
    0x540a4943797973516d7a54776c3856474132626a336778415631315246594770735978686a6353704f734230464b,
    0x555231427838486b62766d4a626e45515172664e0a4b6f49777a777168676934364a2b77307155684b6c796e7957,
    0x54754e7656426733526c707445754c352b304c737a753763585248413150733937504a2b644a520a41634c6b6166,
    0x766a53565169316a564e63595366497a454d3163627a5170474a32383556416e444479372f6e5952624632675244,
    0x384b57574d4633756b4f35720a6862577a464151505a566f7950464a6b334853616866376d76417462664d4e376f
  ].flatMap (octetsOf 46) ++
    octetsOf 44 0x444b385051546a495338770a3d51436c440a2d2d2d2d2d454e4420504750204d4553534147452d2d2d2d2d0a

def cardHeader : Bytes :=
  ascii "\x7b\"cipher\":\x7b\"algorithm\":\"chacha20-poly1305\",\"nonce_b64\":\"uHXJ+XZ3qb+IxAmy\"\x7d," ++
    ascii "\"format\":\"GPGMEISTER_VAULT\",\"key_slots\":[\x7b\"fingerprint\":" ++
    ascii "\"61DAEE80CCDF97BA9C6ADD0455A9885C263F0071\",\"label\":\"\",\"type\":\"openpgp\"," ++
    ascii "\"wrapped_key_b64\":\"" ++ (Base64.encode cardMessage).map (fun c => .ofNat c.val) ++
    ascii "\"\x7d],\"version\":3\x7d"

def cardFileKey : Bytes := octetsOf 32 0x07df5cd5c2d690e6398248b3b6c62192058200c4be59b8762b1983fe9b6b72c0
def cardNonce : Bytes := octetsOf 12 0xb875c9f97677a9bf88c409b2

def cardPayload : Bytes :=
  u32 sampleManifestBytes.length ++ sampleManifestBytes ++ octetsOf 20 0x0123456789ABCDEF0123456789ABCDEF01234567 ++
    u32 6 ++ ascii "public" ++ u32 7 ++ ascii "private"

/-- The payload, encrypted with the file key. -/
def cardCiphertext : Bytes :=
  [0xf53a9565962cefb954c40d5ac260ef3085677d5234d97eb585905e01a6d3d2a8e8f7530d870bd7c52606c8e2180d,
    0x110cd42b31a4dd4b3d922834a4e5c1dae5c60c46984086cc7eb3d4290815c1090b15eaaf67d13d7d0d211d2de920,
    0x12e31aa90c15879cd88390e6bfbeec196a0aee3eb1672452a796fc66b17ebb9b60258ed72d432be42818ad2e0580,
    0xe9c0c08640859037c587b5ce6ff2afb57f84dda1a67bfe8b69ac39885fa4d7eeb44a6623dc38ba5ff20d27f9c237,
    0x2d3a7fe696bd1228c1f2d214a23cefbedf50c0b3130dbc376e9a8c5a357121e7bded17080cc79b10a33e30fa0533,
    0x948fecf6ac845bcc84da71562229b6c413e91276f8f391b8a0d8f3270770eb1e5b7911c7338c025c2296d8c5ce30
  ].flatMap (octetsOf 46) ++
    octetsOf 2 0xb2d7

def cardVault : Bytes := frameOf 3 cardHeader cardCiphertext

/-- The digest of the vault. -/
def cardDigest : Str := lit "1ddb61b23a6a86fd0a779af5b0d1b78062342dcdf01197025a8142dce35d1a57"

theorem cardDigest_hex : ∀ c ∈ cardDigest, c ∈ (List.range 16).map Json.hexDigit := by
  have hall : cardDigest.all (fun c => c ∈ (List.range 16).map Json.hexDigit) = true := by decide +kernel
  simpa only [List.all_eq_true, decide_eq_true_eq] using hall

def decryptionStatus : Gpg.Chunk where
  data := ascii "[GNUPG:] DECRYPTION_INFO 2 9\n[GNUPG:] DECRYPTION_OKAY\n"
  nonempty := by decide
  bound := by decide

/-- The card has the key of the slot, and its PIN is `123456`. -/
def cardGnuPG : GnuPG Unit Unit where
  baseCmd := [lit "gpg"]
  pipes _ := (lit "3", lit "4")
  popen _ input passphrase card :=
    if input = some cardMessage ∧ passphrase = some (ascii "123456") then
      (.ok
        { returncode := 0
          stdout := cardFileKey
          reads := [decryptionStatus] }, card)
    else (.ok { returncode := 2, stderr := ascii "gpg: public key decryption failed: Bad PIN" }, card)
  listKeys _ card := (.ok [], card)

/-- The platform whose ciphers, digests and codec know this vault. -/
def cardPlatform : Platform Unit Unit :=
  { samplePlatform cardGnuPG with
    msgpack := .single (sampleManifest.dump samplePydantic) sampleManifestBytes valueError
    sha256 := fun data => if data = cardVault then cardDigest else List.replicate 64 0x30
    sha256_length := fun data => by
      split
      · rfl
      · exact List.length_replicate
    sha256_hex := fun data => by
      split
      · exact cardDigest_hex
      · exact sampleDigest_hex
    aead :=
      { encrypt := fun _ _ _ _ _ => none
        decrypt := fun cipher key nonce associatedData ciphertext =>
          if cipher = .chacha20Poly1305 ∧ key = cardFileKey ∧ nonce = cardNonce ∧ associatedData = cardHeader ∧
            ciphertext = cardCiphertext then some cardPayload
          else none } }

theorem sha256_card (data : Bytes) :
    cardPlatform.sha256 data = if data = cardVault then cardDigest else List.replicate 64 0x30 := rfl

theorem sha256_cardVault : cardPlatform.sha256 cardVault = cardDigest := by rw [sha256_card, if_pos rfl]

def cardPath : Path := { parent := lit "/home/alice", name := lit "keys.gpgm" }

/-- A log without a chain, to which every record can be written. -/
structure PlainLog (audit : AuditSink) : Prop where
  hashChain : audit.handle.hashChain = false
  dropped : audit.handle.dropped = 0
  calls : ∀ n, audit.calls n = { ts := lit "2026-01-01T00:00:00Z", actor := lit "u" }
  locks : ∀ n, audit.locks n = none

def cardSetting (sidecar : Option Bytes) : Setting Unit where
  src := cardPath
  vault := some cardVault
  sidecar := sidecar
  answers _ := True
  takes := PlainLog

/-- The world of the setting. -/
def cardWorld (sidecar : Option Bytes) : World Unit Unit :=
  sampleWorld () fun path =>
    if path = cardPath then some cardVault else if path = sidecarOf cardPath then sidecar else none

theorem calm_cardWorld (sidecar : Option Bytes) : (cardSetting sidecar).Calm (cardWorld sidecar) where
  vault := rfl
  sidecar := rfl
  faults _ := rfl
  answers := trivial
  takes := ⟨rfl, rfl, fun _ => rfl, fun _ => rfl⟩

/-- The payload of the record of a failed import. -/
def failurePayload (reason : Str) : Dict where
  items := [(lit "path", .str cardPath.text), (lit "reason", .str reason)]
  unique := rfl

theorem checkPayload_failure : ∀ reason ∈ failureReasons,
    AuditLog.checkPayload cardPlatform.toEnv (lit "vault_import_failed") (failurePayload reason) = none := by
  decide +kernel

theorem serialise_failure : ∀ reason ∈ failureReasons,
    ((AuditLog.serialise cardPlatform.toEnv (AuditLog.recordOf (lit "vault_import_failed") (lit "failed")
      (failurePayload reason) { ts := lit "2026-01-01T00:00:00Z", actor := lit "u" })).bind AuditLog.encodeLine).isOk =
        true := by
  decide +kernel

theorem emit_of_plainLog {audit : AuditSink} (haudit : PlainLog audit) {reason : Str}
    (hreason : reason ∈ failureReasons) : ∃ audit',
    (AuditSink.emit cardPlatform.toEnv (lit "vault_import_failed") (lit "failed") (failurePayload reason)).run audit =
      .ok () audit' ∧ PlainLog audit' := by
  obtain ⟨hchain, hdropped, hcalls, hlocks⟩ := haudit
  have hline := serialise_failure reason hreason
  have hmember : lit "failed" ∈ AuditLog.validOutcomes := by decide
  have henvelope : ∀ record, AuditLog.envelope audit.handle record = record := fun record => by
    simp [AuditLog.envelope, hchain, hdropped]
  cases hserialise : AuditLog.serialise cardPlatform.toEnv (AuditLog.recordOf (lit "vault_import_failed")
      (lit "failed") (failurePayload reason) { ts := lit "2026-01-01T00:00:00Z", actor := lit "u" }) with
  | error e => simp [hserialise, Except.bind, Except.isOk, Except.toBool] at hline
  | ok line =>
    cases hencode : AuditLog.encodeLine line with
    | error e => simp [hserialise, hencode, Except.bind, Except.isOk, Except.toBool] at hline
    | ok data =>
      simp only [EStateM.run, AuditSink.emit, hlocks, AuditLog.emit, hmember, not_true, if_false,
        checkPayload_failure reason hreason, hchain, hcalls, AuditLog.writeRecord, henvelope, hserialise, hencode,
        Bool.false_eq_true, if_true]
      exact ⟨_, rfl, rfl, rfl, fun _ => rfl, fun _ => rfl⟩

theorem steady_cardPlatform (sidecar : Option Bytes) : (cardSetting sidecar).Steady cardPlatform where
  pipes _ _ _ _ := rfl
  popen _ _ _ _ _ _ _ := rfl
  keeps _ _ _ _ _ := trivial
  records _ haudit _ hreason := emit_of_plainLog haudit hreason

end VaultService
end GpgMeister
