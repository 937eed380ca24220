/-
# A created vault opens again

What `create` has left opens, with its master passphrase or with the PIN of a
card that has one of its unlock keys (`Opener`), to the manifest and the keys
that were put in.

* `settles_openVault`: the steps of an opening that works.
* `opens_created_iff`: the parameters of the key derivation have to be within the
  limits of an import, for a passphrase; and with the checksum the name of the
  file has to be ASCII, for the sidecar has it in UTF-8 and is read as ASCII.
* `opensAgain_iff`: when it opens with everything that should open it.
-/
import GpgMeister.Services.VaultReopen
import GpgMeister.Services.VaultSealing
import GpgMeister.Services.VaultSlotSearch

namespace GpgMeister
namespace VaultService

open VaultFormat VaultKeyslots VaultPayload Program

variable {γ Time : Type} {env : Platform γ Time} {S : Setting γ}

/-! ### The steps of an opening that works -/

theorem settles_readVaultBytes {data : Bytes} (hvault : S.vault = some data)
    (hlen : data.length ≤ maxVaultFrameSize) :
    Settles S.Calm id (readVaultBytes S.src : Program (World γ Time) Exc Bytes) (.ok data) := by
  have hread : Settles S.Calm id (readFile S.src : Program (World γ Time) Exc Bytes) (.ok data) := by
    have h : Settles S.Calm id (readFile S.src : Program (World γ Time) Exc Bytes) (readOf S.src S.vault) :=
      settles_readFile fun _ hw => hw.vault
    rwa [hvault] at h
  have hshort : ¬ (data.take (maxVaultFrameSize + 1)).length > maxVaultFrameSize := by
    rw [List.length_take]
    omega
  refine settles_syscall.bind_of_ok fun _ _ => hread.bind_of_ok fun found hfound => ?_
  obtain rfl : found = data := hfound
  rw [if_neg hshort]
  exact .pure found

theorem settles_readFrame {data : Bytes} {frame : UnpackedFrame} (hvault : S.vault = some data)
    (hlen : data.length ≤ maxVaultFrameSize) (hunpack : unpack env data = .ok frame) :
    Settles S.Calm id (readFrame env S.src) (.ok (data, frame)) := by
  have hthere : Settles S.Calm id (fileExists S.src : Program (World γ Time) Exc Bool) (.ok S.vault.isSome) :=
    settles_fileExists fun _ hw => hw.vault
  have hframe : Settles S.Calm id (Program.ofExcept (unpack env data) : Program (World γ Time) Exc UnpackedFrame)
      (.ok frame) := by
    rw [hunpack]
    exact .ofExcept _
  refine hthere.bind_of_ok fun there h => ?_
  rw [hvault] at h
  obtain rfl : there = true := h
  refine (settles_readVaultBytes hvault hlen).bind_of_ok fun found h => ?_
  obtain rfl : found = data := h
  refine (hframe.catching_ok _).bind_of_ok fun found' h => ?_
  obtain rfl : found' = frame := h
  exact .pure (found, found')

theorem settles_decryptFrame {frame : UnpackedFrame} {credentials : Credentials} {key octets : Bytes}
    (hkey : Settles S.Calm id (vaultKey env frame credentials S.src) (.ok key))
    (hdecrypt : env.aead.decryptChecked frame.ciphertext key frame.header.cipher.nonce frame.headerBytes
      frame.header.cipher.algorithm = .ok octets) :
    Settles S.Calm Plaintext.octets (decryptFrame env frame credentials S.src) (.ok octets) := by
  refine hkey.bind_of_ok fun found h => ?_
  obtain rfl : found = key := h
  have hoctets : Settles S.Calm id (Program.ofExcept (env.aead.decryptChecked frame.ciphertext found
      frame.header.cipher.nonce frame.headerBytes frame.header.cipher.algorithm) : Program (World γ Time) Exc Bytes)
      (.ok octets) := by
    rw [hdecrypt]
    exact .ofExcept _
  refine (hoctets.catching_ok _).bind_of_ok fun found' h => ?_
  obtain rfl : found' = octets := h
  exact fun w hw => ⟨rfl, hw.vault, hw.sidecar, hw.faults, hw.answers, hw.takes⟩

theorem settles_verifySidecar_of_matches {data : Bytes} (hvault : S.vault = some data)
    (hmatches : S.SidecarMatches env) : Settles S.Calm id (verifySidecar env S.src data) (.ok ()) := by
  have hthere : Settles S.Calm id (fileExists (sidecarOf S.src) : Program (World γ Time) Exc Bool)
      (.ok S.sidecar.isSome) := settles_fileExists fun _ hw => hw.sidecar
  refine hthere.bind_of_ok fun there h => ?_
  obtain rfl : there = S.sidecar.isSome := h
  cases hsidecar : S.sidecar with
  | none => exact .pure ()
  | some raw =>
    have hdigest : digestOf env S = .ok (env.lower (env.sha256 data)) := by
      unfold digestOf
      rw [hsidecar]
      exact hmatches raw data hsidecar hvault
    have hread : Settles S.Calm id (readSidecarDigest env (sidecarOf S.src)) (digestOf env S) :=
      settles_readSidecarDigest
    rw [hdigest] at hread
    refine hread.bind_of_ok fun expected h => ?_
    obtain rfl : expected = env.lower (env.sha256 data) := h
    rw [if_neg (not_not.mpr rfl)]
    exact .pure ()

theorem settles_openVault {sourcePath : Path} (hsrc : env.resolve sourcePath = S.src) {credentials : Credentials}
    {skipChecksum : Bool} {data octets : Bytes} {frame : UnpackedFrame} {opened : OpenedVault Time}
    (hgiven : ¬ (credentials.masterPassphrase = none ∧ credentials.smartcardPin = none))
    (hread : Settles S.Calm id (readFrame env S.src) (.ok (data, frame)))
    (hdecrypt : Settles S.Calm Plaintext.octets (decryptFrame env frame credentials S.src) (.ok octets))
    (hverify : skipChecksum = false → Settles S.Calm id (verifySidecar env S.src data) (.ok ()))
    (hpayload : payloadOf env S.src frame octets = .ok opened) :
    Settles S.Calm id (openVault env sourcePath credentials skipChecksum) (.ok opened) := by
  unfold openVault
  rw [if_neg hgiven, hsrc]
  refine hread.bind_of_ok fun found h => ?_
  obtain rfl : found = (data, frame) := h
  refine hdecrypt.bind_of_ok fun payload h => ?_
  have hskip : Settles S.Calm id (openPayload env S.src data frame true payload) (.ok opened) := by
    have hopen : Settles S.Calm id (openPayload env S.src data frame true payload)
        (payloadOf env S.src frame payload.octets) := settles_openPayload_skip S.src data frame payload
    rwa [h, hpayload] at hopen
  refine Settles.catching_ok ?_ _
  cases skipChecksum with
  | true => exact hskip
  | false =>
    rw [openPayload_eq]
    exact (hverify rfl).bind_of_ok fun _ _ => hskip

/-! ### The key of the vault, with a passphrase -/

theorem settles_deriveKey {passphrase salt key : Bytes} {params : KDFParams}
    (h : deriveKeyOf env passphrase salt params = .ok key) :
    Settles S.Calm id (deriveKey env passphrase salt params) (.ok key) := by
  unfold deriveKey
  rw [h]
  exact settles_recorded (.ofExcept _) _

theorem settles_validateImportKdf {params : KDFParams} (h : params.Importable) :
    Settles S.Calm id (Program.ofExcept (validateImportKdf params) : Program (World γ Time) Exc Unit) (.ok ()) := by
  rw [validateImportKdf_eq_ok.mpr h]
  exact .ofExcept _

/-- A slot that has the key under this passphrase. -/
theorem settles_unwrapSlot (hinverts : env.aead.Inverts) {fileKey passphrase : Bytes} {params : KDFParams}
    {cipher : CipherAlgorithm} {slot : VaultKeySlot} (hslot : WrapsFor env fileKey passphrase params cipher slot)
    (hlen : fileKey.length = fileKeyLen) (himportable : params.Importable) :
    Settles S.Calm id (unwrapSlot env passphrase cipher slot) (.ok fileKey) := by
  obtain ⟨kdf, nonce, slotKey, hkdf, hnonce, rfl, hderive, hencrypt⟩ := hslot.wrapped
  have hdecrypt := hinverts.decryptChecked hencrypt
  have hfileKey : fileKeyFromBytes fileKey = .ok fileKey := if_neg (not_not.mpr hlen)
  unfold unwrapSlot
  rw [hkdf]
  refine (settles_validateImportKdf himportable).bind_of_ok fun _ _ => ?_
  unfold unwrapWithPassphrase
  rw [hslot.type, hkdf]
  refine (settles_deriveKey hderive).bind_of_ok fun key h => ?_
  obtain rfl : key = slotKey := h
  rw [hnonce]
  dsimp only
  rw [hdecrypt]
  refine (Settles.ofExcept _).bind_of_ok fun raw h => ?_
  obtain rfl : raw = fileKey := h
  rw [hfileKey]
  exact .ofExcept _

/-- The passphrase has one slot at most, and it is in front. -/
theorem slotsOf_eq {header : VaultHeader} {passphraseSlots keySlots : List VaultKeySlot}
    (hslots : header.keySlots = some (passphraseSlots ++ keySlots))
    (hpassphrase : ∀ slot ∈ passphraseSlots, slot.type = .passphrase)
    (hkeys : ∀ slot ∈ keySlots, slot.type = .openpgp) :
    header.slotsOf .passphrase = passphraseSlots ∧ header.slotsOf .openpgp = keySlots := by
  have hkept (slots : List VaultKeySlot) (type : VaultSlotType) (h : ∀ slot ∈ slots, slot.type = type) :
      slots.filter (·.type = type) = slots := by
    rw [List.filter_eq_self]
    simpa using h
  have hgone (slots : List VaultKeySlot) (type type' : VaultSlotType) (hne : type' ≠ type)
      (h : ∀ slot ∈ slots, slot.type = type') : slots.filter (·.type = type) = [] := by
    rw [List.filter_eq_nil_iff]
    intro slot hslot
    simp [h slot hslot, hne]
  unfold VaultHeader.slotsOf
  rw [hslots, Option.getD_some, List.filter_append, List.filter_append, hkept _ _ hpassphrase, hkept _ _ hkeys,
    hgone keySlots .passphrase .openpgp (by decide) hkeys,
    hgone passphraseSlots .openpgp .passphrase (by decide) hpassphrase]
  exact ⟨List.append_nil _, rfl⟩

theorem usesKeySlots_of_append {header : VaultHeader} {passphraseSlots keySlots : List VaultKeySlot}
    (hslots : header.keySlots = some (passphraseSlots ++ keySlots)) (hne : keySlots ≠ []) :
    header.usesKeySlots = true := by
  simp [VaultHeader.usesKeySlots, hslots, hne]

/-! ### The key of the vault, with a card -/

theorem isA_caughtErrors_of_raiseForCardFailure {lower : Str → Str} {records : List Gpg.Record}
    {combinedText operation : Str} {e : Exc}
    (h : Gpg.raiseForCardFailure lower records combinedText operation = .error e) : e.isA caughtErrors = true := by
  unfold Gpg.raiseForCardFailure Gpg.cardDiagnosis at h
  split_ifs at h <;>
  · obtain rfl := Except.error.inj h
    simp only [Exc.isA]
    decide

/-- What GnuPG may raise for a message is caught in the search. -/
theorem isA_caughtErrors_of_decrypt {lower : Str → Str} {fromTimestamp : Str → Option Time} {proc : Gpg.GPGRun}
    {e : Exc} (h : Gpg.decrypt lower fromTimestamp proc = .error e) :
    proc.returncode ≠ 0 ∧ e.isA caughtErrors = true := by
  obtain h | ⟨u, -, h⟩ := bind_eq_error h
  · unfold Gpg.requireDecryptOk at h
    split_ifs at h with hcode
    refine ⟨hcode, ?_⟩
    obtain h | ⟨u, -, h⟩ := bind_eq_error h
    · exact isA_caughtErrors_of_raiseForCardFailure h
    · split_ifs at h <;>
      · obtain rfl := Except.error.inj h
        simp only [Exc.isA]
        decide
  · cases h

theorem plaintext_of_decrypt {lower : Str → Str} {fromTimestamp : Str → Option Time} {proc : Gpg.GPGRun}
    {decrypted : Gpg.Decrypted} (h : Gpg.decrypt lower fromTimestamp proc = .ok decrypted) :
    proc.returncode = 0 ∧ decrypted.plaintext = proc.stdout := by
  obtain ⟨u, hrequire, h⟩ := bind_eq_ok h
  obtain rfl := Except.ok.inj h
  exact ⟨by_contra fun hcode => Gpg.requireDecryptOk_ne_ok lower hcode hrequire, rfl⟩

/-- A card whose PIN this is has the key with this fingerprint: GnuPG takes the
PIN, and gives what is in a message for one of the unlock keys or fails, and
for this key it does not fail. Its messages are ASCII. -/
structure CardOpens (env : Platform γ Time) (ready : γ → Prop) (unlockFps : List Str) (fp : Str) (pin : Bytes) :
    Prop where
  framed : pin.any (· ∈ GPGService.framingBytes) = false
  hidden : ∀ g, ready g →
    GPGService.rejectPassphraseInArgv (GPGService.commandLine env g [lit "--decrypt"] true true) pin = .ok ()
  ascii : ∀ fp' ∈ unlockFps, ∀ plaintext message, Encrypted env.gpg fp' plaintext message →
    ∀ b ∈ message, b.toNat < 0x80
  runs : ∀ fp' ∈ unlockFps, ∀ plaintext message, Encrypted env.gpg fp' plaintext message → ∀ g, ready g →
    ∃ out g', env.gpg.popen [lit "--decrypt"] (some message) (some pin) g = (.ok out, g') ∧ ready g' ∧
      (out.returncode = 0 → out.stdout = plaintext) ∧ (fp' = fp → out.returncode = 0)

theorem meets_onGnupg {α : Type} {f : γ → Except Exc α × γ} {w : World γ Time} {a : α} {g : γ}
    (h : f w.gnupg = (.ok a, g)) {Q : α → World γ Time → Prop} {E : Exc → World γ Time → Prop}
    (hQ : Q a { w with gnupg := g }) : (GPGService.onGnupg f).Meets w Q E := by
  unfold Meets
  simp only [EStateM.run, GPGService.onGnupg, h]
  exact hQ

/-- The turn of a slot for one of the unlock keys. -/
theorem meets_decryptSlot {unlockFps : List Str} {fp : Str} {pin : Bytes}
    (hopens : CardOpens env S.answers unlockFps fp pin) {fp' : Str} (hfp' : fp' ∈ unlockFps) {fileKey : Bytes}
    {slot : VaultKeySlot} (hslot : SealsFor env fileKey fp' slot) (hlen : fileKey.length = fileKeyLen)
    {w : World γ Time} (hw : S.Calm w) :
    (decryptSlot env pin slot).Meets w (fun key w' => key = fileKey ∧ S.Calm w')
      fun e w' => fp' ≠ fp ∧ e.isA caughtErrors = true ∧ S.Calm w' := by
  obtain ⟨message, hmessage, hwrapped⟩ := hslot.encrypted
  have hascii := Utf8.encode_decodeReplace_ascii (hopens.ascii fp' hfp' fileKey message hmessage)
  have heq : slot.wrappedKey = message := Option.some.inj (hwrapped.symm.trans hascii)
  have hbytes : GPGService.validatedPassphraseBytes (some pin) = .ok pin := by
    rw [GPGService.validatedPassphraseBytes, Option.getD_some, hopens.framed]
    rfl
  have hfileKey : fileKeyFromBytes fileKey = .ok fileKey := if_neg (not_not.mpr hlen)
  unfold decryptSlot GPGService.decrypt GPGService.runGpg
  rw [heq, meets_bind, meets_recorded, meets_bind, meets_bind]
  refine (settles_syscall w hw).mono ?_ fun _ _ h => by cases h.1
  rintro _ w1 ⟨-, hw1⟩
  rw [hbytes, meets_bind, meets_ofExcept_ok, meets_bind]
  refine (settles_syscall w1 hw1).mono ?_ fun _ _ h => by cases h.1
  rintro _ w2 ⟨-, hw2⟩
  obtain ⟨out, g', hpopen, hready, hplain, hzero⟩ :=
    hopens.runs fp' hfp' fileKey message hmessage w2.gnupg hw2.answers
  rw [meets_bind, meets_get, Option.isSome_some, hopens.hidden w2.gnupg hw2.answers, meets_bind, meets_ofExcept_ok,
    meets_bind]
  refine meets_onGnupg hpopen ?_
  rw [meets_pure, if_pos rfl]
  have hw3 : S.Calm ({ w2 with gnupg := g' } : World γ Time) :=
    ⟨hw2.vault, hw2.sidecar, hw2.faults, hready, hw2.takes⟩
  cases hd : Gpg.decrypt env.lower env.fromTimestamp
      (Gpg.statusRun out.returncode out.stdout out.stderr out.reads) with
  | error e =>
    obtain ⟨hcode, hcaught⟩ := isA_caughtErrors_of_decrypt hd
    refine ⟨fun h => hcode (hzero h), hcaught, ?_⟩
    exact ⟨hw3.vault, hw3.sidecar, hw3.faults, hw3.answers, hw3.takes⟩
  | ok decrypted =>
    obtain ⟨hcode, hplaintext⟩ := plaintext_of_decrypt hd
    obtain rfl : decrypted.plaintext = fileKey := hplaintext.trans (hplain hcode)
    have hw4 : S.Calm (({ w2 with gnupg := g' } : World γ Time).note (.decrypt none)) :=
      ⟨hw3.vault, hw3.sidecar, hw3.faults, hw3.answers, hw3.takes⟩
    rw [meets_ofExcept_ok, hfileKey]
    exact ⟨rfl, hw4⟩

/-- The slots of the other keys are passed over, or have the same file key. -/
theorem settles_unwrapOpenpgpSlot {unlockFps : List Str} {fp : Str} {pin : Bytes} (hmem : fp ∈ unlockFps)
    (hopens : CardOpens env S.answers unlockFps fp pin) {header : VaultHeader} {keySlots : List VaultKeySlot}
    (hslots : header.slotsOf .openpgp = keySlots) {fileKey : Bytes}
    (hkeys : List.Forall₂ (SealsFor env fileKey) unlockFps keySlots) (hlen : fileKey.length = fileKeyLen) :
    Settles S.Calm id (unwrapOpenpgpSlot env header pin S.src) (.ok fileKey) := by
  obtain ⟨slot, hzip, hslot⟩ := exists_of_forall₂ hkeys hmem
  have hmem' : slot ∈ keySlots := (List.of_mem_zip hzip).2
  have hne : keySlots ≠ [] := List.ne_nil_of_mem hmem'
  unfold unwrapOpenpgpSlot
  rw [hslots, if_neg hne, tryOpenpgpSlots_eq_firstOf]
  refine Settles.of_meets fun w hw => Meets.firstOf_of_mem (I := S.Calm) ?_ ?_ hmem' none w hw
  · intro w hw
    exact (meets_decryptSlot hopens hmem hslot hlen hw).mono (fun _ _ h => h) fun _ _ h => h.1 rfl
  · intro slot' hslot' w hw
    obtain ⟨fp', hzip', hseals⟩ := exists_of_forall₂ hkeys.flip hslot'
    exact (meets_decryptSlot hopens (List.of_mem_zip hzip').2 hseals hlen hw).mono (fun _ _ h => h) fun _ _ h => h.2

/-! ### Either way -/

/-- What opens a vault that was created with these arguments: its master
passphrase, or the PIN of a card with one of its unlock keys. -/
inductive Opener (env : Platform γ Time) (ready : γ → Prop) (args : CreateArgs) (unlockFps : List Str) :
    Credentials → Prop
  | passphrase (passphrase : Bytes) (given : args.masterPassphrase = some passphrase) :
    Opener env ready args unlockFps { masterPassphrase := some passphrase }
  | card (fp : Str) (pin : Bytes) (credentials : Credentials) (mem : fp ∈ unlockFps)
    (given : credentials.smartcardPin = some pin) (opens : CardOpens env ready unlockFps fp pin) :
    Opener env ready args unlockFps credentials

theorem Opener.given {ready : γ → Prop} {args : CreateArgs} {unlockFps : List Str} {credentials : Credentials}
    (h : Opener env ready args unlockFps credentials) :
    ¬ (credentials.masterPassphrase = none ∧ credentials.smartcardPin = none) := by
  cases h with
  | passphrase passphrase given => exact fun h => Option.some_ne_none _ h.1
  | card fp pin credentials mem given opens => exact fun h => Option.some_ne_none pin (given.symm.trans h.2)

/-- The slots of a created vault, by their kind. -/
theorem slotsOf_of_kept {args : CreateArgs} {unlockFps : List Str} {header : VaultHeader} {key : Bytes}
    {passphraseSlots keySlots : List VaultKeySlot} (hslots : header.keySlots = some (passphraseSlots ++ keySlots))
    (hpassphrase : List.Forall₂ (fun passphrase slot => WrapsFor env key passphrase args.params args.cipher slot)
      args.masterPassphrase.toList passphraseSlots)
    (hkeys : List.Forall₂ (SealsFor env key) unlockFps keySlots) :
    header.slotsOf .passphrase = passphraseSlots ∧ header.slotsOf .openpgp = keySlots := by
  refine slotsOf_eq hslots (fun slot hslot => ?_) fun slot hslot => ?_
  · obtain ⟨passphrase, -, h⟩ := exists_of_forall₂ hpassphrase.flip hslot
    exact h.type
  · obtain ⟨fp, -, h⟩ := exists_of_forall₂ hkeys.flip hslot
    exact h.type

/-- The key that the vault was sealed with is found. -/
theorem settles_vaultKey (hinverts : env.aead.Inverts) {args : CreateArgs} {unlockFps : List Str} {key : Bytes}
    {frame : UnpackedFrame} (hkept : KeyKept env args unlockFps key frame.header) {credentials : Credentials}
    (hopener : Opener env S.answers args unlockFps credentials)
    (himportable : credentials.smartcardPin = none → args.params.Importable) :
    Settles S.Calm id (vaultKey env frame credentials S.src) (.ok key) := by
  unfold vaultKey
  dsimp only
  cases hkept with
  | derived passphrase kdf noKeys given noSlots fields params derives =>
    have huses : frame.header.usesKeySlots = false := by rw [VaultHeader.usesKeySlots, noSlots]; rfl
    cases hopener with
    | card fp pin _ mem => simp [noKeys] at mem
    | passphrase passphrase' given' =>
      obtain rfl : passphrase = passphrase' := Option.some.inj (given.symm.trans given')
      rw [huses, if_neg (by decide), fields]
      dsimp only
      rw [params]
      exact (settles_validateImportKdf (himportable rfl)).bind_of_ok fun _ _ => settles_deriveKey derives
  | wrapped passphraseSlots keySlots length algorithm slots nonempty forPassphrase forKeys =>
    have hne : keySlots ≠ [] := by
      rintro rfl
      exact nonempty (List.forall₂_nil_right_iff.mp forKeys)
    obtain ⟨hpassphrase, hopenpgp⟩ := slotsOf_of_kept slots forPassphrase forKeys
    rw [if_pos (usesKeySlots_of_append slots hne)]
    cases hopener with
    | card fp pin _ mem given opens =>
      rw [given]
      exact settles_unwrapOpenpgpSlot mem opens hopenpgp forKeys length
    | passphrase passphrase given =>
      rw [given, Option.toList_some] at forPassphrase
      obtain ⟨slot, rest, hslot, hrest, rfl⟩ := List.forall₂_cons_left_iff.mp forPassphrase
      obtain rfl := List.forall₂_nil_left_iff.mp hrest
      obtain ⟨kdf, nonce, hkdf, -⟩ := passphrase_shape hslot.type
      dsimp only
      refine Settles.catching_ok ?_ _
      unfold unwrapPassphraseSlot
      rw [hpassphrase, if_neg (List.cons_ne_nil _ _), algorithm,
        tryPassphraseSlots_eq_firstOf env _ _ _ _ (by simp [hkdf]), Program.firstOf]
      exact Settles.catching_ok (settles_unwrapSlot hinverts hslot length (himportable rfl)) _

/-- With the master passphrase the key is found within the limits only. -/
theorem importable_of_vaultKey {args : CreateArgs} {unlockFps : List Str} {key : Bytes} {frame : UnpackedFrame}
    (hkept : KeyKept env args unlockFps key frame.header) {passphrase : Bytes}
    (hgiven : args.masterPassphrase = some passphrase) {src : Path} {key' : Bytes} {w w' : World γ Time}
    (h : (vaultKey env frame { masterPassphrase := some passphrase } src).run w = .ok key' w') :
    args.params.Importable := by
  unfold vaultKey at h
  dsimp only at h
  cases hkept with
  | derived passphrase' kdf noKeys given noSlots fields params derives =>
    have huses : frame.header.usesKeySlots = false := by rw [VaultHeader.usesKeySlots, noSlots]; rfl
    rw [huses, if_neg (by decide), fields] at h
    dsimp only at h
    rw [params] at h
    obtain ⟨u, w1, h, -⟩ := run_bind_eq_ok.mp h
    exact validateImportKdf_eq_ok.mp (run_ofExcept_eq_ok.mp h).1
  | wrapped passphraseSlots keySlots length algorithm slots nonempty forPassphrase forKeys =>
    have hne : keySlots ≠ [] := by
      rintro rfl
      exact nonempty (List.forall₂_nil_right_iff.mp forKeys)
    obtain ⟨hpassphrase, -⟩ := slotsOf_of_kept slots forPassphrase forKeys
    rw [if_pos (usesKeySlots_of_append slots hne)] at h
    rw [hgiven, Option.toList_some] at forPassphrase
    obtain ⟨slot, rest, hslot, hrest, rfl⟩ := List.forall₂_cons_left_iff.mp forPassphrase
    obtain rfl := List.forall₂_nil_left_iff.mp hrest
    obtain ⟨kdf, nonce, slotKey, hkdf, -, hparams, -⟩ := hslot.wrapped
    have h := (run_catching_eq_ok fun e => run_emitRaise_ne_ok env src _ e _).mp h
    unfold unwrapPassphraseSlot at h
    rw [hpassphrase, if_neg (List.cons_ne_nil _ _),
      tryPassphraseSlots_eq_firstOf env _ _ _ _ (by simp [hkdf]), Program.firstOf] at h
    have hraises (e : Exc) (s : World γ Time) (a : Bytes) (s' : World γ Time) :
        (if e.isA [.decryptionError, .vaultFormatError] = true then
          Program.firstOf (unwrapSlot env passphrase args.cipher) (·.isA [.decryptionError, .vaultFormatError])
            (fun lastError => raise
              (lastError.getD { cls := .decryptionError, message := lit "no key slot accepted this passphrase" }))
            [] (some e)
        else raise e : Program (World γ Time) Exc Bytes).run s ≠ .ok a s' := by
      intro hok
      split_ifs at hok
      · cases hok
      · cases hok
    rw [algorithm] at h
    have h := (run_catching_eq_ok hraises).mp h
    unfold unwrapSlot at h
    rw [hkdf] at h
    obtain ⟨u, w1, h, -⟩ := run_bind_eq_ok.mp h
    rw [← hparams]
    exact validateImportKdf_eq_ok.mp (run_ofExcept_eq_ok.mp h).1

/-! ### The sidecar -/

/-- `str.lower` of a digest is the digest. -/
def LowersDigests (env : Platform γ Time) : Prop := ∀ data, env.lower (env.sha256 data) = env.sha256 data

/-- What is read of the sidecar is ASCII. -/
def AsciiName (target : Path) : Prop :=
  ∀ name, Utf8.encode target.name = some name → ∀ b ∈ name.take 190, b.toNat < 0x80

theorem decodeAscii_eq_ok {raw : Bytes} {text : Str} :
    decodeAscii raw = .ok text ↔ (∀ b ∈ raw, b.toNat < 0x80) ∧ raw.map (fun b => Fin.ofNat _ b.toNat) = text := by
  have hall : raw.all (· < 0x80) = true ↔ ∀ b ∈ raw, b.toNat < 0x80 := by
    simp [List.all_eq_true, UInt8.lt_iff_toNat_lt]
  unfold decodeAscii
  by_cases h : ∀ b ∈ raw, b.toNat < 0x80
  · rw [if_pos (hall.mpr h), Except.ok.injEq, and_iff_right h]
  · rw [if_neg (mt hall.mp h)]
    simp only [reduceCtorEq, false_iff, not_and]
    exact fun h' => absurd h' h

/-- The octets of a digest. -/
theorem encode_digest (env : Platform γ Time) (data : Bytes) :
    ∃ octets : Bytes, Utf8.encode (env.sha256 data) = some octets ∧ octets.length = 64 ∧
      (∀ b ∈ octets, b.toNat < 0x80) ∧ octets.map (fun b => Fin.ofNat _ b.toNat) = env.sha256 data := by
  have hascii : ∀ c ∈ env.sha256 data, c.val < 0x80 := fun c hc =>
    (Json.hexDigit_spec (env.sha256_hex data c hc)).2
  have hmap : ((env.sha256 data).map fun c => UInt8.ofNat c.val).map (fun b => (Fin.ofNat _ b.toNat : CodePoint)) =
      env.sha256 data := by
    rw [List.map_map]
    refine (List.map_congr_left fun c hc => ?_).trans (List.map_id _)
    have := hascii c hc
    refine Fin.ext ?_
    simp only [Function.comp, UInt8.toNat_ofNat', Fin.ofNat, id_eq]
    omega
  have hbytes : ∀ b ∈ (env.sha256 data).map fun c => UInt8.ofNat c.val, b.toNat < 0x80 := by
    intro b hb
    obtain ⟨c, hc, rfl⟩ := List.mem_map.mp hb
    have := hascii c hc
    simp only [UInt8.toNat_ofNat']
    omega
  have hencode := Utf8.encode_ascii hbytes
  rw [hmap] at hencode
  exact ⟨_, hencode, by rw [List.length_map, env.sha256_length], hbytes, hmap⟩

/-- The parts of the line in a sidecar. -/
theorem encode_sidecarLine {env : Platform γ Time} {frame line : Bytes} {target : Path}
    (hline : Utf8.encode (sidecarLine (env.sha256 frame) target) = some line) :
    ∃ octets name, octets.length = 64 ∧ (∀ b ∈ octets, b.toNat < 0x80) ∧
      octets.map (fun b => Fin.ofNat _ b.toNat) = env.sha256 frame ∧ Utf8.encode target.name = some name ∧
      line = octets ++ [0x20, 0x20] ++ name ++ [0x0A] := by
  obtain ⟨octets, hoctets, hlen, hascii, hmap⟩ := encode_digest env frame
  obtain ⟨front, newline, hfront, hnewline, rfl⟩ := Utf8.encode_append hline
  obtain ⟨digest, name, hdigest, hname, rfl⟩ := Utf8.encode_append hfront
  obtain ⟨octets', spaces, hoctets', hspaces, rfl⟩ := Utf8.encode_append hdigest
  obtain rfl : octets = octets' := Option.some.inj (hoctets.symm.trans hoctets')
  obtain rfl : [0x20, 0x20] = spaces := Option.some.inj hspaces
  obtain rfl : [0x0A] = newline := Option.some.inj hnewline
  exact ⟨octets, name, hlen, hascii, hmap, hname, rfl⟩

/-- The digest in a text that begins with one. -/
theorem sidecarDigest_append (hlower : LowersDigests env) (data : Bytes) (rest : Str) :
    sidecarDigest env (env.sha256 data ++ 0x20 :: rest) = .ok (env.sha256 data) := by
  have hspace : ∀ c ∈ env.sha256 data, isSpace c = false := fun c hc =>
    (Json.hexDigit_spec (env.sha256_hex data c hc)).1
  have hne : env.sha256 data ≠ [] := by
    intro h
    have hlen := env.sha256_length data
    rw [h] at hlen
    cases hlen
  have hfields : fields (env.sha256 data ++ 0x20 :: rest) = env.sha256 data :: fields rest := by
    have hsp : isSpace 0x20 = true := by decide
    rw [fields_append_space hsp, fields_of_noSpace hne hspace]
    rfl
  have hdigits : (List.range 16).map Json.hexDigit = lit "0123456789abcdef" := by decide
  have hhex : ¬ (env.sha256 data).any (fun c => decide (c ∉ lit "0123456789abcdef")) = true := by
    rw [List.any_eq_true]
    rintro ⟨c, hc, hnot⟩
    have hmem := env.sha256_hex data c hc
    rw [hdigits] at hmem
    exact of_decide_eq_true hnot hmem
  unfold sidecarDigest
  rw [hfields]
  dsimp only
  rw [hlower data, if_neg]
  rintro (h | h)
  · exact h (env.sha256_length data)
  · exact hhex h

/-- The sidecar that `create` writes is read as one that matches, if it can be
read. -/
theorem sidecarMatches_iff_asciiName {frame line : Bytes} {target : Path} (hlower : LowersDigests env)
    (hvault : S.vault = some frame) (hsidecar : S.sidecar = some line)
    (hline : Utf8.encode (sidecarLine (env.sha256 frame) target) = some line) :
    S.SidecarMatches env ↔ AsciiName target := by
  obtain ⟨octets, name, hlen, hascii, hmap, hname, rfl⟩ := encode_sidecarLine hline
  have htake : (octets ++ [0x20, 0x20] ++ name ++ [0x0A]).take 256 =
      octets ++ [0x20, 0x20] ++ (name ++ [0x0A]).take 190 := by
    have hl : (octets ++ [0x20, 0x20]).length = 66 := by rw [List.length_append, hlen]; rfl
    rw [List.append_assoc, List.take_append, hl, List.take_of_length_le (by omega)]
  have hread : (∀ b ∈ (octets ++ [0x20, 0x20] ++ name ++ [0x0A]).take 256, b.toNat < 0x80) ↔ AsciiName target := by
    have hlast : ∀ b ∈ ([0x0A] : Bytes).take (190 - name.length), b.toNat < 0x80 := by
      intro b hb
      obtain rfl := List.mem_singleton.mp (List.mem_of_mem_take hb)
      decide
    have hspaces : ∀ b ∈ ([0x20, 0x20] : Bytes), b.toNat < 0x80 := by
      intro b hb
      have hspace : b = 0x20 := by simpa using hb
      rw [hspace]
      exact (by decide : (0x20 : UInt8).toNat < 0x80)
    rw [htake, List.take_append, List.forall_mem_append, List.forall_mem_append, List.forall_mem_append]
    constructor
    · rintro ⟨-, h, -⟩ name' hname'
      obtain rfl : name = name' := Option.some.inj (hname.symm.trans hname')
      exact h
    · intro h
      exact ⟨⟨hascii, hspaces⟩, h name hname, hlast⟩
  rw [← hread]
  unfold Setting.SidecarMatches
  rw [hvault, hsidecar]
  constructor
  · intro h
    have hok := h _ _ rfl rfl
    cases hd : decodeAscii ((octets ++ [0x20, 0x20] ++ name ++ [0x0A]).take 256) with
    | error e =>
      rw [hd] at hok
      cases hok
    | ok text => exact (decodeAscii_eq_ok.mp hd).1
  · intro h raw data hraw hdata
    obtain rfl := Option.some.inj hraw
    obtain rfl := Option.some.inj hdata
    rw [decodeAscii_eq_ok.mpr ⟨h, rfl⟩, hlower frame, htake, List.map_append, List.map_append, hmap,
      List.append_assoc]
    exact sidecarDigest_append hlower frame _

theorem sidecarMatches_of_verifySidecar {data : Bytes} (hvault : S.vault = some data) {w w' : World γ Time}
    (hw : S.Calm w) (h : (verifySidecar env S.src data).run w = .ok () w') : S.SidecarMatches env := by
  have hthere : Settles S.Calm id (fileExists (sidecarOf S.src) : Program (World γ Time) Exc Bool)
      (.ok S.sidecar.isSome) := settles_fileExists fun _ hw => hw.sidecar
  obtain ⟨there, w1, hrun, h⟩ := run_bind_eq_ok.mp h
  obtain ⟨hsome, hw1⟩ := hthere.ok hw hrun
  intro raw data' hraw hdata
  obtain rfl : data = data' := Option.some.inj (hvault.symm.trans hdata)
  obtain rfl : true = there := by rw [hraw] at hsome; exact Except.ok.inj hsome
  obtain ⟨expected, w2, hrun, h⟩ := run_bind_eq_ok.mp h
  obtain ⟨hdigest, hw2⟩ := settles_readSidecarDigest.ok hw1 hrun
  split_ifs at h with hne
  · obtain ⟨_, w3, -, h⟩ := run_bind_eq_ok.mp h
    cases h
  · unfold digestOf at hdigest
    rw [hraw] at hdigest
    rw [← not_not.mp hne]
    exact hdigest

/-! ### What was put in comes out -/

/-- The files that `create` has left, with GnuPG ready. -/
def leftBy (env : Platform γ Time) (args : CreateArgs) (ready : γ → Prop) (w' : World γ Time) : Setting γ where
  src := env.resolve args.targetPath
  vault := w'.files (env.resolve args.targetPath)
  sidecar := w'.files (sidecarOf (env.resolve args.targetPath))
  answers := ready
  takes _ := True

/-- The call returns the manifest that was put in, and the armor of every key. -/
def Restores (created : Created Time) (x : Program (World γ Time) Exc (OpenedVault Time)) (u : World γ Time) : Prop :=
  ∃ opened u', x.run u = .ok opened u' ∧ opened.manifest = created.manifest ∧
    ∀ item ∈ created.collected, ∃ s, opened.keySlices.lookup item.entry.fingerprint = some s ∧
      Selects opened.plaintext item s

theorem length_frame {header : VaultHeader} {ciphertext frame headerBytes : Bytes}
    (h : pack env header ciphertext = .ok (frame, headerBytes)) : frame.length ≤ maxVaultFrameSize := by
  obtain ⟨-, hheader, hciphertext, rfl⟩ := pack_eq_ok.mp h
  have hmax : maxVaultFrameSize = 13 + maxHeaderSize + maxCiphertextSize := rfl
  rw [length_frameOf]
  omega

theorem length_le_of_appendAll {payload payload' : Bytes} {material : List (Str × Bytes × Option Bytes)}
    (h : appendAll payload material = .ok payload') : payload.length ≤ payload'.length := by
  obtain ⟨rest, rfl⟩ := exists_of_appendAll h
  simp

theorem fingerprints_of_collects {gpgPassphrases : Str → Option Bytes} {fps : List Str}
    {collected : List (CollectedEntry Time)} (h : List.Forall₂ (Collects env gpgPassphrases) fps collected) :
    collected.map (·.entry.fingerprint) = fps := by
  induction h with
  | nil => rfl
  | cons hitem _ ih => rw [List.map_cons, hitem.fingerprint, ih]

/-- The plaintext of a vault is read back. -/
theorem deserialise_of_prepares (hmsgpack : env.msgpack.RoundTrips) {args : CreateArgs} {fps unlockFps : List Str}
    {p : Prepared Time} (hp : Prepares env args fps unlockFps p) (hdistinct : fps.Nodup) {plaintext : Bytes}
    (hserialise : serialiseSegmentedPayload env p.collected p.manifest = .ok plaintext)
    (hlen : plaintext.length < 2 ^ 31) :
    ∃ slices, deserialiseSegmentedPayload env plaintext = .ok (p.manifest, slices, plaintext) ∧
      ∀ item ∈ p.collected, ∃ s, slices.lookup item.entry.fingerprint = some s ∧ Selects plaintext item s := by
  obtain ⟨data, hdata, h⟩ := bind_eq_ok hserialise
  obtain ⟨length, hlength, h⟩ := bind_eq_ok h
  obtain rfl : u32 data.length = length := by
    unfold packU32 at hlength
    split_ifs at hlength
    exact Except.ok.inj hlength
  have hle := length_le_of_appendAll h
  rw [List.length_append, length_u32] at hle
  have hfingerprints := fingerprints_of_collects hp.collected
  refine deserialise_serialise hmsgpack ?_ hp.keys ?_ (hfingerprints ▸ hdistinct) hdata (by omega) h
  · rw [hp.version]
    decide
  · intro item hitem
    obtain ⟨fp, -, hcollects⟩ := exists_of_forall₂ hp.collected.flip hitem
    exact hcollects.fits

/-- What was sealed into a created vault, and the frame that its file is read as. -/
theorem frame_of_leaves (htagged : env.aead.Tagged) {args : CreateArgs} {fps unlockFps : List Str}
    {created : Created Time} {w' : World γ Time} {p : Prepared Time}
    (h : Leaves env args fps unlockFps created w' p) : ∃ frame key plaintext,
      unpack env p.frame = .ok frame ∧ p.frame.length ≤ maxVaultFrameSize ∧
      KeyKept env args unlockFps key frame.header ∧
      env.aead.encryptChecked plaintext key frame.header.cipher.nonce frame.headerBytes frame.header.cipher.algorithm =
        .ok frame.ciphertext ∧
      serialiseSegmentedPayload env p.collected p.manifest = .ok plaintext ∧ plaintext.length < 2 ^ 31 := by
  obtain ⟨plaintext, header, key, hserialise, hkept, headerBytes, ciphertext, hpack, hencrypt⟩ := h.frame
  have htag := htagged _ _ _ _ _ _ (Aead.encryptChecked_eq_ok.mp hencrypt).2
  have hciphertext := (pack_eq_ok.mp hpack).2.2.1
  have hmax : maxCiphertextSize = 2 ^ 28 := rfl
  have hne : ciphertext ≠ [] := by
    rintro rfl
    rw [List.length_nil] at htag
    omega
  exact ⟨_, key, plaintext, unpack_pack hpack hne, length_frame hpack, hkept, hencrypt, hserialise, by omega⟩

section Created

variable {args : CreateArgs} {created : Created Time} {fps unlockFps : List Str} {p : Prepared Time}
  {w' : World γ Time} (hleaves : Leaves env args fps unlockFps created w' p) {ready : γ → Prop}
  {credentials : Credentials} (hopener : Opener env ready args unlockFps credentials) {sourcePath : Path}
  (hsrc : env.resolve sourcePath = env.resolve args.targetPath) {skipChecksum : Bool} (hinverts : env.aead.Inverts)
  (htagged : env.aead.Tagged) (hlower : LowersDigests env)

include hleaves hopener hsrc hinverts htagged hlower

/-- Within the limits, the vault opens to what was put in. -/
theorem settles_created (hmsgpack : env.msgpack.RoundTrips) (hdistinct : fps.Nodup)
    (himportable : credentials.smartcardPin = none → args.params.Importable)
    (hascii : skipChecksum = false → AsciiName (env.resolve args.targetPath)) :
    ∃ opened, Settles (leftBy env args ready w').Calm id (openVault env sourcePath credentials skipChecksum)
        (.ok opened) ∧ opened.manifest = p.manifest ∧
      (∃ payload, deserialiseSegmentedPayload env payload = .ok (opened.manifest, opened.keySlices, opened.plaintext)) ∧
      ∀ item ∈ p.collected, ∃ s, opened.keySlices.lookup item.entry.fingerprint = some s ∧
        Selects opened.plaintext item s := by
  obtain ⟨frame, key, plaintext, hunpack, hlen, hkept, hencrypt, hserialise, hshort⟩ := frame_of_leaves htagged hleaves
  obtain ⟨line, hline, hsidecar⟩ := hleaves.sidecar
  obtain ⟨slices, hdeserialise, hselects⟩ :=
    deserialise_of_prepares hmsgpack hleaves.toPrepares hdistinct hserialise hshort
  have hvault : (leftBy env args ready w').vault = some p.frame := hleaves.vault
  have hread : Settles (leftBy env args ready w').Calm id (readFrame env (leftBy env args ready w').src)
      (.ok (p.frame, frame)) := settles_readFrame hvault hlen hunpack
  have hdecrypt : Settles (leftBy env args ready w').Calm Plaintext.octets
      (decryptFrame env frame credentials (leftBy env args ready w').src) (.ok plaintext) :=
    settles_decryptFrame (settles_vaultKey hinverts hkept hopener himportable) (hinverts.decryptChecked hencrypt)
  have hpayload : payloadOf env (leftBy env args ready w').src frame plaintext =
      .ok { manifest := p.manifest, srcPath := env.resolve args.targetPath, plaintext, keySlices := slices } := by
    unfold payloadOf
    rw [hdeserialise]
    exact if_neg (not_not.mpr (Aead.encryptChecked_eq_ok.mp hencrypt).1.2)
  have hverify (hskip : skipChecksum = false) :
      Settles (leftBy env args ready w').Calm id (verifySidecar env (leftBy env args ready w').src p.frame) (.ok ()) :=
    settles_verifySidecar_of_matches hvault
      ((sidecarMatches_iff_asciiName hlower hvault hsidecar hline).mpr (hascii hskip))
  exact ⟨_, settles_openVault hsrc hopener.given hread hdecrypt hverify hpayload, rfl, ⟨_, hdeserialise⟩, hselects⟩

/-- A vault that opens is within the limits. -/
theorem within_of_openVault {u u' : World γ Time} (hu : (leftBy env args ready w').Calm u) {opened : OpenedVault Time}
    (hrun : (openVault env sourcePath credentials skipChecksum).run u = .ok opened u') :
    (credentials.smartcardPin = none → args.params.Importable) ∧
      (skipChecksum = false → AsciiName (env.resolve args.targetPath)) := by
  obtain ⟨frame, key, plaintext, hunpack, hlen, hkept, hencrypt, -⟩ := frame_of_leaves htagged hleaves
  obtain ⟨line, hline, hsidecar⟩ := hleaves.sidecar
  have hvault : (leftBy env args ready w').vault = some p.frame := hleaves.vault
  have hread : Settles (leftBy env args ready w').Calm id (readFrame env (leftBy env args ready w').src)
      (.ok (p.frame, frame)) := settles_readFrame hvault hlen hunpack
  unfold openVault at hrun
  rw [if_neg hopener.given, hsrc] at hrun
  obtain ⟨⟨data, frame'⟩, u1, hreadRun, hrun⟩ := run_bind_eq_ok.mp hrun
  obtain ⟨hframe, hu1⟩ := hread.ok hu hreadRun
  obtain ⟨rfl, rfl⟩ : p.frame = data ∧ frame = frame' := Prod.mk.inj (Except.ok.inj hframe)
  obtain ⟨payload, u2, hdecryptRun, hrun⟩ := run_bind_eq_ok.mp hrun
  have himportable : credentials.smartcardPin = none → args.params.Importable := by
    intro hpin
    cases hopener with
    | card fp pin _ mem given => cases hpin.symm.trans given
    | passphrase passphrase given =>
      obtain ⟨key', u3, hkeyRun, -⟩ := run_bind_eq_ok.mp hdecryptRun
      exact importable_of_vaultKey hkept given hkeyRun
  refine ⟨himportable, ?_⟩
  rintro rfl
  have hdecrypt : Settles (leftBy env args ready w').Calm Plaintext.octets
      (decryptFrame env frame credentials (leftBy env args ready w').src) (.ok plaintext) :=
    settles_decryptFrame (settles_vaultKey hinverts hkept hopener himportable) (hinverts.decryptChecked hencrypt)
  obtain ⟨-, hu2⟩ := hdecrypt.ok hu1 hdecryptRun
  have hpayload := (run_catching_eq_ok (failPayload_ne_ok (S := leftBy env args ready w') payload)).mp hrun
  rw [openPayload_eq] at hpayload
  obtain ⟨_, u3, hverify, -⟩ := run_bind_eq_ok.mp hpayload
  exact (sidecarMatches_iff_asciiName hlower hvault hsidecar hline).mp
    (sidecarMatches_of_verifySidecar hvault hu2 hverify)

end Created

/-- **A created vault opens again**, to what GnuPG exported into it, exactly if
the parameters of the key derivation are within the limits of an import, for a
passphrase, and the name of the file can be read in the sidecar, if that is
looked at. -/
theorem opens_created_iff {hasMetadata : Bool} {args : CreateArgs} {created : Created Time} {w w' : World γ Time}
    (hinverts : env.aead.Inverts) (htagged : env.aead.Tagged) (hmsgpack : env.msgpack.RoundTrips)
    (hlower : LowersDigests env) (hcreate : (create env hasMetadata args).run w = .ok created w')
    {fps unlockFps : List Str} (hfps : args.fingerprints.mapM GPGService.validateFingerprint = .ok fps)
    (hunlock : args.unlockKeyFingerprints.mapM GPGService.validateFingerprint = .ok unlockFps) (hdistinct : fps.Nodup)
    {ready : γ → Prop} {credentials : Credentials} (hopener : Opener env ready args unlockFps credentials)
    {sourcePath : Path} (hsrc : env.resolve sourcePath = env.resolve args.targetPath) (skipChecksum : Bool)
    {u : World γ Time} (hu : (leftBy env args ready w').Calm u) :
    List.Forall₂ (Collects env args.gpgPassphrases) fps created.collected ∧
      (Restores created (openVault env sourcePath credentials skipChecksum) u ↔
        (credentials.smartcardPin = none → args.params.Importable) ∧
          (skipChecksum = false → AsciiName (env.resolve args.targetPath))) := by
  obtain ⟨fps', unlockFps', p, hfps', hunlock', hleaves⟩ := create_eq_ok hcreate
  obtain rfl : fps = fps' := Except.ok.inj (hfps.symm.trans hfps')
  obtain rfl : unlockFps = unlockFps' := Except.ok.inj (hunlock.symm.trans hunlock')
  have hcreated := hleaves.created_eq
  constructor
  · rw [hcreated]
    exact hleaves.collected
  constructor
  · rintro ⟨opened, u', hrun, -⟩
    exact within_of_openVault hleaves hopener hsrc hinverts htagged hlower hu hrun
  · rintro ⟨himportable, hascii⟩
    obtain ⟨opened, hopen, hmanifest, -, hselects⟩ :=
      settles_created hleaves hopener hsrc hinverts htagged hlower hmsgpack hdistinct himportable hascii
    obtain ⟨opened', u', hrun, hopened, -⟩ := hopen.run_of_ok hu
    obtain rfl : opened' = opened := hopened
    rw [hcreated]
    exact ⟨opened', u', hrun, hmanifest, hselects⟩

/-! ### Whether a created vault opens again -/

/-- Something opens a vault that was created with these arguments. -/
def Openable (env : Platform γ Time) (args : CreateArgs) (unlockFps : List Str) : Prop :=
  ∃ ready credentials, (∃ g, ready g) ∧ Opener env ready args unlockFps credentials

/-- The vault that was created holds what GnuPG exported, and opens to it with
everything that should open it, with and without its checksum. -/
structure OpensAgain (env : Platform γ Time) (args : CreateArgs) (fps unlockFps : List Str) (created : Created Time)
    (w' : World γ Time) : Prop where
  exported : List.Forall₂ (Collects env args.gpgPassphrases) fps created.collected
  restores : ∀ ready credentials, Opener env ready args unlockFps credentials → ∀ sourcePath,
    env.resolve sourcePath = env.resolve args.targetPath → ∀ skipChecksum (u : World γ Time),
      (leftBy env args ready w').Calm u → Restores created (openVault env sourcePath credentials skipChecksum) u

/-- A calm world with the files that `create` has left. -/
theorem calm_leftBy (args : CreateArgs) {ready : γ → Prop} {g : γ} (hready : ready g) (w' : World γ Time) :
    (leftBy env args ready w').Calm { w' with faults := fun _ => none, gnupg := g } :=
  ⟨rfl, rfl, fun _ => rfl, hready, trivial⟩

/-- **A created vault can be restored from** exactly if its parameters can be
imported, where there is a master passphrase, and the name of its file can be
read in the sidecar. -/
theorem opensAgain_iff {hasMetadata : Bool} {args : CreateArgs} {created : Created Time} {w w' : World γ Time}
    (hinverts : env.aead.Inverts) (htagged : env.aead.Tagged) (hmsgpack : env.msgpack.RoundTrips)
    (hlower : LowersDigests env) (hcreate : (create env hasMetadata args).run w = .ok created w')
    {fps unlockFps : List Str} (hfps : args.fingerprints.mapM GPGService.validateFingerprint = .ok fps)
    (hunlock : args.unlockKeyFingerprints.mapM GPGService.validateFingerprint = .ok unlockFps) (hdistinct : fps.Nodup) :
    OpensAgain env args fps unlockFps created w' ↔
      (args.masterPassphrase ≠ none → args.params.Importable) ∧
        (Openable env args unlockFps → AsciiName (env.resolve args.targetPath)) := by
  obtain ⟨fps', unlockFps', p, hfps', hunlock', hleaves⟩ := create_eq_ok hcreate
  obtain rfl : fps = fps' := Except.ok.inj (hfps.symm.trans hfps')
  obtain rfl : unlockFps = unlockFps' := Except.ok.inj (hunlock.symm.trans hunlock')
  have hcreated := hleaves.created_eq
  constructor
  · intro h
    constructor
    · intro hgiven
      obtain ⟨passphrase, hpassphrase⟩ := Option.ne_none_iff_exists'.mp hgiven
      have hopener : Opener env (fun _ => True) args unlockFps { masterPassphrase := some passphrase } :=
        .passphrase passphrase hpassphrase
      have hu : (leftBy env args (fun _ => True) w').Calm { w' with faults := fun _ => none } :=
        calm_leftBy args trivial w'
      obtain ⟨opened, u', hrun, -⟩ := h.restores _ _ hopener args.targetPath rfl true _ hu
      exact (within_of_openVault hleaves hopener rfl hinverts htagged hlower hu hrun).1 rfl
    · rintro ⟨ready, credentials, ⟨g, hg⟩, hopener⟩
      have hu : (leftBy env args ready w').Calm { w' with faults := fun _ => none, gnupg := g } :=
        calm_leftBy args hg w'
      obtain ⟨opened, u', hrun, -⟩ := h.restores _ _ hopener args.targetPath rfl false _ hu
      exact (within_of_openVault hleaves hopener rfl hinverts htagged hlower hu hrun).2 rfl
  · rintro ⟨himportable, hascii⟩
    refine ⟨hcreated ▸ hleaves.collected, fun ready credentials hopener sourcePath hsrc skipChecksum u hu => ?_⟩
    have hpassphrase : credentials.smartcardPin = none → args.params.Importable := by
      intro hpin
      cases hopener with
      | passphrase passphrase given => exact himportable (given ▸ Option.some_ne_none passphrase)
      | card fp pin _ mem given => cases hpin.symm.trans given
    obtain ⟨opened, hopen, hmanifest, -, hselects⟩ := settles_created hleaves hopener hsrc hinverts htagged hlower
      hmsgpack hdistinct hpassphrase fun _ => hascii ⟨ready, credentials, ⟨u.gnupg, hu.answers⟩, hopener⟩
    obtain ⟨opened', u', hrun, hopened, -⟩ := hopen.run_of_ok hu
    obtain rfl : opened' = opened := hopened
    rw [hcreated]
    exact ⟨opened', u', hrun, hmanifest, hselects⟩

/-! ### Vaults with one key and with two -/

/-- A keyring with one key and its secret part. -/
def oneOwnKey : GnuPG Unit Unit where
  baseCmd := [lit "gpg"]
  pipes _ := (lit "3", lit "4")
  popen args _ _ g :=
    (.ok { returncode := 0, stdout := if lit "--export" ∈ args then ascii "public" else ascii "private" }, g)
  listKeys _ g :=
    (.ok [{ fingerprint := sampleEntry.fingerprint, userIds := [], createdAt := (), hasPrivateKey := true }], g)

/-- A cipher that does nothing but to add its tag. -/
def taggingPlatform : Platform Unit Unit :=
  { samplePlatform oneOwnKey with
    msgpack := .single (sampleManifest.dump samplePydantic) sampleManifestBytes valueError
    aead :=
      { encrypt := fun _ _ _ _ plaintext => some (plaintext ++ List.replicate 16 0)
        decrypt := fun _ _ _ _ ciphertext => some (ciphertext.take (ciphertext.length - 16)) }
    argon2 := fun _ _ _ => .ok (List.replicate 32 0) }

theorem inverts_taggingPlatform : taggingPlatform.aead.Inverts := by
  intro cipher key nonce associatedData plaintext ciphertext h
  obtain rfl := Option.some.inj h
  show some ((plaintext ++ List.replicate 16 0).take _) = some plaintext
  rw [List.length_append, List.length_replicate, Nat.add_sub_cancel, List.take_left]

theorem tagged_taggingPlatform : taggingPlatform.aead.Tagged := by
  intro cipher key nonce associatedData plaintext ciphertext h
  obtain rfl := Option.some.inj h
  rw [List.length_append, List.length_replicate]

def ownKeyArgs : CreateArgs where
  targetPath := cardPath
  masterPassphrase := some (ascii "secret")
  gpgPassphrases _ := some (ascii "passphrase of the key")
  fingerprints := [sampleEntry.fingerprint]

theorem lowersDigests_taggingPlatform : LowersDigests taggingPlatform := by
  intro data
  have hzero : (if (0x41 : ℕ) ≤ (0x30 : CodePoint).val ∧ (0x30 : CodePoint).val ≤ 0x5A then
      (Fin.ofNat _ ((0x30 : CodePoint).val + 0x20) : CodePoint) else 0x30) = 0x30 := by decide
  exact List.map_replicate.trans (congrArg (List.replicate 64) hzero)

theorem asciiName_cardPath : AsciiName cardPath := by
  intro name hname
  obtain rfl : ascii "keys.gpgm" = name := Option.some.inj (Eq.trans (by decide) hname)
  have hall : ((ascii "keys.gpgm").take 190).all (fun b => b.toNat < 0x80) = true := by decide +kernel
  exact fun b hb => of_decide_eq_true (List.all_eq_true.mp hall b hb)

/-- The octets of a message in halves, which are ASCII. -/
def encipher (plaintext : Bytes) : Bytes :=
  plaintext.flatMap fun octet => [.ofNat (octet.toNat % 128), .ofNat (octet.toNat / 128)]

def decipher : Bytes → Bytes
  | low :: high :: message => .ofNat (low.toNat + 128 * high.toNat) :: decipher message
  | _ => []

theorem decipher_encipher : ∀ plaintext : Bytes, decipher (encipher plaintext) = plaintext
  | [] => rfl
  | octet :: plaintext => by
    have hlt := octet.toNat_lt
    show decipher (.ofNat (octet.toNat % 128) :: .ofNat (octet.toNat / 128) :: encipher plaintext) = _
    rw [decipher, decipher_encipher plaintext, UInt8.toNat_ofNat', UInt8.toNat_ofNat']
    exact congrArg (· :: plaintext) (Base64.ofNat_eq octet (by omega))

theorem ascii_encipher {plaintext : Bytes} : ∀ b ∈ encipher plaintext, b.toNat < 0x80 := by
  intro b hb
  obtain ⟨octet, -, hb⟩ := List.mem_flatMap.mp hb
  have hlt := octet.toNat_lt
  rcases List.mem_pair.mp hb with rfl | rfl
  · rw [UInt8.toNat_ofNat']
    omega
  · rw [UInt8.toNat_ofNat']
    omega

/-- A keyring with two keys, of which the first one is on a card whose PIN is
`123456`, and can be exported. -/
def cardholderGnuPG : GnuPG Unit Unit where
  baseCmd := [lit "gpg"]
  pipes _ := (lit "3", lit "4")
  popen args input passphrase g :=
    (.ok
      (if args = [lit "--decrypt"] then
        if passphrase = some (ascii "123456") then
          { returncode := 0, stdout := decipher (input.getD []), reads := [decryptionStatus] }
        else { returncode := 2, stderr := ascii "gpg: public key decryption failed: Bad PIN" }
      else if lit "--encrypt" ∈ args then { returncode := 0, stdout := encipher (input.getD []) }
      else if lit "--export" ∈ args then
        { returncode := 0, stdout := if sampleEntry.fingerprint ∈ args then ascii "public" else ascii "other" }
      else { returncode := 0, stdout := ascii "private" }), g)
  listKeys _ g :=
    (.ok [{ fingerprint := sampleEntry.fingerprint, userIds := [], createdAt := (), hasPrivateKey := true },
      { fingerprint := otherEntry.fingerprint, userIds := [], createdAt := (), hasPrivateKey := false }], g)

def cardholderPlatform : Platform Unit Unit :=
  { taggingPlatform with
    gpg := cardholderGnuPG
    msgpack := .single (pairManifest.dump samplePydantic) pairManifestBytes valueError }

/-- Both keys, to be opened with a master passphrase and with the card. -/
def pairArgs : CreateArgs where
  targetPath := cardPath
  masterPassphrase := some (ascii "secret")
  gpgPassphrases _ := some (ascii "passphrase of the key")
  fingerprints := [sampleEntry.fingerprint, otherEntry.fingerprint]
  unlockKeyFingerprints := [sampleEntry.fingerprint]

theorem eq_encipher_of_encrypted {fp : Str} {plaintext message : Bytes}
    (h : Encrypted cardholderGnuPG fp plaintext message) : message = encipher plaintext := by
  obtain ⟨g, out, g', hpopen, -, rfl⟩ := h
  have hargs : GPGService.encryptArgs [fp] none true ≠ [lit "--decrypt"] := by
    simp [GPGService.encryptArgs]
  have hencrypt : lit "--encrypt" ∈ GPGService.encryptArgs [fp] none true := by
    simp [GPGService.encryptArgs]
  have hout := Except.ok.inj (Prod.mk.inj hpopen).1
  rw [if_neg hargs, if_pos hencrypt] at hout
  rw [← hout]
  rfl

theorem cardOpens_cardholder : CardOpens cardholderPlatform (fun _ => True) [sampleEntry.fingerprint]
    sampleEntry.fingerprint (ascii "123456") where
  framed := by decide
  hidden _ _ := rfl
  ascii _ _ _ _ h b hb := ascii_encipher b (eq_encipher_of_encrypted h ▸ hb)
  runs _ _ plaintext message h g _ := by
    obtain rfl := eq_encipher_of_encrypted h
    refine ⟨_, g, rfl, trivial, fun _ => ?_, fun _ => ?_⟩
    · rw [if_pos rfl, if_pos rfl]
      exact decipher_encipher plaintext
    · rw [if_pos rfl, if_pos rfl]

theorem inverts_cardholder : cardholderPlatform.aead.Inverts := inverts_taggingPlatform

theorem tagged_cardholder : cardholderPlatform.aead.Tagged := tagged_taggingPlatform

theorem roundTrips_cardholder : cardholderPlatform.msgpack.RoundTrips := Msgpack.roundTrips_single _ _ _

theorem lowersDigests_cardholder : LowersDigests cardholderPlatform := fun data => lowersDigests_taggingPlatform data

theorem creates_pair : ∃ created w', (create cardholderPlatform false pairArgs).run (sampleWorld () fun _ => none) =
    .ok created w' := by
  have hreturns : returns (fun _ _ => true) (create cardholderPlatform false pairArgs) (sampleWorld () fun _ => none) =
      true := by
    decide +kernel
  obtain ⟨created, w', hcreate, -⟩ := returns_eq_true.mp hreturns
  exact ⟨created, w', hcreate⟩

theorem validated_pairArgs :
    pairArgs.fingerprints.mapM GPGService.validateFingerprint = .ok [sampleEntry.fingerprint, otherEntry.fingerprint] ∧
      pairArgs.unlockKeyFingerprints.mapM GPGService.validateFingerprint = .ok [sampleEntry.fingerprint] := by
  constructor
  · decide +kernel
  · decide +kernel

/-- With the PIN of the card both keys come out. -/
theorem opens_created_iff_sample : ∃ created w',
    (create cardholderPlatform false pairArgs).run (sampleWorld () fun _ => none) = .ok created w' ∧
      Restores created (openVault cardholderPlatform cardPath { smartcardPin := some (ascii "123456") } false)
        (sampleWorld () w'.files) := by
  obtain ⟨created, w', hcreate⟩ := creates_pair
  have hopener : Opener cardholderPlatform (fun _ => True) pairArgs [sampleEntry.fingerprint]
      { smartcardPin := some (ascii "123456") } :=
    .card _ _ _ (List.mem_singleton_self _) rfl cardOpens_cardholder
  refine ⟨created, w', hcreate, ?_⟩
  exact (opens_created_iff inverts_cardholder tagged_cardholder roundTrips_cardholder lowersDigests_cardholder hcreate
    validated_pairArgs.1 validated_pairArgs.2 (by decide) hopener rfl false (u := sampleWorld () w'.files)
    ⟨rfl, rfl, fun _ => rfl, trivial, trivial⟩).2.mpr ⟨fun _ => by decide, fun _ => asciiName_cardPath⟩

/-- It does with everything that should open the vault. -/
theorem opensAgain_pair : ∃ created w',
    (create cardholderPlatform false pairArgs).run (sampleWorld () fun _ => none) = .ok created w' ∧
      OpensAgain cardholderPlatform pairArgs [sampleEntry.fingerprint, otherEntry.fingerprint]
        [sampleEntry.fingerprint] created w' := by
  obtain ⟨created, w', hcreate⟩ := creates_pair
  exact ⟨created, w', hcreate, (opensAgain_iff inverts_cardholder tagged_cardholder roundTrips_cardholder
    lowersDigests_cardholder hcreate validated_pairArgs.1 validated_pairArgs.2 (by decide)).mpr
      ⟨fun _ => by decide, fun _ => asciiName_cardPath⟩⟩

/-- With the balanced profile a vault is created, and does not open. -/
theorem not_opensAgain : ¬ ∀ (γ Time : Type) (env : Platform γ Time) hasMetadata args created w w' fps unlockFps,
    env.aead.Inverts → env.aead.Tagged → env.msgpack.RoundTrips → LowersDigests env →
    (create env hasMetadata args).run w = .ok created w' →
    args.fingerprints.mapM GPGService.validateFingerprint = .ok fps →
    args.unlockKeyFingerprints.mapM GPGService.validateFingerprint = .ok unlockFps → fps.Nodup →
    OpensAgain env args fps unlockFps created w' := by
  intro h
  have hreturns : returns (fun _ w' => ! returns (fun _ _ => true)
      (openVault taggingPlatform cardPath { masterPassphrase := some (ascii "secret") } false)
        (sampleWorld () w'.files))
      (create taggingPlatform false { ownKeyArgs with kdfParams := some balancedParams })
        (sampleWorld () fun _ => none) = true := by
    decide +kernel
  obtain ⟨created, w', hcreate, hfails⟩ := returns_eq_true.mp hreturns
  have hfps : ownKeyArgs.fingerprints.mapM GPGService.validateFingerprint = .ok [sampleEntry.fingerprint] := by
    decide +kernel
  have hagain := h Unit Unit taggingPlatform false { ownKeyArgs with kdfParams := some balancedParams } created
    (sampleWorld () fun _ => none) w' [sampleEntry.fingerprint] [] inverts_taggingPlatform tagged_taggingPlatform
    (Msgpack.roundTrips_single _ _ _) lowersDigests_taggingPlatform hcreate hfps rfl (List.nodup_singleton _)
  obtain ⟨opened, u', hrun, -⟩ := hagain.restores (fun _ => True) _ (.passphrase (ascii "secret") rfl) cardPath rfl
    false (sampleWorld () w'.files) ⟨rfl, rfl, fun _ => rfl, trivial, trivial⟩
  have hopens : returns (fun _ _ => true)
      (openVault taggingPlatform cardPath { masterPassphrase := some (ascii "secret") } false)
        (sampleWorld () w'.files) = true := returns_eq_true.mpr ⟨opened, u', hrun, rfl⟩
  rw [hopens] at hfails
  cases hfails

end VaultService
end GpgMeister
