/-
# Folders, encrypted and decrypted

`FolderService.encrypt_folder` and `decrypt_folder` of
`services/folder_service.py`, with `GPGService.encrypt_file` and `decrypt_file`
under them. The disk is a part of what GnuPG works on. The plaintext archive
lies in a temporary file, and every call of the operating system may fail.

* `tidy_encryptFolder`, `tidy_decryptFolder`: however a call ends, nothing has
  changed but the file that GnuPG was told to write, or the folder that was
  unpacked; and the archive is gone, but for one that cannot be removed, or that
  could not be closed when nothing was in it.
-/
import GpgMeister.Services.FolderExtract
import GpgMeister.Services.RecipientPolicy

namespace GpgMeister

open Program

/-! ### The disk -/

/-- GnuPG works on its own state, and on the disk. -/
abbrev OnDisk (γ : Type) := γ × FolderExtract.Extraction

variable {γ Time α : Type}

def World.disk (w : World (OnDisk γ) Time) : FolderExtract.Extraction := w.gnupg.2

namespace FolderService

open FolderExtract (Extraction call probe)

/-- A program on the disk. -/
def onDisk (x : Program Extraction Exc α) : Program (World (OnDisk γ) Time) Exc α :=
  x.onPart World.disk fun disk w => { w with gnupg := (w.gnupg.1, disk) }

/-- `str(path)`, of an absolute path -/
def pathText (path : List Str) : Str := slash :: nameOf path

def osError : Exc where
  cls := .osError
  message := []

/-- `tempfile.mkstemp(dir=directory)`, which takes this name. -/
def mkstemp (directory : List Str) (temp : FileName) : Program Extraction Exc Unit := do
  let t := (← get).files
  if t.isDir directory = true ∧ (t.get (directory ++ [temp.val])).isNone = true then
    call (directory ++ [temp.val]) (·.create (directory ++ [temp.val]) []) fun _ => some
  else raise osError

/-- `os.unlink(name)` -/
def unlink (name : List Str) : Program Extraction Exc Unit := fun s =>
  if name ∈ s.left then .error osError s
  else
    match s.files.unlink name with
    | some t => .ok () { s with files := t }
    | none => .error osError s

/-- `with contextlib.suppress(OSError): os.unlink(name)` -/
def unlinkQuietly (name : List Str) : Program Extraction Exc Unit :=
  (unlink name).catching fun e => if e.isA [.osError] then pure () else raise e

/-- `_temp_file(directory)` around a body; the file takes this name. -/
def withTempFile (directory : List Str) (temp : FileName) (body : List Str → Program (World (OnDisk γ) Time) Exc α) :
    Program (World (OnDisk γ) Time) Exc α := do
  onDisk (mkstemp directory temp)
  onDisk probe
  (body (directory ++ [temp.val])).ensuring (onDisk (unlinkQuietly (directory ++ [temp.val])))

/-- An archive is written over a file that is there. -/
def writeFile (path : List Str) (data : Bytes) : Program Extraction Exc Unit :=
  call path (·.overwrite path data) fun n t => t.overwrite path (data.take n)

/-- `tarfile`, on octets; `torn` is what has been written of an archive when a
file of the folder could not be read. -/
structure Tarfile where
  write : List Member → Bytes
  torn : Folder → Bytes
  read : Bytes → Option (List Member)

/-- `_pack(folder, archive)` -/
def packInto (tar : Tarfile) (folder : Folder) (archive : List Str) : Program Extraction Exc ℕ :=
  match pack folder with
  | .ok (members, fileCount) => do
    writeFile archive (tar.write members)
    return fileCount
  | .error e => do
    writeFile archive (tar.torn folder)
    raise e

/-- `_unpack(archive, destination)`, of an archive that is read at once -/
def unpackFrom (tar : Tarfile) (archive destination : List Str) (staging : FileName) :
    Program Extraction Exc (List Str) := do
  probe
  match (← get).files.get archive with
  | some (.file data) =>
    match tar.read data with
    | some members => FolderExtract.extract members destination staging
    | none =>
      raise { cls := .valueError, message := lit "the decrypted file is not a valid encrypted folder" }
  | _ => raise osError

end FolderService

/-! ### Files through GnuPG -/

namespace GPGService

open FolderService (pathText)

variable (env : Platform γ Time)

/-- The arguments of `encrypt_file`. -/
def encryptFileArgs (source target : List Str) (recipients : List Str) (alwaysTrust : Bool) : List Str :=
  [lit "--yes", lit "--output", pathText target] ++
    (if recipients ≠ [] then
      (if alwaysTrust then [lit "--trust-model", lit "always"] else []) ++ [lit "--encrypt"] ++
        recipients.flatMap fun recipient => [lit "--recipient", recipient]
    else [lit "--no-symkey-cache", lit "--symmetric", lit "--cipher-algo", lit "AES256"]) ++ [pathText source]

/-- `encrypt_file` -/
def encryptFile (source target : List Str) (recipientFingerprints : List Str) (passphrase : Option Bytes)
    (alwaysTrust : Bool) : Program (World γ Time) Exc Unit := do
  let recipients ← Program.ofExcept (recipientFingerprints.mapM validateFingerprint)
  if (! recipients.isEmpty) = passphrase.isSome then
    raise (validationError (lit "give either recipients or a passphrase"))
  else do
    let proc ← runGpg env (encryptFileArgs source target recipients alwaysTrust) none passphrase true
    Program.ofExcept (requireOk proc (lit "file encryption failed") [0])

/-- The arguments of `decrypt_file`. -/
def decryptFileArgs (source target : List Str) : List Str :=
  [lit "--yes", lit "--no-symkey-cache", lit "--output", pathText target, lit "--decrypt", pathText source]

/-- `decrypt_file` -/
def decryptFile (source target : List Str) (passphrase : Option Bytes) : Program (World γ Time) Exc (Option Str) := do
  let proc ← runGpg env (decryptFileArgs source target) none passphrase true
  Program.ofExcept (Gpg.requireDecryptOk env.lower proc)
  return Gpg.decryptionFingerprint (Gpg.parseStatus proc.status)

/-- The value of the option `--output`. -/
def outputOf : List Str → Option Str
  | option :: value :: args => if option = lit "--output" then some value else outputOf (value :: args)
  | _ => none

end GPGService

/-- GnuPG changes no file but the one it is told to write, and puts no directory
there. -/
structure GnuPG.WritesOutput (gpg : GnuPG (OnDisk γ) Time) : Prop where
  listKeys : ∀ secret g, (gpg.listKeys secret g).2.2 = g.2
  popen : ∀ args input passphrase g path, (∀ a ∈ path, FolderService.IsName a) →
    GPGService.outputOf args = some (FolderService.pathText path) →
    ∃ t, (gpg.popen args input passphrase g).2.2 = { g.2 with files := t } ∧
      (∀ p, p ≠ path → t.get p = g.2.files.get p) ∧ (g.2.files.get path ≠ some .dir → t.get path ≠ some .dir)

/-! ### The service -/

namespace FolderService

open GPGService FolderExtract

structure FolderDecryptResult where
  folder : List Str
  decryptedWithFingerprint : Option Str

section Service

variable (env : Platform (OnDisk γ) Time)
/- What a listing says of a key besides what is in `KeyInfo`. -/
variable (strength : KeyInfo Time → KeyStrength)
variable (tar : Tarfile)
/- The names that `mkstemp` and `mkdtemp` take. -/
variable (temp staging : FileName)

def valueError (message : Str) : Exc where
  cls := .valueError
  message := message

/-- Recipients that may be encrypted to, or a passphrase. -/
def checkMode (recipients : List Str) (passphrase : Option Bytes) (trustConfirmed : Bool) :
    Program (World (OnDisk γ) Time) Exc Unit :=
  if recipients ≠ [] then MessageService.enforceRecipientPolicy env strength recipients trustConfirmed
  else if passphrase = none then raise (valueError (lit "choose a recipient key or enter a passphrase"))
  else pure ()

/-- The record of a folder that was encrypted. -/
def encryptedPayload (recipients : List Str) (fileCount : ℕ) : Dict where
  items := [(lit "mode", .str (if recipients ≠ [] then lit "key" else lit "passphrase")),
    (lit "recipient_count", .int recipients.length), (lit "file_count", .int fileCount)]
  unique := Dict.evaluated

/-- The archive is packed and encrypted. -/
def packAndEncrypt (folder : Folder) (target recipients : List Str) (passphrase : Option Bytes) (trustConfirmed : Bool)
    (archive : List Str) : Program (World (OnDisk γ) Time) Exc ℕ := do
  let fileCount ← onDisk (packInto tar folder archive)
  encryptFile env archive target recipients (if recipients ≠ [] then none else passphrase) trustConfirmed
  return fileCount

/-- `encrypt_folder`, of what is in the directory `parent`, if it is a folder -/
def encryptFolder (parent : List Str) (found : Option Folder) (target recipientFingerprints : List Str)
    (passphrase : Option Bytes) (trustConfirmed : Bool) : Program (World (OnDisk γ) Time) Exc (List Str) := do
  syscall
  match found with
  | none => raise (valueError (lit "choose an existing folder to encrypt"))
  | some folder =>
    if parent ++ [folder.name.val] <+: target then
      raise (valueError (lit "the encrypted file must be saved outside the folder"))
    else do
      let recipients ← Program.ofExcept (recipientFingerprints.mapM validateFingerprint)
      checkMode env strength recipients passphrase trustConfirmed
      let fileCount ← withTempFile target.dropLast temp
        (packAndEncrypt env tar folder target recipients passphrase trustConfirmed)
      emit env.toEnv (lit "folder_encrypted") (lit "ok") (encryptedPayload recipients fileCount)
      return target

/-- The archive is decrypted and unpacked. -/
def decryptAndUnpack (source destination : List Str) (passphrase : Option Bytes) (archive : List Str) :
    Program (World (OnDisk γ) Time) Exc FolderDecryptResult := do
  let decryptedWith ← decryptFile env source archive passphrase
  let folder ← onDisk (unpackFrom tar archive destination staging)
  return { folder, decryptedWithFingerprint := decryptedWith }

/-- The record of a folder that could not be decrypted. -/
def notDecryptedPayload (e : Exc) : Dict where
  items := [(lit "reason", .str e.cls.name)]
  unique := Dict.evaluated

/-- The record of a folder that was decrypted. -/
def decryptedPayload (result : FolderDecryptResult) : Dict where
  items := [(lit "decrypted_with", .str (result.decryptedWithFingerprint.getD []))]
  unique := Dict.evaluated

/-- `decrypt_folder` -/
def decryptFolder (source destination : List Str) (passphrase : Option Bytes) :
    Program (World (OnDisk γ) Time) Exc FolderDecryptResult := do
  syscall
  let t := (← get).disk.files
  if t.isFile source = false then raise (valueError (lit "choose an existing encrypted folder file"))
  else if t.isDir destination = false then raise (valueError (lit "choose an existing destination folder"))
  else do
    let result ← (withTempFile destination temp (decryptAndUnpack env tar staging source destination passphrase)).catching
      fun e => do
        emit env.toEnv (lit "folder_decrypt_failed") (lit "failed") (notDecryptedPayload e)
        raise e
    emit env.toEnv (lit "folder_decrypted") (lit "ok") (decryptedPayload result)
    return result

end Service

/-! ### What programs do to the disk -/

/-- Whatever the rest of the world has in store, the program returns with `Q` or
raises with `E`. -/
def Does (x : Program (World (OnDisk γ) Time) Exc α) (s : Extraction) (Q : α → Extraction → Prop)
    (E : Exc → Extraction → Prop) : Prop :=
  ∀ w : World (OnDisk γ) Time, w.disk = s → x.Meets w (fun a w' => Q a w'.disk) fun e w' => E e w'.disk

theorem steady_disk : Steady (World.disk : World (OnDisk γ) Time → Extraction) where
  audit _ _ := rfl
  faults _ _ := rfl
  random _ _ := rfl
  clock _ _ := rfl
  buffers _ _ := rfl
  emitted _ _ _ _ := rfl
  derived _ _ _ _ := rfl

namespace Does

variable {β : Type} {x : Program (World (OnDisk γ) Time) Exc α} {s : Extraction} {Q Q' : α → Extraction → Prop}
  {E E' : Exc → Extraction → Prop}

theorem mono (h : Does x s Q E) (hQ : ∀ a s', Q a s' → Q' a s') (hE : ∀ e s', E e s' → E' e s') : Does x s Q' E' :=
  fun w hw => (h w hw).mono (fun a w' => hQ a w'.disk) fun e w' => hE e w'.disk

theorem of_keeps (hx : Keeps World.disk x) (hQ : ∀ a, Q a s) (hE : ∀ e, E e s) : Does x s Q E := by
  intro w hw
  subst hw
  exact hx.meets (fun a w' h => h ▸ hQ a) fun e w' h => h ▸ hE e

theorem bind {R : β → Extraction → Prop} {f : α → Program (World (OnDisk γ) Time) Exc β} (hx : Does x s Q E)
    (hf : ∀ a s', Q a s' → Does (f a) s' R E) : Does (x >>= f) s R E := by
  intro w hw
  rw [meets_bind]
  exact (hx w hw).mono (fun a w' h => hf a w'.disk h w' rfl) fun e w' h => h

theorem catching {handler : Exc → Program (World (OnDisk γ) Time) Exc α} (hx : Does x s Q E)
    (hh : ∀ e s', E e s' → Does (handler e) s' Q E') : Does (x.catching handler) s Q E' := by
  intro w hw
  rw [meets_catching]
  exact (hx w hw).mono (fun a w' h => h) fun e w' h => hh e w'.disk h w' rfl

theorem ensuring {last : Program (World (OnDisk γ) Time) Exc Unit} (hx : Does x s Q E)
    (hlast : ∀ a s', Q a s' → Does last s' (fun _ => Q' a) E') (herror : ∀ e s', E e s' → Does last s' (fun _ => E' e) E') :
    Does (x.ensuring last) s Q' E' := by
  intro w hw
  rw [meets_ensuring]
  exact (hx w hw).mono (fun a w' h => hlast a w'.disk h w' rfl) fun e w' h => herror e w'.disk h w' rfl

theorem onDisk {y : Program Extraction Exc α} (h : y.Meets s Q E) :
    Does (onDisk y : Program (World (OnDisk γ) Time) Exc α) s Q E := by
  intro w hw
  subst hw
  exact meets_onPart.mpr h

theorem raise {e : Exc} (h : E e s) : Does (Program.raise e : Program (World (OnDisk γ) Time) Exc α) s Q E := by
  intro w hw
  subst hw
  exact h

theorem pure {a : α} (h : Q a s) : Does (Pure.pure a : Program (World (OnDisk γ) Time) Exc α) s Q E := by
  intro w hw
  subst hw
  exact h

end Does

/-! ### Calls -/

section Calls

variable {s s' : Extraction} {path archive directory : List Str} {temp : FileName}

/-- At every other path there is what there was, and what cannot be removed is
the same. -/
structure Elsewhere (path : List Str) (s s' : Extraction) : Prop where
  left : s'.left = s.left
  rest : ∀ p, p ≠ path → s'.files.get p = s.files.get p

theorem Elsewhere.of_files (hleft : s'.left = s.left) (hfiles : s'.files = s.files) : Elsewhere path s s' :=
  ⟨hleft, fun p _ => by rw [hfiles]⟩

theorem Elsewhere.refl (path : List Str) (s : Extraction) : Elsewhere path s s := ⟨rfl, fun _ _ => rfl⟩

theorem Elsewhere.trans {s'' : Extraction} (h : Elsewhere path s s') (h' : Elsewhere path s' s'') :
    Elsewhere path s s'' :=
  ⟨h'.left.trans h.left, fun p hp => (h'.rest p hp).trans (h.rest p hp)⟩

/-- A call that changes nothing fails only by itself. -/
theorem meets_probe (s : Extraction) :
    probe.Meets s (fun _ s' => s'.left = s.left ∧ s'.files = s.files)
      fun _ s' => (s'.left = s.left ∧ s'.files = s.files) ∧ (s.faults 0).isSome = true := by
  unfold probe call Meets
  simp only [EStateM.run]
  cases s.faults 0 with
  | none => exact ⟨rfl, rfl⟩
  | some fault => exact ⟨⟨rfl, rfl⟩, rfl⟩

theorem meets_mkstemp (directory : List Str) (temp : FileName) (s : Extraction) :
    (mkstemp directory temp).Meets s
      (fun _ s' => s'.left = s.left ∧ s'.faults 0 = s.faults 1 ∧ s.files.get (directory ++ [temp.val]) = none ∧
        s'.files.get = Function.update s.files.get (directory ++ [temp.val]) (some (.file [])))
      fun _ s' => s'.left = s.left ∧ s'.files = s.files := by
  unfold mkstemp
  rw [meets_bind, meets_get]
  dsimp only
  split_ifs
  · refine meets_call (fun t ht => ?_) (fun _ _ => ⟨rfl, rfl⟩) fun _ => ⟨rfl, rfl⟩
    obtain ⟨hnone, hget⟩ := FileTree.get_create ht
    exact ⟨rfl, rfl, hnone, hget⟩
  · exact ⟨rfl, rfl⟩

/-- The file is gone afterwards, unless it cannot be removed. -/
theorem meets_unlinkQuietly (s : Extraction) (hdir : s.files.get path ≠ some .dir) :
    (unlinkQuietly path).Meets s (fun _ s' => Elsewhere path s s' ∧ (s'.files.get path = none ∨ path ∈ s.left))
      fun _ _ => False := by
  have hos : osError.isA [.osError] = true := by decide
  unfold unlinkQuietly
  rw [meets_catching]
  unfold unlink Meets
  simp only [EStateM.run]
  by_cases hleft : path ∈ s.left
  · rw [if_pos hleft]
    dsimp only
    rw [if_pos hos]
    exact ⟨.refl path s, .inr hleft⟩
  · rw [if_neg hleft]
    cases ht : s.files.unlink path with
    | some t =>
      have hget := FileTree.get_unlink ht
      refine ⟨⟨rfl, fun p hp => ?_⟩, .inl ?_⟩
      · exact (congrFun hget p).trans (Function.update_of_ne hp _ _)
      · exact (congrFun hget path).trans (Function.update_self _ _ _)
    | none =>
      dsimp only
      rw [if_pos hos]
      refine ⟨.refl path s, .inl ?_⟩
      by_contra hsome
      have hfile : s.files.isFile path = true := by
        by_contra hno
        exact hdir (FileTree.get_of_isFile (Bool.eq_false_iff.mpr hno) hsome)
      unfold FileTree.unlink at ht
      rw [if_pos hfile] at ht
      cases ht

/-- The path may be written, with a file. -/
structure Writes (path : List Str) (s s' : Extraction) : Prop extends Elsewhere path s s' where
  file : s.files.get path ≠ some .dir → s'.files.get path ≠ some .dir

theorem Writes.of_files (hleft : s'.left = s.left) (hfiles : s'.files = s.files) : Writes path s s' :=
  ⟨.of_files hleft hfiles, fun h => hfiles ▸ h⟩

theorem Writes.of_overwrite {data : Bytes} (hleft : s'.left = s.left)
    (h : s.files.overwrite path data = some s'.files) : Writes path s s' := by
  obtain ⟨-, hget⟩ := FileTree.get_overwrite h
  refine ⟨⟨hleft, fun p hp => ?_⟩, fun _ => ?_⟩
  · exact (congrFun hget p).trans (Function.update_of_ne hp _ _)
  · rw [hget]
    simp

theorem meets_writeFile (data : Bytes) (s : Extraction) :
    (writeFile path data).Meets s (fun _ => Writes path s) fun _ => Writes path s := by
  refine meets_call (fun t ht => .of_overwrite rfl ht) (fun e n => ?_) fun _ => .of_files rfl rfl
  cases ht : s.files.overwrite path (data.take n) with
  | none => exact .of_files rfl rfl
  | some t => exact .of_overwrite rfl ht

theorem meets_packInto (tar : Tarfile) (folder : Folder) (s : Extraction) :
    (packInto tar folder archive).Meets s (fun _ => Writes archive s) fun _ => Writes archive s := by
  unfold packInto
  cases pack folder with
  | ok packed =>
    rw [meets_bind]
    exact meets_writeFile _ s
  | error e =>
    rw [meets_bind]
    exact meets_writeFile _ s

/-- The call after `mkstemp`, which closes the new file, has failed, and the
file is all that is new. -/
def Unclosed (archive : List Str) (s s' : Extraction) : Prop :=
  (s.faults 1).isSome = true ∧ s'.files.get = Function.update s.files.get archive (some (.file []))

/-- What the temporary file was is gone, or the file was never closed, or it
cannot be removed. -/
def Gone (archive : List Str) (s s' : Extraction) : Prop :=
  s'.files.get archive = s.files.get archive ∨ Unclosed archive s s' ∨ archive ∈ s.left

/-- A body that does not make a directory of the temporary file, with a
postcondition that does not speak of that file. -/
theorem does_withTempFile {body : List Str → Program (World (OnDisk γ) Time) Exc α} {Q : α → Extraction → Prop}
    {E : Exc → Extraction → Prop} (harchive : archive = directory ++ [temp.val])
    (hstart : ∀ e s', Elsewhere archive s s' → E e s')
    (hbody : ∀ s1, Elsewhere archive s s1 → s1.files.get archive = some (.file []) →
      Does (body archive) s1 (fun a s2 => s2.left = s.left ∧ s2.files.get archive ≠ some .dir ∧ Q a s2)
        fun e s2 => s2.left = s.left ∧ s2.files.get archive ≠ some .dir ∧ E e s2)
    (hQ : ∀ a s2 s3, Elsewhere archive s2 s3 → Q a s2 → Q a s3)
    (hE : ∀ e s2 s3, Elsewhere archive s2 s3 → E e s2 → E e s3) :
    Does (withTempFile directory temp body) s (fun a s' => Gone archive s s' ∧ Q a s')
      fun e s' => Gone archive s s' ∧ E e s' := by
  subst harchive
  refine Does.bind (Does.onDisk ((meets_mkstemp directory temp s).mono (fun _ _ h => h) fun e s1 h => ?_)) fun _ s1 h1 => ?_
  · exact ⟨.inl (by rw [h.2]), hstart e s1 (.of_files h.1 h.2)⟩
  obtain ⟨hleft, hfault, hnone, hget⟩ := h1
  have helse : Elsewhere (directory ++ [temp.val]) s s1 :=
    ⟨hleft, fun p hp => (congrFun hget p).trans (Function.update_of_ne hp _ _)⟩
  have hempty : s1.files.get (directory ++ [temp.val]) = some (.file []) :=
    (congrFun hget _).trans (Function.update_self _ _ _)
  refine Does.bind (Does.onDisk ((meets_probe s1).mono (fun _ _ h => h) fun e s2 h => ?_)) fun _ s2 h2 => ?_
  · obtain ⟨⟨hleft2, hfiles2⟩, hfailed⟩ := h
    have hunclosed : Unclosed (directory ++ [temp.val]) s s2 := ⟨hfault ▸ hfailed, hfiles2 ▸ hget⟩
    exact ⟨.inr (.inl hunclosed), hstart e s2 (helse.trans (.of_files hleft2 hfiles2))⟩
  have helse2 := helse.trans (.of_files h2.1 h2.2)
  have hempty2 : s2.files.get (directory ++ [temp.val]) = some (.file []) := by rw [h2.2, hempty]
  have hgone : ∀ {s3 s4 : Extraction}, s3.left = s.left →
      s4.files.get (directory ++ [temp.val]) = none ∨ directory ++ [temp.val] ∈ s3.left →
      Gone (directory ++ [temp.val]) s s4 := by
    intro s3 s4 hleft3 h
    rcases h with h | h
    · exact .inl (h.trans hnone.symm)
    · exact .inr (.inr (hleft3 ▸ h))
  refine Does.ensuring (hbody s2 helse2 hempty2) (fun a s3 h3 => ?_) fun e s3 h3 => ?_
  · obtain ⟨hleft3, hdir, hq⟩ := h3
    exact Does.onDisk ((meets_unlinkQuietly s3 hdir).mono (fun _ s4 h4 => ⟨hgone hleft3 h4.2, hQ a s3 s4 h4.1 hq⟩)
      fun _ _ h => h.elim)
  · obtain ⟨hleft3, hdir, he⟩ := h3
    exact Does.onDisk ((meets_unlinkQuietly s3 hdir).mono (fun _ s4 h4 => ⟨hgone hleft3 h4.2, hE e s3 s4 h4.1 he⟩)
      fun _ _ h => h.elim)

end Calls

/-! ### GnuPG and the disk -/

section Runs

variable {env : Platform (OnDisk γ) Time} {s : Extraction} {path : List Str}

theorem does_onGnupg {f : OnDisk γ → Except Exc α × OnDisk γ} {R : Extraction → Prop} (h : ∀ g, g.2 = s → R (f g).2.2) :
    Does (onGnupg f : Program (World (OnDisk γ) Time) Exc α) s (fun _ => R) fun _ => R := by
  intro w hw
  have hr := h w.gnupg hw
  unfold Meets onGnupg
  simp only [EStateM.run]
  rcases hf : f w.gnupg with ⟨r, g⟩
  rw [hf] at hr
  cases r with
  | ok a => exact hr
  | error e => exact hr

/-- A run writes its output only. -/
theorem does_runGpg (hgpg : env.gpg.WritesOutput) (hpath : ∀ a ∈ path, IsName a) {args : List Str}
    (hargs : outputOf args = some (pathText path)) (passphrase : Option Bytes) (s : Extraction) :
    Does (runGpg env args none passphrase true) s (fun _ => Writes path s) fun _ => Writes path s := by
  have hkept : Writes path s s := .of_files rfl rfl
  have hsyscall : Does (syscall : Program (World (OnDisk γ) Time) Exc Unit) s (fun _ s' => s' = s) fun _ => Writes path s :=
    .of_keeps steady_disk.syscall (fun _ => rfl) fun _ => hkept
  refine hsyscall.bind fun _ s1 h1 => ?_
  subst h1
  refine Does.bind (Q := fun _ s' => s' = s1) (.of_keeps (keeps_ofExcept _) (fun _ => rfl) fun _ => hkept) fun _ s2 h2 => ?_
  subst h2
  refine hsyscall.bind fun _ s3 h3 => ?_
  subst h3
  refine Does.bind (Q := fun _ s' => s' = s3) (.of_keeps keeps_get (fun _ => rfl) fun _ => hkept) fun w s4 h4 => ?_
  subst h4
  refine Does.bind (Q := fun _ s' => s' = s4) (.of_keeps (keeps_ofExcept _) (fun _ => rfl) fun _ => hkept) fun _ s5 h5 => ?_
  subst h5
  refine Does.bind (does_onGnupg (R := Writes path s5) fun g hg => ?_) fun _ _ h => .pure h
  obtain ⟨t, ht, hrest, hdir⟩ := hgpg.popen args none passphrase g path hpath hargs
  rw [ht, ← hg]
  exact ⟨⟨rfl, hrest⟩, hdir⟩

theorem does_encryptFile (hgpg : env.gpg.WritesOutput) {target : List Str} (htarget : ∀ a ∈ target, IsName a)
    (source recipients : List Str) (passphrase : Option Bytes) (alwaysTrust : Bool) (s : Extraction) :
    Does (encryptFile env source target recipients passphrase alwaysTrust) s (fun _ => Writes target s)
      fun _ => Writes target s := by
  have hkept : Writes target s s := .of_files rfl rfl
  refine Does.bind (Q := fun _ s' => s' = s) (.of_keeps (keeps_ofExcept _) (fun _ => rfl) fun _ => hkept)
    fun fps s1 h1 => ?_
  subst h1
  by_cases hmode : (! fps.isEmpty) = passphrase.isSome
  · rw [if_pos hmode]
    exact .raise hkept
  · rw [if_neg hmode]
    refine (does_runGpg hgpg htarget rfl passphrase s1).bind fun proc s2 h2 => ?_
    exact .of_keeps (keeps_ofExcept _) (fun _ => h2) fun _ => h2

theorem does_decryptFile (hgpg : env.gpg.WritesOutput) {target : List Str} (htarget : ∀ a ∈ target, IsName a)
    (source : List Str) (passphrase : Option Bytes) (s : Extraction) :
    Does (decryptFile env source target passphrase) s (fun _ => Writes target s) fun _ => Writes target s := by
  refine (does_runGpg hgpg htarget rfl passphrase s).bind fun proc s2 h2 => ?_
  refine Does.bind (Q := fun _ => Writes target s) (.of_keeps (keeps_ofExcept _) (fun _ => h2) fun _ => h2) fun _ _ h3 => ?_
  exact .pure h3

end Runs

/-! ### The policy and the disk -/

section Policy

variable {env : Platform (OnDisk γ) Time} {strength : KeyInfo Time → KeyStrength}

theorem keeps_disk_findKey (hgpg : env.gpg.WritesOutput) (fp : Str) :
    Keeps (World.disk : World (OnDisk γ) Time → Extraction) (findKey env fp) := by
  have hlist : Keeps (World.disk : World (OnDisk γ) Time → Extraction) (listKeys env false) := by
    intro w
    have hdisk := hgpg.listKeys false w.gnupg
    unfold after listKeys onGnupg
    simp only [EStateM.run]
    rcases hr : env.gpg.listKeys false w.gnupg with ⟨_ | _, g⟩
    · rw [hr] at hdisk
      exact hdisk
    · rw [hr] at hdisk
      exact hdisk
  refine (keeps_ofExcept _).bind fun fp => hlist.bind fun keys => ?_
  cases keys.find? (·.fingerprint = fp) with
  | some key => exact keeps_pure key
  | none => exact keeps_raise _

theorem keeps_disk_checkRecipients (hgpg : env.gpg.WritesOutput) (trustConfirmed : Bool) : ∀ fps : List Str,
    Keeps (World.disk : World (OnDisk γ) Time → Extraction)
      (MessageService.checkRecipients env strength trustConfirmed fps)
  | [] => keeps_pure _
  | fp :: fps => by
    refine Keeps.bind ?_ fun _ => keeps_disk_checkRecipients hgpg trustConfirmed fps
    refine (keeps_disk_findKey hgpg fp).bind fun key => Keeps.bind ?_ fun _ => keeps_ofExcept _
    unfold MessageService.readExpiry VaultService.isExpired
    apply (keeps_pure false).ite
    cases key.expiresAt with
    | none => exact keeps_pure _
    | some expiresAt => exact (steady_disk.utcNow).bind fun _ => keeps_pure _

theorem keeps_disk_checkMode (hgpg : env.gpg.WritesOutput) (recipients : List Str) (passphrase : Option Bytes)
    (trustConfirmed : Bool) :
    Keeps (World.disk : World (OnDisk γ) Time → Extraction)
      (checkMode env strength recipients passphrase trustConfirmed) := by
  unfold checkMode MessageService.enforceRecipientPolicy
  apply Keeps.ite
  · exact (keeps_raise _).ite (keeps_disk_checkRecipients hgpg trustConfirmed recipients)
  · exact (keeps_raise _).ite (keeps_pure _)

end Policy

/-! ### Whole calls -/

/-- The archive is gone, and everything that was not touched is as it was. -/
structure Tidy (archive : List Str) (touched : List Str → Prop) (s s' : Extraction) : Prop where
  gone : Gone archive s s'
  rest : ∀ p, p ≠ archive → ¬ touched p → s'.files.get p = s.files.get p

theorem Tidy.refl (archive : List Str) (touched : List Str → Prop) (s : Extraction) : Tidy archive touched s s :=
  ⟨.inl rfl, fun _ _ _ => rfl⟩

theorem Writes.get_ne_dir {s s' : Extraction} {path p : List Str} (h : Writes path s s') (hp : s.files.get p ≠ some .dir) :
    s'.files.get p ≠ some .dir := by
  by_cases he : p = path
  · rw [he] at hp ⊢
    exact h.file hp
  · rwa [h.rest p he]

section Whole

variable {env : Platform (OnDisk γ) Time} {strength : KeyInfo Time → KeyStrength}

/-- Outside the two paths everything is as it was. -/
def Untouched (archive target : List Str) (s s' : Extraction) : Prop :=
  ∀ p, p ≠ archive → p ≠ target → s'.files.get p = s.files.get p

theorem does_packAndEncrypt (hgpg : env.gpg.WritesOutput) (tar : Tarfile) (folder : Folder) {target archive : List Str}
    (htarget : ∀ a ∈ target, IsName a) (recipients : List Str) (passphrase : Option Bytes) (trustConfirmed : Bool)
    {s : Extraction} (hempty : s.files.get archive = some (.file [])) :
    Does (packAndEncrypt env tar folder target recipients passphrase trustConfirmed archive) s
      (fun _ s' => s'.left = s.left ∧ s'.files.get archive ≠ some .dir ∧ Untouched archive target s s')
      fun _ s' => s'.left = s.left ∧ s'.files.get archive ≠ some .dir ∧ Untouched archive target s s' := by
  have hdir : s.files.get archive ≠ some .dir := by rw [hempty]; simp
  refine Does.bind (Does.onDisk ((meets_packInto tar folder s).mono (fun _ _ h => h) fun _ s1 h1 => ?_)) fun _ s1 h1 => ?_
  · exact ⟨h1.left, h1.file hdir, fun p hp _ => h1.rest p hp⟩
  have hall : ∀ s2, Writes target s1 s2 →
      s2.left = s.left ∧ s2.files.get archive ≠ some .dir ∧ Untouched archive target s s2 := fun s2 h2 =>
    ⟨h2.left.trans h1.left, h2.get_ne_dir (h1.file hdir), fun p hp ht => (h2.rest p ht).trans (h1.rest p hp)⟩
  refine Does.bind ((does_encryptFile hgpg htarget archive recipients _ trustConfirmed s1).mono (fun _ _ h => h)
    fun _ s2 h2 => hall s2 h2) fun _ s2 h2 => ?_
  exact .pure (hall s2 h2)

/-- **Nothing is left of an encryption but the encrypted file**, however the call
ends; the archive is gone unless it cannot be removed, or the call ended when the
new file could not be closed. -/
theorem tidy_encryptFolder (hgpg : env.gpg.WritesOutput) (strength : KeyInfo Time → KeyStrength) (tar : Tarfile)
    (temp : FileName) (parent : List Str) (found : Option Folder) {target : List Str} (htarget : ∀ a ∈ target, IsName a)
    (recipientFingerprints : List Str) (passphrase : Option Bytes) (trustConfirmed : Bool) (w : World (OnDisk γ) Time) :
    (encryptFolder env strength tar temp parent found target recipientFingerprints passphrase trustConfirmed).Meets w
      (fun _ w' => Tidy (target.dropLast ++ [temp.val]) (· = target) w.disk w'.disk)
      fun _ w' => Tidy (target.dropLast ++ [temp.val]) (· = target) w.disk w'.disk := by
  have hkept : ∀ s : Extraction, Tidy (target.dropLast ++ [temp.val]) (· = target) s s := .refl _ _
  refine Does.bind (s := w.disk) (Q := fun _ s' => s' = w.disk)
    (.of_keeps steady_disk.syscall (fun _ => rfl) fun _ => hkept _) (fun _ s1 h1 => ?_) w rfl
  subst h1
  cases found with
  | none => exact .raise (hkept _)
  | some folder =>
    dsimp only
    by_cases hinside : parent ++ [folder.name.val] <+: target
    · rw [if_pos hinside]
      exact .raise (hkept _)
    rw [if_neg hinside]
    refine Does.bind (Q := fun _ s' => s' = w.disk) (.of_keeps (keeps_ofExcept _) (fun _ => rfl) fun _ => hkept _)
      fun recipients s1 h1 => ?_
    subst h1
    refine Does.bind (Q := fun _ s' => s' = w.disk)
      (.of_keeps (keeps_disk_checkMode hgpg recipients passphrase trustConfirmed) (fun _ => rfl) fun _ => hkept _)
      fun _ s1 h1 => ?_
    subst h1
    have hstable : ∀ s2 s3, Elsewhere (target.dropLast ++ [temp.val]) s2 s3 →
        Untouched (target.dropLast ++ [temp.val]) target w.disk s2 →
        Untouched (target.dropLast ++ [temp.val]) target w.disk s3 := fun s2 s3 h h2 p hp ht =>
      (h.rest p hp).trans (h2 p hp ht)
    have hfile : Does (withTempFile target.dropLast temp
        (packAndEncrypt env tar folder target recipients passphrase trustConfirmed)) w.disk
        (fun _ s' => Gone (target.dropLast ++ [temp.val]) w.disk s' ∧
          Untouched (target.dropLast ++ [temp.val]) target w.disk s')
        fun _ s' => Gone (target.dropLast ++ [temp.val]) w.disk s' ∧
          Untouched (target.dropLast ++ [temp.val]) target w.disk s' := by
      refine does_withTempFile rfl (fun _ s' h p hp _ => h.rest p hp) (fun s1 h1 hempty => ?_)
        (fun _ => hstable) fun _ => hstable
      have hall : ∀ s2, s2.left = s1.left ∧ s2.files.get (target.dropLast ++ [temp.val]) ≠ some .dir ∧
          Untouched (target.dropLast ++ [temp.val]) target s1 s2 →
          s2.left = w.disk.left ∧ s2.files.get (target.dropLast ++ [temp.val]) ≠ some .dir ∧
          Untouched (target.dropLast ++ [temp.val]) target w.disk s2 := fun s2 h2 =>
        ⟨h2.1.trans h1.left, h2.2.1, fun p hp ht => (h2.2.2 p hp ht).trans (h1.rest p hp)⟩
      exact (does_packAndEncrypt hgpg tar folder htarget recipients passphrase trustConfirmed hempty).mono
        (fun _ => hall) fun _ => hall
    refine Does.bind (hfile.mono (fun _ _ h => h) fun _ s2 h2 => ⟨h2.1, h2.2⟩) fun fileCount s2 h2 => ?_
    have htidy : Tidy (target.dropLast ++ [temp.val]) (· = target) w.disk s2 := ⟨h2.1, h2.2⟩
    refine Does.bind (Q := fun _ s' => s' = s2) (.of_keeps (steady_disk.emit _ _ _ _) (fun _ => rfl) fun _ => htidy)
      fun _ s3 h3 => ?_
    subst h3
    exact .pure htidy

/-! ### Unpacking -/

/-- At this path everything is as it was, but for what is new in the staging
directory and cannot be removed. -/
abbrev Leftover (staging : List Str) (s s' : Extraction) (p : List Str) : Prop :=
  KeptBut staging s.left s.files s'.files p

theorem Leftover.of_same {s s1 s2 : Extraction} {staging p : List Str} (hleft : s1.left = s.left)
    (hfiles : s1.files = s.files) (h : Leftover staging s1 s2 p) : Leftover staging s s2 p := by
  have hkept : KeptBut staging s1.left s1.files s2.files p := h
  rwa [hleft, hfiles] at hkept

theorem keeps_left_call (path : List Str) (whole : Files → Option Files) (part : ℕ → Files → Option Files) :
    Keeps Extraction.left (call path whole part) := by
  intro s
  unfold after call
  simp only [EStateM.run]
  cases s.faults 0 with
  | some fault => rfl
  | none => cases whole s.files <;> rfl

theorem keeps_left_extractMembers (staging : List Str) : ∀ members : List Member,
    Keeps Extraction.left (FolderExtract.extractMembers staging members)
  | [] => keeps_pure _
  | member :: members => by
    refine Keeps.bind ?_ fun _ => keeps_left_extractMembers staging members
    refine (keeps_left_call _ _ _).bind fun _ => (keeps_raise _).ite ((keeps_left_call _ _ _).ite ?_)
    refine (keeps_left_call _ _ _).bind fun _ => ?_
    cases extractfile member with
    | none => exact keeps_raise _
    | some data => exact keeps_left_call _ _ _

theorem keeps_left_extract (members : List Member) (destination : List Str) (temp : FileName) :
    Keeps Extraction.left (FolderExtract.extract members destination temp) := by
  refine (keeps_ofExcept _).bind fun root => (keeps_left_call _ _ _).bind fun _ => keeps_get.bind fun t => ?_
  refine (keeps_raise _).ite (Keeps.bind ?_ fun _ => Keeps.bind ?_ fun _ => keeps_pure _)
  · exact keeps_get.bind fun t => (keeps_left_call _ _ _).ite (keeps_raise _)
  · have hbody := (keeps_left_extractMembers (destination ++ [temp.val]) members).bind fun _ =>
      keeps_left_call [] (·.rename (destination ++ [temp.val] ++ [root]) (destination ++ [root])) fun _ => some
    intro s
    have hs := hbody s
    unfold after at hs ⊢
    rw [run_ensuring]
    unfold extractFolder FolderExtract.rename
    cases hr : (FolderExtract.extractMembers (destination ++ [temp.val]) members >>= fun _ =>
        call [] (·.rename (destination ++ [temp.val] ++ [root]) (destination ++ [root])) fun _ => some).run s with
    | ok a s1 =>
      rw [hr] at hs
      exact hs
    | error e s1 =>
      rw [hr] at hs
      exact hs

/-- How an extraction ends. -/
theorem meets_extract (members : List Member) (destination : List Str) (temp : FileName) (s : Extraction) :
    (FolderExtract.extract members destination temp).Meets s
      (fun final s' => s.files.get final = none ∧ s'.files.get final = some .dir ∧
        ∀ p, ¬ final <+: p → Leftover (destination ++ [temp.val]) s s' p)
      fun _ s' => ∀ p, Leftover (destination ++ [temp.val]) s s' p := by
  have hsame : ∀ s1 : Extraction, s1.files = s.files → ∀ p, Leftover (destination ++ [temp.val]) s s1 p :=
    fun s1 h p => .inl (by rw [h])
  unfold FolderExtract.extract
  rw [meets_bind]
  cases hroot : archiveRoot members with
  | error e => exact hsame s rfl
  | ok root =>
    rw [meets_ofExcept_ok]
    dsimp only
    rw [meets_bind]
    refine (meets_probe s).mono (fun _ s1 h1 => ?_) fun _ s1 h1 => hsame s1 h1.1.2
    obtain ⟨hleft, hfiles⟩ := h1
    rw [meets_bind, meets_get]
    by_cases hexists : (s1.files.get (destination ++ [root])).isSome = true
    · rw [if_pos hexists]
      exact hsame s1 hfiles
    · rw [if_neg hexists]
      refine (meets_staged hroot (Option.not_isSome_iff_eq_none.mp hexists)).mono (fun final s2 h2 => ?_) fun _ s2 h2 => ?_
      · have hrest := h2.rest
        rw [hleft, hfiles] at hrest
        exact ⟨hfiles ▸ h2.new, h2.dir, hrest⟩
      · have hrest := h2.rest
        rwa [hleft, hfiles] at hrest

/-- Where there is a file it stays, since only what is new changes. -/
theorem get_of_leftover {s s' : Extraction} {staging archive : List Str} {data : Bytes}
    (hfile : s.files.get archive = some (.file data)) (h : Leftover staging s s' archive) :
    s'.files.get archive = some (.file data) := by
  rcases h with h | ⟨hnone, -⟩
  · rw [h, hfile]
  · rw [hfile] at hnone
    cases hnone

/-- What is new has no file above it or at it. -/
theorem not_prefix_of_new {t : Files} {final archive : List Str} {data : Bytes} (hnew : t.get final = none)
    (hfile : t.get archive = some (.file data)) : ¬ final <+: archive := by
  rintro ⟨r, rfl⟩
  by_cases hr : r = []
  · rw [hr, List.append_nil, hnew] at hfile
    cases hfile
  · rw [FileTree.get_of_append_ne_none hr (by rw [hfile]; simp)] at hnew
    cases hnew

/-- How unpacking an archive ends: the archive itself is left to its owner. -/
theorem meets_unpackFrom (tar : Tarfile) (archive destination : List Str) (staging : FileName) (s : Extraction)
    (hdir : s.files.get archive ≠ some .dir) :
    (unpackFrom tar archive destination staging).Meets s
      (fun final s' => s'.left = s.left ∧ s'.files.get archive ≠ some .dir ∧ final ≠ archive ∧
        s.files.get final = none ∧ s'.files.get final = some .dir ∧
        ∀ p, ¬ final <+: p → Leftover (destination ++ [staging.val]) s s' p)
      fun _ s' => s'.left = s.left ∧ s'.files.get archive ≠ some .dir ∧
        ∀ p, Leftover (destination ++ [staging.val]) s s' p := by
  have hsame : ∀ s1 : Extraction, s1.left = s.left → s1.files = s.files → s1.left = s.left ∧
      s1.files.get archive ≠ some .dir ∧ ∀ p, Leftover (destination ++ [staging.val]) s s1 p :=
    fun s1 hleft hfiles => ⟨hleft, hfiles ▸ hdir, fun p => .inl (by rw [hfiles])⟩
  unfold unpackFrom
  rw [meets_bind]
  refine (meets_probe s).mono (fun _ s1 h1 => ?_) fun _ s1 h1 => hsame s1 h1.1.1 h1.1.2
  obtain ⟨hleft, hfiles⟩ := h1
  rw [meets_bind, meets_get]
  cases hget : s1.files.get archive with
  | none => exact hsame s1 hleft hfiles
  | some entry =>
    cases entry with
    | dir => exact hsame s1 hleft hfiles
    | file data =>
      dsimp only
      cases tar.read data with
      | none => exact hsame s1 hleft hfiles
      | some members =>
        have hkeeps := keeps_left_extract members destination staging
        have hends := meets_extract members destination staging s1
        have hfile : s.files.get archive = some (.file data) := hfiles ▸ hget
        unfold Meets at hends ⊢
        dsimp only
        cases hr : (FolderExtract.extract members destination staging).run s1 with
        | ok final s2 =>
          rw [hr] at hends
          obtain ⟨hnew, hdir2, hrest⟩ := hends
          have hrest' : ∀ p, ¬ final <+: p → Leftover (destination ++ [staging.val]) s s2 p := fun p hp =>
            (hrest p hp).of_same hleft hfiles
          rw [hfiles] at hnew
          have hout := not_prefix_of_new hnew hfile
          refine ⟨(hkeeps.of_run_eq_ok hr).trans hleft, ?_, ?_, hnew, hdir2, hrest'⟩
          · rw [get_of_leftover hfile (hrest' archive hout)]
            simp
          · rintro rfl
            exact hout List.prefix_rfl
        | error e s2 =>
          rw [hr] at hends
          have hrest : ∀ p, Leftover (destination ++ [staging.val]) s s2 p := fun p => (hends p).of_same hleft hfiles
          refine ⟨(hkeeps.of_run_eq_error hr).trans hleft, ?_, hrest⟩
          rw [get_of_leftover hfile (hrest archive)]
          simp

/-! ### Decrypting -/

theorem Leftover.of_elsewhere {s s1 s2 : Extraction} {staging archive p : List Str} (h : Elsewhere archive s s1)
    (hp : p ≠ archive) (hkept : Leftover staging s1 s2 p) : Leftover staging s s2 p := by
  unfold Leftover KeptBut at hkept ⊢
  rwa [h.left, h.rest p hp] at hkept

theorem Leftover.elsewhere {s s1 s2 : Extraction} {staging archive p : List Str} (h : Elsewhere archive s1 s2)
    (hp : p ≠ archive) (hkept : Leftover staging s s1 p) : Leftover staging s s2 p := by
  unfold Leftover KeptBut at hkept ⊢
  rwa [h.rest p hp]

/-- Besides the archive, a folder is new, and what could not be removed. -/
structure Unpacked (archive staging final : List Str) (s s' : Extraction) : Prop where
  ne : final ≠ archive
  new : s.files.get final = none
  dir : s'.files.get final = some .dir
  rest : ∀ p, p ≠ archive → ¬ final <+: p → Leftover staging s s' p

theorem does_decryptAndUnpack (hgpg : env.gpg.WritesOutput) (tar : Tarfile) (staging : FileName) (source : List Str)
    {destination archive : List Str} (harchive : ∀ a ∈ archive, IsName a) (passphrase : Option Bytes) {s s1 : Extraction}
    (helse : Elsewhere archive s s1) (hempty : s1.files.get archive = some (.file [])) :
    Does (decryptAndUnpack env tar staging source destination passphrase archive) s1
      (fun r s' => s'.left = s.left ∧ s'.files.get archive ≠ some .dir ∧
        Unpacked archive (destination ++ [staging.val]) r.folder s s')
      fun _ s' => s'.left = s.left ∧ s'.files.get archive ≠ some .dir ∧
        ∀ p, p ≠ archive → Leftover (destination ++ [staging.val]) s s' p := by
  have hdir : s1.files.get archive ≠ some .dir := by rw [hempty]; simp
  refine Does.bind ((does_decryptFile hgpg harchive source passphrase s1).mono (fun _ _ h => h) fun _ s2 h2 => ?_)
    fun decryptedWith s2 h2 => ?_
  · exact ⟨h2.left.trans helse.left, h2.file hdir, fun p hp => .inl ((h2.rest p hp).trans (helse.rest p hp))⟩
  have helse2 : Elsewhere archive s s2 := helse.trans h2.toElsewhere
  refine Does.bind (Does.onDisk ((meets_unpackFrom tar archive destination staging s2 (h2.file hdir)).mono
    (fun _ _ h => h) fun _ s3 h3 => ?_)) fun final s3 h3 => ?_
  · exact ⟨h3.1.trans helse2.left, h3.2.1, fun p hp => (h3.2.2 p).of_elsewhere helse2 hp⟩
  · obtain ⟨hleft, hdir3, hne, hnew, hfinal, hrest⟩ := h3
    rw [helse2.rest final hne] at hnew
    exact .pure ⟨hleft.trans helse2.left, hdir3, hne, hnew, hfinal, fun p hp hout => (hrest p hout).of_elsewhere helse2 hp⟩

/-- What is new in the staging directory and cannot be removed. -/
def Stuck (staging : List Str) (s : Extraction) (p : List Str) : Prop :=
  s.files.get p = none ∧ staging <+: p ∧ ∃ q ∈ s.left, p <+: q

/-- The folder is new, and nothing else is, but for what is stuck. -/
structure Restored (archive staging final : List Str) (s s' : Extraction) : Prop
    extends Tidy archive (fun p => final <+: p ∨ Stuck staging s p) s s' where
  new : s.files.get final = none
  dir : s'.files.get final = some .dir

/-- **Nothing is left of a decryption but the folder**, which is new, and nothing
at all if it fails, unless all that failed is the record of it. The archive is
gone unless it cannot be removed, or could not be closed when it was new. -/
theorem tidy_decryptFolder (hgpg : env.gpg.WritesOutput) (tar : Tarfile) (temp staging : FileName) (source : List Str)
    {destination : List Str} (hdestination : ∀ a ∈ destination, IsName a) (passphrase : Option Bytes)
    (w : World (OnDisk γ) Time) :
    (decryptFolder env tar temp staging source destination passphrase).Meets w
      (fun r w' => Restored (destination ++ [temp.val]) (destination ++ [staging.val]) r.folder w.disk w'.disk)
      fun _ w' => Tidy (destination ++ [temp.val]) (Stuck (destination ++ [staging.val]) w.disk) w.disk w'.disk ∨
        ∃ folder, Restored (destination ++ [temp.val]) (destination ++ [staging.val]) folder w.disk w'.disk := by
  have hkept : Tidy (destination ++ [temp.val]) (Stuck (destination ++ [staging.val]) w.disk) w.disk w.disk := .refl _ _ _
  have harchive : ∀ a ∈ destination ++ [temp.val], IsName a :=
    List.forall_mem_append.mpr ⟨hdestination, List.forall_mem_singleton.mpr ⟨temp, rfl⟩⟩
  suffices hdoes : Does (decryptFolder env tar temp staging source destination passphrase) w.disk
      (fun r s' => Restored (destination ++ [temp.val]) (destination ++ [staging.val]) r.folder w.disk s')
      fun _ s' => Tidy (destination ++ [temp.val]) (Stuck (destination ++ [staging.val]) w.disk) w.disk s' ∨
        ∃ folder, Restored (destination ++ [temp.val]) (destination ++ [staging.val]) folder w.disk s' from hdoes w rfl
  refine Does.bind (Q := fun _ s' => s' = w.disk)
    (.of_keeps steady_disk.syscall (fun _ => rfl) fun _ => .inl hkept) fun _ s1 h1 => ?_
  subst h1
  refine Does.bind (Q := fun _ s' => s' = w.disk) (.of_keeps keeps_get (fun _ => rfl) fun _ => .inl hkept) fun v s1 h1 => ?_
  subst h1
  dsimp only
  by_cases hsource : v.disk.files.isFile source = false
  · rw [if_pos hsource]
    exact .raise (.inl hkept)
  rw [if_neg hsource]
  by_cases hdir : v.disk.files.isDir destination = false
  · rw [if_pos hdir]
    exact .raise (.inl hkept)
  rw [if_neg hdir]
  have hcall : Does (withTempFile destination temp (decryptAndUnpack env tar staging source destination passphrase)) w.disk
      (fun r s' => Gone (destination ++ [temp.val]) w.disk s' ∧
        Unpacked (destination ++ [temp.val]) (destination ++ [staging.val]) r.folder w.disk s')
      fun _ s' => Gone (destination ++ [temp.val]) w.disk s' ∧
        ∀ p, p ≠ destination ++ [temp.val] → Leftover (destination ++ [staging.val]) w.disk s' p := by
    refine does_withTempFile rfl (fun _ s' h p hp => .inl (h.rest p hp))
      (fun s1 h1 hempty => does_decryptAndUnpack hgpg tar staging source harchive passphrase h1 hempty)
      (fun r s2 s3 h h2 => ?_) fun _ s2 s3 h h2 p hp => (h2 p hp).elsewhere h hp
    exact ⟨h2.ne, h2.new, (h.rest _ h2.ne).trans h2.dir, fun p hp hout => (h2.rest p hp hout).elsewhere h hp⟩
  have hdone : Does (withTempFile destination temp (decryptAndUnpack env tar staging source destination passphrase)) w.disk
      (fun r s' => Restored (destination ++ [temp.val]) (destination ++ [staging.val]) r.folder w.disk s')
      fun _ s' => Tidy (destination ++ [temp.val]) (Stuck (destination ++ [staging.val]) w.disk) w.disk s' := by
    refine hcall.mono (fun r s2 h2 => ?_) fun _ s2 h2 => ⟨h2.1, fun p hp hstuck => (h2.2 p hp).resolve_right hstuck⟩
    obtain ⟨hgone, hunpacked⟩ := h2
    refine ⟨⟨hgone, fun p hp hout => ?_⟩, hunpacked.new, hunpacked.dir⟩
    obtain ⟨hfinal, hstuck⟩ := not_or.mp hout
    exact (hunpacked.rest p hp hfinal).resolve_right hstuck
  refine Does.bind (Does.catching hdone fun e s2 h2 => ?_) fun r s2 h2 => ?_
  · refine Does.bind (Q := fun _ s' => s' = s2)
      (.of_keeps (steady_disk.emit _ _ _ _) (fun _ => rfl) fun _ => .inl h2) fun _ s3 h3 => ?_
    subst h3
    exact .raise (.inl h2)
  · refine Does.bind (Q := fun _ s' => s' = s2)
      (.of_keeps (steady_disk.emit _ _ _ _) (fun _ => rfl) fun _ => .inr ⟨r.folder, h2⟩) fun _ s3 h3 => ?_
    subst h3
    exact .pure h2

end Whole

/-! ### One folder -/

theorem relativeParts_slash_cons (s : Str) : relativeParts (slash :: s) = relativeParts s := by
  have hsplit : (slash :: s).splitOn slash = [] :: s.splitOn slash :=
    List.splitOn_append_cons_self_of_not_mem List.not_mem_nil s
  simp [relativeParts, hsplit]

/-- The text of a path tells the path. -/
theorem relativeParts_pathText {path : List Str} (h : ∀ a ∈ path, IsName a) : relativeParts (pathText path) = path := by
  rw [pathText, relativeParts_slash_cons]
  by_cases hnil : path = []
  · rw [hnil]
    rfl
  · exact relativeParts_nameOf hnil h

/-- A file is written, or left as it is where that cannot be done. -/
def written (t : Files) (path : List Str) (data : Bytes) : Files :=
  ((t.create path data).or (t.overwrite path data)).getD t

theorem get_written (t : Files) (path : List Str) (data : Bytes) :
    (∀ p, p ≠ path → (written t path data).get p = t.get p) ∧
      (t.get path ≠ some .dir → (written t path data).get path ≠ some .dir) := by
  unfold written
  cases hcreate : t.create path data with
  | some t' =>
    have hget := (FileTree.get_create hcreate).2
    simp only [Option.some_or, Option.getD_some, hget]
    exact ⟨fun p hp => Function.update_of_ne hp _ _, fun _ => by simp⟩
  | none =>
    cases hover : t.overwrite path data with
    | some t' =>
      have hget := (FileTree.get_overwrite hover).2
      simp only [Option.none_or, Option.getD_some, hget]
      exact ⟨fun p hp => Function.update_of_ne hp _ _, fun _ => by simp⟩
    | none => exact ⟨fun _ _ => rfl, id⟩

/-- No keys. What is encrypted is one octet, and what is decrypted another. -/
def writingGnuPG : GnuPG (OnDisk Unit) Unit where
  baseCmd := [lit "gpg"]
  pipes _ := (lit "3", lit "4")
  popen args _ _ g :=
    (.ok { returncode := 0 },
      ((), { g.2 with
        files := ((outputOf args).map fun text =>
          written g.2.files (relativeParts text) (if lit "--decrypt" ∈ args then [2] else [1])).getD g.2.files }))
  listKeys _ g := (.ok [], g)

theorem writesOutput_writingGnuPG : writingGnuPG.WritesOutput where
  listKeys _ _ := rfl
  popen args input passphrase g path hpath hargs := by
    refine ⟨_, rfl, ?_⟩
    rw [hargs, Option.map_some, Option.getD_some, relativeParts_pathText hpath]
    exact get_written _ _ _

/-- An archive of the folder with two files is this octet. -/
def oneArchive : Tarfile where
  write _ := [2]
  torn _ := []
  read data := if data = [2] then some (linkedMembers 1) else none

/-- There is the directory `o`, with the file `o/e` in it. -/
def oneFile : FolderExtract.Extraction where
  files := written (onlyDir [lit "o"]) [lit "o", lit "e"] [1]

theorem tidy_encryptFolder_sample : ∃ target w', (encryptFolder (samplePlatform writingGnuPG) (fun _ => ⟨.rsa, 3072⟩)
    oneArchive (letter 0x74) [] (some (linked 1)) [lit "o", lit "n"] [] (some [7]) false).run
      (sampleWorld ((), oneFile) fun _ => none) = .ok target w' ∧
    Tidy [lit "o", lit "t"] (· = [lit "o", lit "n"]) oneFile w'.disk := by
  have hreturns : returns (fun _ w' => w'.disk.files.get [lit "o", lit "n"] = some (.file [1]))
      (encryptFolder (samplePlatform writingGnuPG) (fun _ => ⟨.rsa, 3072⟩) oneArchive (letter 0x74) [] (some (linked 1))
        [lit "o", lit "n"] [] (some [7]) false) (sampleWorld ((), oneFile) fun _ => none) = true := by
    decide +kernel
  obtain ⟨target, w', hrun, -⟩ := returns_eq_true.mp hreturns
  have htarget : ∀ a ∈ [lit "o", lit "n"], IsName a :=
    List.forall_mem_cons.mpr ⟨⟨letter 0x6F, rfl⟩, List.forall_mem_singleton.mpr ⟨letter 0x6E, rfl⟩⟩
  have hgpg : (samplePlatform writingGnuPG).gpg.WritesOutput := writesOutput_writingGnuPG
  exact ⟨target, w', hrun, (tidy_encryptFolder hgpg _ oneArchive (letter 0x74) [] (some (linked 1)) htarget [] (some [7])
    false _).of_run_eq_ok hrun⟩

theorem tidy_decryptFolder_sample : ∃ r w', (decryptFolder (samplePlatform writingGnuPG) oneArchive (letter 0x74)
    (letter 0x73) [lit "o", lit "e"] [lit "o"] none).run (sampleWorld ((), oneFile) fun _ => none) = .ok r w' ∧
    r.folder = [lit "o", lit "d"] ∧
    Restored [lit "o", lit "t"] [lit "o", lit "s"] r.folder oneFile w'.disk := by
  have hreturns : returns (fun r _ => r.folder = [lit "o", lit "d"])
      (decryptFolder (samplePlatform writingGnuPG) oneArchive (letter 0x74) (letter 0x73) [lit "o", lit "e"] [lit "o"] none)
      (sampleWorld ((), oneFile) fun _ => none) = true := by
    decide +kernel
  obtain ⟨r, w', hrun, hfolder⟩ := returns_eq_true.mp hreturns
  have hdestination : ∀ a ∈ [lit "o"], IsName a := List.forall_mem_singleton.mpr ⟨letter 0x6F, rfl⟩
  have hgpg : (samplePlatform writingGnuPG).gpg.WritesOutput := writesOutput_writingGnuPG
  exact ⟨r, w', hrun, of_decide_eq_true hfolder, (tidy_decryptFolder hgpg oneArchive (letter 0x74) (letter 0x73)
    [lit "o", lit "e"] hdestination none _).of_run_eq_ok hrun⟩

end FolderService
end GpgMeister
