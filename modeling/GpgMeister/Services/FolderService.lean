/-
# Whole folders

`services/folder_service.py`: a folder is packed into an archive (`pack`), and
an archive is unpacked into a destination (`unpack`), through a staging
directory. An archive is the list of its members; `tarfile` makes a link member
of a file that it has added under another name.
-/
import GpgMeister.Errors
import GpgMeister.Lib.FileTree
import GpgMeister.Lib.Program
import GpgMeister.Models.KeyInfo

namespace GpgMeister
namespace FolderService

def slash : CodePoint := 0x2F
def backslash : CodePoint := 0x5C
def dot : CodePoint := 0x2E

/-! ### Folders -/

/-- A name that a POSIX file system allows. -/
structure FileName where
  val : Str
  ne_nil : val ≠ []
  ne_dot : val ≠ [dot]
  ne_dotdot : val ≠ [dot, dot]
  slash_not_mem : slash ∉ val
  nul_not_mem : 0 ∉ val
  deriving DecidableEq

inductive SpecialKind
  | fifo
  | characterDevice
  | blockDevice
  | socket
  deriving DecidableEq

/-- What a name stands for. The names of a file with several hard links stand
for one inode. -/
inductive Node
  | dir (entries : List (FileName × Node))
  | file (inode : ℕ)
  | symlink
  | special (kind : SpecialKind)

mutual

/-- The entries of every directory are in the order of their names, which is
that of `sorted(os.listdir(…))`; no name occurs twice. -/
def Node.Sorted : Node → Prop
  | .dir entries => SortedEntries entries
  | _ => True

def SortedEntries : List (FileName × Node) → Prop
  | [] => True
  | (name, node) :: entries =>
    (∀ e ∈ entries, Json.keyLe e.1.val name.val = false) ∧ node.Sorted ∧ SortedEntries entries

end

/-- A folder, and what its files hold; a file that cannot be read raises. -/
structure Folder where
  name : FileName
  entries : List (FileName × Node)
  sorted : SortedEntries entries
  content : ℕ → Except Exc Bytes

/-! ### Archives -/

/-- The types of members. -/
inductive MemberType
  | reg
  | dir
  | link (linkname : Str)
  | symlink
  | fifo
  | characterDevice
  | blockDevice
  deriving DecidableEq

/-- `TarInfo` -/
structure TarInfo where
  name : Str
  type : MemberType
  deriving DecidableEq

def TarInfo.isfile (info : TarInfo) : Bool := info.type = .reg

def TarInfo.isdir (info : TarInfo) : Bool := info.type = .dir

structure Member extends TarInfo where
  data : Bytes := []
  deriving DecidableEq

/-! ### Packing -/

/-- A `TarFile` that is written, with `file_count`: the inodes that have been
added and their names, and the members. -/
structure Packing where
  inodes : List (ℕ × Str) := []
  members : List Member := []
  fileCount : ℕ := 0

/-- `TarFile.gettarinfo`; `None` for a socket. -/
def gettarinfo (arcname : Str) : Node → Program Packing Exc (Option TarInfo)
  | .dir _ => return some { name := arcname, type := .dir }
  | .file inode => do
    match (← get).inodes.lookup inode with
    | some linkname => return some { name := arcname, type := .link linkname }
    | none => do
      modify fun p => { p with inodes := p.inodes ++ [(inode, arcname)] }
      return some { name := arcname, type := .reg }
  | .symlink => return some { name := arcname, type := .symlink }
  | .special .fifo => return some { name := arcname, type := .fifo }
  | .special .characterDevice => return some { name := arcname, type := .characterDevice }
  | .special .blockDevice => return some { name := arcname, type := .blockDevice }
  | .special .socket => return none

/-- `_regular_only` -/
def regularOnly (info : TarInfo) : Program Packing Exc (Option TarInfo) := do
  if info.isfile then do
    modify fun p => { p with fileCount := p.fileCount + 1 }
    return some info
  else if info.isdir then return some info
  else return none

/-- `TarFile.addfile` -/
def addfile (info : TarInfo) (data : Bytes) : Program Packing Exc Unit :=
  modify fun p => { p with members := p.members ++ [{ info with data }] }

/-- What is read from an open file. -/
def readNode (content : ℕ → Except Exc Bytes) : Node → Except Exc Bytes
  | .file inode => content inode
  | _ => .ok []

/-- What `TarFile.add` does with one name: whether it goes on to the entries. -/
def addOne (content : ℕ → Except Exc Bytes) (arcname : Str) (node : Node) : Program Packing Exc Bool := do
  match ← gettarinfo arcname node with
  | none => return false
  | some info =>
    match ← regularOnly info with
    | none => return false
    | some info =>
      if info.isfile then do
        let data ← Program.ofExcept (readNode content node)
        addfile info data
        return false
      else do
        addfile info []
        return info.isdir

/-- `os.path.join(arcname, name)` -/
def joinName (arcname : Str) (name : FileName) : Str := arcname ++ slash :: name.val

mutual

/-- `TarFile.add` with `_regular_only` as its filter -/
def add (content : ℕ → Except Exc Bytes) : Str → Node → Program Packing Exc Unit
  | arcname, .dir entries => do
    if ← addOne content arcname (.dir entries) then addEntries content arcname entries
  | arcname, node => do
    let _ ← addOne content arcname node

def addEntries (content : ℕ → Except Exc Bytes) : Str → List (FileName × Node) → Program Packing Exc Unit
  | _, [] => return
  | arcname, (name, node) :: entries => do
    add content (joinName arcname name) node
    addEntries content arcname entries

end

/-- `_pack`: the archive, and the number of its files. -/
def pack (folder : Folder) : Except Exc (List Member × ℕ) :=
  match (add folder.content folder.name.val (.dir folder.entries)).run {} with
  | .ok _ p => .ok (p.members, p.fileCount)
  | .error e _ => .error e

/-! ### Paths -/

/-- `path.is_absolute()` -/
def isAbsolute (name : Str) : Bool := name.head? = some slash

/-- The parts of a path after its root. -/
def relativeParts (name : Str) : List Str := (name.splitOn slash).filter fun part => part ≠ [] ∧ part ≠ [dot]

/-- `PurePosixPath(name).parts`; two slashes in front are a root of their own. -/
def pathParts (name : Str) : List Str :=
  if isAbsolute name then
    (if [slash, slash].isPrefixOf name ∧ ¬ [slash, slash, slash].isPrefixOf name then [slash, slash] else [slash]) ::
      relativeParts name
  else relativeParts name

/-- `path / name`, on the parts after the root -/
def joinPath (path : List Str) (name : Str) : List Str :=
  if isAbsolute name then relativeParts name else path ++ relativeParts name

/-- `path.resolve()`, where there are no symlinks -/
def resolve (path : List Str) : List Str :=
  path.foldl (fun done part => if part = [dot, dot] then done.dropLast else done ++ [part]) []

/-! ### Unpacking -/

/-- The files of the destination, at their absolute paths. -/
abbrev Files := FileTree Str Bytes

def unsafePath : Exc where
  cls := .valueError
  message := lit "the encrypted folder contains an unsafe path"

def notOneFolder : Exc where
  cls := .valueError
  message := lit "the encrypted folder must contain exactly one top-level folder"

/-- The folder that a member lies under. -/
def memberRoot (member : Member) : Except Exc Str :=
  if ¬ (member.isfile = true ∨ member.isdir = true) then
    .error { cls := .valueError, message := lit "the encrypted folder contains links or special files" }
  else if isAbsolute member.name = true ∨ [dot, dot] ∈ pathParts member.name ∨ backslash ∈ member.name then
    .error unsafePath
  else
    match pathParts member.name with
    | part :: _ => .ok part
    | [] => .error { cls := .indexError, message := lit "tuple index out of range" }

/-- `_archive_root` -/
def archiveRoot (members : List Member) : Except Exc Str :=
  match members with
  | [] => .error { cls := .valueError, message := lit "the encrypted folder is empty" }
  | first :: _ => do
    let roots ← members.mapM memberRoot
    match roots.dedup with
    | [root] => if first.isdir = true ∧ first.name = root then .ok root else .error notOneFolder
    | _ => .error notOneFolder

/-- A call that changes the files or fails. -/
def fileCall (f : Files → Option Files) : Program Files Exc Unit := fun t =>
  match f t with
  | some t' => .ok () t'
  | none => .error { cls := .osError, message := [] } t

/-- `path.mkdir(parents=True, exist_ok=True)` -/
def mkdir (path : List Str) : Program Files Exc Unit := fileCall (·.mkdirs path)

/-- `tempfile.mkdtemp(dir=destination)`, which takes this name. -/
def mkdtemp (destination : List Str) (temp : FileName) : Program Files Exc Unit := do
  let t ← get
  if t.isDir destination = true ∧ (t.get (destination ++ [temp.val])).isNone = true then mkdir (destination ++ [temp.val])
  else Program.raise { cls := .osError, message := [] }

/-- `tar.extractfile(member)`, of a member that is no link -/
def extractfile (member : Member) : Option Bytes := if member.isfile then some member.data else none

/-- One member, below the staging directory. -/
def extractMember (staging : List Str) (member : Member) : Program Files Exc Unit :=
  let path := resolve (joinPath staging member.name)
  if ¬ staging <+: path then Program.raise unsafePath
  else if member.isdir then mkdir path
  else do
    mkdir path.dropLast
    match extractfile member with
    | none => Program.raise { cls := .valueError, message := lit "the encrypted folder is damaged" }
    | some data => fileCall (·.create path data)

def extractMembers (staging : List Str) : List Member → Program Files Exc Unit
  | [] => return
  | member :: members => do
    extractMember staging member
    extractMembers staging members

/-- `_extract`; `temp` is the name that `mkdtemp` takes. -/
def extract (members : List Member) (destination : List Str) (temp : FileName) : Program Files Exc (List Str) := do
  let root ← Program.ofExcept (archiveRoot members)
  let final := destination ++ [root]
  if ((← get).get final).isSome then
    Program.raise
      { cls := .valueError
        message := lit "\"" ++ root ++ lit "\" already exists in the destination folder" }
  else do
    let staging := destination ++ [temp.val]
    mkdtemp destination temp
    Program.ensuring
      (do
        extractMembers staging members
        fileCall (·.rename (staging ++ [root]) final))
      (modify (·.removeTree staging))
    return final

/-- `_unpack`, of an archive that can be read -/
def unpack (members : List Member) (destination : List Str) (temp : FileName) : Program Files Exc (List Str) :=
  extract members destination temp

end FolderService
end GpgMeister
