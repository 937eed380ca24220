/-
# Unpacking, with calls that fail

`_extract` of `services/folder_service.py` once more, now with calls of the
operating system that may fail, having done a part of their work, and with a
removal of the staging directory whose errors are ignored.

* `contained`: everything is made below the staging directory; on success the
  folder of the archive is new in the destination; and but for what cannot be
  removed from the staging directory, nothing else changes, however the run
  ends.
* `agree_extract`: where nothing fails, it is the extraction of `FolderService`.
-/
import GpgMeister.Lib.Agree
import GpgMeister.Services.ArchiveRoot
import GpgMeister.Services.FolderRoundTrip

namespace GpgMeister
namespace FolderExtract

open FolderService hiding mkdir mkdtemp extractMember extractMembers extract
open Program (raise)

/-! ### Calls -/

/-- How a call fails, and how much of it has been done. -/
structure Fault where
  raised : Exc
  done : ℕ

/-- The files, what has been made so far, how the calls to come fail, and what
cannot be removed. -/
structure Extraction where
  files : Files
  created : List (List Str) := []
  faults : ℕ → Option Fault := fun _ => none
  left : List (List Str) := []

/-- The files after a call that has made what is new on the way to the path. -/
def Extraction.write (s : Extraction) (path : List Str) (t : Files) : Extraction :=
  { s with
    files := t
    created := s.created ++ path.inits.filter fun p => (s.files.get p).isNone && (t.get p).isSome
    faults := fun n => s.faults (n + 1) }

/-- A call that changes the files, on the way to the path, or fails. -/
def call (path : List Str) (whole : Files → Option Files) (part : ℕ → Files → Option Files) :
    Program Extraction Exc Unit := fun s =>
  match s.faults 0 with
  | some fault => .error fault.raised (s.write path ((part fault.done s.files).getD s.files))
  | none =>
    match whole s.files with
    | some t => .ok () (s.write path t)
    | none => .error { cls := .osError, message := [] } (s.write path s.files)

/-- A call that changes nothing. -/
def probe : Program Extraction Exc Unit := call [] some fun _ => some

/-- `path.mkdir(parents=True, exist_ok=True)` -/
def mkdir (path : List Str) : Program Extraction Exc Unit :=
  call path (·.mkdirs path) fun n t => t.mkdirs (path.take n)

/-- A new file is opened, and the data is copied into it. -/
def createFile (path : List Str) (data : Bytes) : Program Extraction Exc Unit :=
  call path (·.create path data) fun
    | 0, t => some t
    | n + 1, t => t.create path (data.take n)

/-- `source.rename(target)` -/
def rename (source target : List Str) : Program Extraction Exc Unit :=
  call [] (·.rename source target) fun _ => some

/-- `tempfile.mkdtemp(dir=destination)`, which takes this name. -/
def mkdtemp (destination : List Str) (temp : FileName) : Program Extraction Exc Unit := do
  let t := (← get).files
  if t.isDir destination = true ∧ (t.get (destination ++ [temp.val])).isNone = true then
    call (destination ++ [temp.val]) (·.mkdirs (destination ++ [temp.val])) fun _ => some
  else raise { cls := .osError, message := [] }

/-- `shutil.rmtree(staging, ignore_errors=True)` -/
def rmtree (staging : List Str) : Program Extraction Exc Unit :=
  modify fun s => { s with files := s.files.removeTreeBut staging s.left }

/-! ### Extraction -/

/-- One member, below the staging directory. -/
def extractMember (staging : List Str) (member : Member) : Program Extraction Exc Unit := do
  probe
  let path := resolve (joinPath staging member.name)
  if ¬ staging <+: path then raise unsafePath
  else if member.isdir then mkdir path
  else do
    mkdir path.dropLast
    match extractfile member with
    | none => raise { cls := .valueError, message := lit "the encrypted folder is damaged" }
    | some data => createFile path data

def extractMembers (staging : List Str) : List Member → Program Extraction Exc Unit
  | [] => return
  | member :: members => do
    extractMember staging member
    extractMembers staging members

/-- The body of the `try`. -/
def extractFolder (staging final : List Str) (root : Str) (members : List Member) : Program Extraction Exc Unit := do
  extractMembers staging members
  rename (staging ++ [root]) final

/-- `_extract`; `temp` is the name that `mkdtemp` takes. -/
def extract (members : List Member) (destination : List Str) (temp : FileName) :
    Program Extraction Exc (List Str) := do
  let root ← Program.ofExcept (archiveRoot members)
  let final := destination ++ [root]
  probe
  if ((← get).files.get final).isSome then
    raise
      { cls := .valueError
        message := lit "\"" ++ root ++ lit "\" already exists in the destination folder" }
  else do
    let staging := destination ++ [temp.val]
    mkdtemp destination temp
    Program.ensuring (extractFolder staging final root members) (rmtree staging)
    return final

/-! ### What a step does -/

/-- Nothing is changed or gone, and what is new lies below the path. -/
def NewBelow (top : List Str) (t t' : Files) : Prop := ∀ p, t'.get p ≠ t.get p → t.get p = none ∧ top <+: p

theorem NewBelow.refl (top : List Str) (t : Files) : NewBelow top t t := fun _ h => absurd rfl h

theorem NewBelow.trans {top : List Str} {t t1 t2 : Files} (h1 : NewBelow top t t1) (h2 : NewBelow top t1 t2) :
    NewBelow top t t2 := by
  intro p hp
  by_cases h : t1.get p = t.get p
  · rw [← h] at hp ⊢
    exact h2 p hp
  · exact h1 p h

/-- Directories on the way to a path below the top. -/
theorem NewBelow.of_mkdirs {top path q : List Str} {t t' : Files} (htop : t.get top = some .dir)
    (hpath : top <+: path) (hq : q <+: path) (h : t.mkdirs q = some t') : NewBelow top t t' := by
  intro p hp
  rw [FileTree.get_mkdirs h] at hp
  split_ifs at hp with hnew
  · have hnone : t.get p = none := Option.isNone_iff_eq_none.mp hnew.2
    refine ⟨hnone, ?_⟩
    -- Both are on the way to the path, and what is above the top is there.
    rcases List.prefix_or_prefix_of_prefix hpath (hnew.1.trans hq) with hp | ⟨r, hr⟩
    · exact hp
    · by_cases hr' : r = []
      · rw [hr', List.append_nil] at hr
        rw [hr]
      · have hdir := FileTree.get_of_append_ne_none hr' (by rw [hr, htop]; simp)
        rw [hnone] at hdir
        cases hdir
  · exact absurd rfl hp

theorem NewBelow.of_create {top path : List Str} {data : Bytes} {t t' : Files} (hpath : top <+: path)
    (h : t.create path data = some t') : NewBelow top t t' := by
  intro p hp
  obtain ⟨hnone, hget⟩ := FileTree.get_create h
  rw [hget] at hp
  by_cases he : p = path
  · rw [he]
    exact ⟨hnone, hpath⟩
  · rw [Function.update_of_ne he] at hp
    exact absurd rfl hp

/-- The files have grown, all that has been made lies below the top, and the
rest of the state is as it was. -/
structure Grown (top : List Str) (s s' : Extraction) : Prop where
  files : NewBelow top s.files s'.files
  created : ∀ p ∈ s'.created, p ∈ s.created ∨ top <+: p
  left : s'.left = s.left

section Steps

variable {top path : List Str} {s s1 s2 : Extraction} {α β : Type}

theorem Grown.refl (top : List Str) (s : Extraction) : Grown top s s := ⟨.refl top s.files, fun _ h => .inl h, rfl⟩

theorem Grown.trans (h1 : Grown top s s1) (h2 : Grown top s1 s2) : Grown top s s2 := by
  refine ⟨h1.files.trans h2.files, fun p hp => ?_, h2.left.trans h1.left⟩
  rcases h2.created p hp with h | h
  · exact h1.created p h
  · exact .inr h

/-- What was there is still there. -/
theorem Grown.keeps (h : Grown top s s1) {p : List Str} (hp : s.files.get p ≠ none) :
    s1.files.get p = s.files.get p := by
  by_contra hne
  exact hp (h.files p hne).1

theorem Grown.write {t : Files} (h : NewBelow top s.files t) : Grown top s (s.write path t) := by
  refine ⟨h, fun p hp => ?_, rfl⟩
  rcases List.mem_append.mp hp with hp | hp
  · exact .inl hp
  · right
    obtain ⟨-, hnew⟩ := List.mem_filter.mp hp
    simp only [Bool.and_eq_true, Option.isNone_iff_eq_none, Option.isSome_iff_ne_none] at hnew
    exact (h p fun he => hnew.2 (he.trans hnew.1)).2

/-- Where the top is a directory, the program only makes new things below it. -/
def Grows (top : List Str) (x : Program Extraction Exc α) : Prop :=
  ∀ s, s.files.get top = some .dir → x.Meets s (fun _ => Grown top s) fun _ => Grown top s

theorem grows_pure (a : α) : Grows top (pure a : Program Extraction Exc α) := fun s _ => .refl top s

theorem grows_raise (e : Exc) : Grows top (raise e : Program Extraction Exc α) := fun s _ => .refl top s

theorem Grows.bind {x : Program Extraction Exc α} {f : α → Program Extraction Exc β} (hx : Grows top x)
    (hf : ∀ a, Grows top (f a)) : Grows top (x >>= f) := by
  intro s hs
  rw [Program.meets_bind]
  refine (hx s hs).mono (fun a s1 h1 => ?_) fun e s1 h1 => h1
  have htop : s1.files.get top = some .dir := (h1.keeps (by rw [hs]; simp)).trans hs
  exact (hf a s1 htop).mono (fun b s2 h2 => h1.trans h2) fun e s2 h2 => h1.trans h2

/-- How a call ends: it is done, or it fails after a part, or it is refused. -/
theorem meets_call {whole : Files → Option Files} {part : ℕ → Files → Option Files} {Q : Unit → Extraction → Prop}
    {E : Exc → Extraction → Prop} (hwhole : ∀ t, whole s.files = some t → Q () (s.write path t))
    (hpart : ∀ e n, E e (s.write path ((part n s.files).getD s.files))) (hno : ∀ e, E e (s.write path s.files)) :
    (call path whole part).Meets s Q E := by
  unfold Program.Meets EStateM.run call
  cases s.faults 0 with
  | some fault => exact hpart fault.raised fault.done
  | none =>
    dsimp only
    split
    · rename_i h
      split at h
      · rename_i t ht
        obtain ⟨rfl, rfl⟩ := EStateM.Result.ok.inj h
        exact hwhole t ht
      · cases h
    · rename_i h
      split at h
      · cases h
      · obtain ⟨rfl, rfl⟩ := EStateM.Result.error.inj h
        exact hno _

/-- A call grows if both what it does and what it leaves when it fails do. -/
theorem grows_call {whole : Files → Option Files} {part : ℕ → Files → Option Files}
    (hwhole : ∀ t t', t.get top = some .dir → whole t = some t' → NewBelow top t t')
    (hpart : ∀ n t t', t.get top = some .dir → part n t = some t' → NewBelow top t t') :
    Grows top (call path whole part) := by
  intro s hs
  refine meets_call (fun t ht => .write (hwhole s.files t hs ht)) (fun _ n => .write ?_) fun _ =>
    .write (.refl top s.files)
  cases ht : part n s.files with
  | none => exact .refl top s.files
  | some t => exact hpart n s.files t hs ht

theorem grows_probe : Grows top probe :=
  grows_call (fun t _ _ h => Option.some.inj h ▸ .refl top t) fun _ t _ _ h => Option.some.inj h ▸ .refl top t

theorem grows_mkdir {q : List Str} (hpath : top <+: path) (hq : q <+: path) : Grows top (mkdir q) :=
  grows_call (fun _ _ ht => .of_mkdirs ht hpath hq) fun n _ _ ht => .of_mkdirs ht hpath ((q.take_prefix n).trans hq)

theorem grows_createFile {data : Bytes} (hpath : top <+: path) : Grows top (createFile path data) := by
  refine grows_call (fun _ _ _ => .of_create hpath) fun n t t' _ h => ?_
  cases n with
  | zero => exact Option.some.inj h ▸ .refl top t
  | succ n => exact .of_create hpath h

theorem grows_extractMember (staging : List Str) (member : Member) : Grows staging (extractMember staging member) := by
  refine grows_probe.bind fun _ => ?_
  dsimp only
  by_cases hpath : staging <+: resolve (joinPath staging member.name)
  · rw [if_neg (not_not.mpr hpath)]
    split
    · exact grows_mkdir hpath List.prefix_rfl
    · refine (grows_mkdir hpath (List.dropLast_prefix _)).bind fun _ => ?_
      cases extractfile member with
      | none => exact grows_raise _
      | some data => exact grows_createFile hpath
  · rw [if_pos hpath]
    exact grows_raise _

theorem grows_extractMembers (staging : List Str) : ∀ members : List Member,
    Grows staging (extractMembers staging members)
  | [] => grows_pure ()
  | member :: members => (grows_extractMember staging member).bind fun _ => grows_extractMembers staging members

end Steps

/-! ### The folder is in the staging directory -/

section Root

variable {staging : List Str} {root : Str} {member : Member} {members : List Member} {s s' : Extraction}

/-- The path of the first member. -/
theorem resolve_root (hmember : member.Under root) (hname : member.name = root)
    (h : staging <+: resolve (joinPath staging root)) : resolve (joinPath staging root) = staging ++ [root] := by
  obtain ⟨habs, hparts, hdots⟩ := hmember.name_eq hname
  have hstaging : [dot, dot] ∉ staging := fun hmem => not_mem_resolve _ (h.subset hmem)
  rw [joinPath, habs, if_neg (by decide), hparts]
  exact resolve_eq_self (by simpa [hstaging] using Ne.symm hdots)

theorem get_of_mkdir {path : List Str} (h : (mkdir path).run s = .ok () s') : s'.files.get path = some .dir := by
  unfold EStateM.run mkdir call at h
  split at h
  · cases h
  · split at h
    · rename_i t ht
      obtain ⟨-, rfl⟩ := EStateM.Result.ok.inj h
      exact FileTree.get_mkdirs_self ht
    · cases h

/-- After the first member its directory is there. -/
theorem get_root_of_extractMember (hmember : member.Under root) (hname : member.name = root)
    (hdir : member.isdir = true) (h : (extractMember staging member).run s = .ok () s') :
    s'.files.get (staging ++ [root]) = some .dir := by
  obtain ⟨-, s1, -, h⟩ := Program.run_bind_eq_ok.mp h
  rw [hname] at h
  dsimp only at h
  split_ifs at h with hpath
  · rw [resolve_root hmember hname hpath] at h
    exact get_of_mkdir h
  · cases h

theorem get_root_of_extractMembers (hfolder : IsFolder members root) (htop : s.files.get staging = some .dir)
    (h : (extractMembers staging members).run s = .ok () s') : s'.files.get (staging ++ [root]) = some .dir := by
  obtain ⟨-, hunder, first, hfirst, hdir, hname⟩ := hfolder
  cases members with
  | nil => cases hfirst
  | cons member members =>
    obtain rfl : member = first := Option.some.inj hfirst
    obtain ⟨⟨⟩, s1, h1, h⟩ := Program.run_bind_eq_ok.mp h
    have hroot := get_root_of_extractMember (hunder member List.mem_cons_self) hname hdir h1
    have hgrown := (grows_extractMember staging member s htop).of_run_eq_ok h1
    have htop1 : s1.files.get staging = some .dir := (hgrown.keeps (by rw [htop]; simp)).trans htop
    have hkeeps := (grows_extractMembers staging members s1 htop1).of_run_eq_ok h
    rw [hkeeps.keeps (by rw [hroot]; simp), hroot]

end Root

/-! ### The whole extraction -/

/-- At this path everything is as it was, but for what is new and could not be
removed from the top. -/
def KeptBut (top : List Str) (left : List (List Str)) (t t' : Files) (p : List Str) : Prop :=
  t'.get p = t.get p ∨ t.get p = none ∧ top <+: p ∧ ∃ q ∈ left, p <+: q

/-- All that has been made lies in the staging directory, and the folder of the
archive is the only other thing that is new. -/
structure Returned (members : List Member) (destination : List Str) (temp : FileName) (left : List (List Str))
    (s : Extraction) (final : List Str) (s' : Extraction) : Prop where
  created : ∀ p ∈ s'.created, p ∈ s.created ∨ destination ++ [temp.val] <+: p
  folder : ∃ root, archiveRoot members = .ok root ∧ final = destination ++ [root]
  new : s.files.get final = none
  dir : s'.files.get final = some .dir
  rest : ∀ p, ¬ final <+: p → KeptBut (destination ++ [temp.val]) left s.files s'.files p

/-- All that has been made lay in the staging directory, and nothing else is
new. -/
structure Raised (destination : List Str) (temp : FileName) (left : List (List Str)) (s s' : Extraction) : Prop where
  created : ∀ p ∈ s'.created, p ∈ s.created ∨ destination ++ [temp.val] <+: p
  rest : ∀ p, KeptBut (destination ++ [temp.val]) left s.files s'.files p

/-- Both, with `left` the only things that may stay in the staging directory. -/
def Contained (members : List Member) (destination : List Str) (temp : FileName) (left : List (List Str))
    (s : Extraction) : Prop :=
  (extract members destination temp).Meets s (Returned members destination temp left s) fun _ =>
    Raised destination temp left s

section Whole

variable {staging final path : List Str} {root : Str} {members : List Member} {destination : List Str}
  {temp : FileName} {s s1 : Extraction} {t t1 t2 : Files}

/-- What is outside the top is as it was, and the top is removed. -/
theorem KeptBut.of_removeTreeBut {p : List Str} (left : List (List Str)) (hne : staging ≠ [])
    (hnone : t.get staging = none) (h : ¬ staging <+: p → t1.get p = t.get p) :
    KeptBut staging left t (t1.removeTreeBut staging left) p := by
  by_cases hp : staging <+: p
  · obtain ⟨r, rfl⟩ := hp
    have hp : staging <+: staging ++ r := List.prefix_append _ _
    have hgone : t.get (staging ++ r) = none := by
      by_contra hr
      by_cases hr' : r = []
      · rw [hr', List.append_nil] at hr
        exact hr hnone
      · rw [FileTree.get_of_append_ne_none hr' hr] at hnone
        cases hnone
    rcases FileTree.get_removeTreeBut left hne hp with h | h
    · exact .inl (h.trans hgone.symm)
    · exact .inr ⟨hgone, hp, h⟩
  · exact .inl ((FileTree.get_removeTreeBut_of_not_prefix left hp).trans (h hp))

theorem NewBelow.keptBut {p : List Str} (h : NewBelow staging t t1) (left : List (List Str)) (hne : staging ≠ [])
    (hnone : t.get staging = none) : KeptBut staging left t (t1.removeTreeBut staging left) p :=
  .of_removeTreeBut left hne hnone fun hp => by
    by_contra hget
    exact hp (h p hget).2

@[simp] theorem created_write_nil (s : Extraction) (t : Files) : (s.write [] t).created = s.created := by
  simp [Extraction.write, s.files.root]

theorem meets_mkdtemp (destination : List Str) (temp : FileName) (s : Extraction) :
    (mkdtemp destination temp).Meets s
      (fun _ s1 => Grown (destination ++ [temp.val]) s s1 ∧ s.files.get (destination ++ [temp.val]) = none ∧
        s1.files.get (destination ++ [temp.val]) = some .dir)
      fun _ s1 => s1.files = s.files ∧ Grown (destination ++ [temp.val]) s s1 := by
  unfold mkdtemp
  rw [Program.meets_bind, Program.meets_get]
  dsimp only
  split_ifs with hfree
  · obtain ⟨hdir, hnone⟩ := hfree
    rw [FileTree.isDir_eq_true] at hdir
    rw [Option.isNone_iff_eq_none] at hnone
    refine meets_call (fun t ht => ?_) (fun _ _ => ⟨rfl, .write (.refl _ _)⟩) fun _ => ⟨rfl, .write (.refl _ _)⟩
    have hfile : s.files.isFile (destination ++ [temp.val]) = false := by rw [FileTree.isFile, hnone]; rfl
    obtain ⟨t', ht', hget⟩ := FileTree.exists_mkdirs hfile (.inr (by rw [List.dropLast_concat, hdir]))
    obtain rfl : t' = t := Option.some.inj (ht'.symm.trans ht)
    refine ⟨.write fun p hp => ?_, hnone, (hget _).trans (if_pos rfl)⟩
    rw [hget] at hp
    split_ifs at hp with he
    · rw [he]
      exact ⟨hnone, List.prefix_rfl⟩
    · exact absurd rfl hp
  · exact ⟨rfl, .refl _ s⟩

theorem meets_rename (source target : List Str) (s : Extraction) :
    (rename source target).Meets s
      (fun _ s1 => s.files.rename source target = some s1.files ∧ s1.created = s.created ∧ s1.left = s.left)
      fun _ s1 => s1.files = s.files ∧ s1.created = s.created ∧ s1.left = s.left :=
  meets_call (fun t ht => ⟨ht, created_write_nil s t, rfl⟩) (fun _ _ => ⟨rfl, created_write_nil s _, rfl⟩) fun _ =>
    ⟨rfl, created_write_nil s _, rfl⟩

/-- The body of the `try`. -/
theorem meets_extractFolder (hfolder : IsFolder members root) (htop : s.files.get staging = some .dir) :
    (extractFolder staging final root members).Meets s
      (fun _ s2 => ∃ t1, NewBelow staging s.files t1 ∧ t1.get (staging ++ [root]) = some .dir ∧
        t1.rename (staging ++ [root]) final = some s2.files ∧
        (∀ p ∈ s2.created, p ∈ s.created ∨ staging <+: p) ∧ s2.left = s.left)
      fun _ s2 => Grown staging s s2 := by
  unfold extractFolder
  rw [Program.meets_bind]
  have hgrows := grows_extractMembers staging members s htop
  unfold Program.Meets at hgrows ⊢
  cases h : (extractMembers staging members).run s with
  | error e s1 =>
    rw [h] at hgrows
    exact hgrows
  | ok u s1 =>
    rw [h] at hgrows
    refine (meets_rename _ _ s1).mono (fun _ s2 h2 => ?_) fun _ s2 h2 => ?_
    · obtain ⟨hrename, hcreated, hleft⟩ := h2
      refine ⟨s1.files, hgrows.files, get_root_of_extractMembers hfolder htop h, hrename, ?_, hleft.trans hgrows.left⟩
      rw [hcreated]
      exact hgrows.created
    · obtain ⟨hfiles, hcreated, hleft⟩ := h2
      exact ⟨hfiles ▸ hgrows.files, hcreated ▸ hgrows.created, hleft.trans hgrows.left⟩

/-- What the files are after the rename and the removal. -/
theorem returned_of_rename {u u2 : Files} (hstaging : staging = destination ++ [temp.val])
    (hfinal : final = destination ++ [root]) (hnone : t.get staging = none) (htop : u.get staging = some .dir)
    (hgrown : NewBelow staging t u) (hdir : u.get (staging ++ [root]) = some .dir)
    (hrename : u.rename (staging ++ [root]) final = some u2) (left : List (List Str)) :
    (u2.removeTreeBut staging left).get final = some .dir ∧
      ∀ p, ¬ final <+: p → KeptBut staging left t (u2.removeTreeBut staging left) p := by
  have hne : staging ≠ [] := by simp [hstaging]
  have hout : ¬ staging <+: final := by
    intro h
    have he : staging = final := h.eq_of_length (by simp [hstaging, hfinal])
    rw [FileTree.rename_of_ne_none (by rw [← he, htop]; simp)] at hrename
    cases hrename
  constructor
  · rw [FileTree.get_removeTreeBut_of_not_prefix left hout, FileTree.get_rename hrename, if_pos List.prefix_rfl,
      List.drop_length, List.append_nil, hdir]
  · intro p hp
    refine .of_removeTreeBut left hne hnone fun hs => ?_
    rw [FileTree.get_rename hrename, if_neg hp, if_neg fun h => hs ((List.prefix_append _ _).trans h)]
    by_contra hget
    exact hs (hgrown p hget).2

/-- From the staging directory on. -/
theorem meets_staged (hroot : archiveRoot members = .ok root) (hnew : s.files.get (destination ++ [root]) = none) :
    (do
      mkdtemp destination temp
      Program.ensuring (extractFolder (destination ++ [temp.val]) (destination ++ [root]) root members)
        (rmtree (destination ++ [temp.val]))
      return destination ++ [root] : Program Extraction Exc (List Str)).Meets s
      (Returned members destination temp s.left s) fun _ => Raised destination temp s.left s := by
  have hne : destination ++ [temp.val] ≠ [] := by simp
  rw [Program.meets_bind]
  refine (meets_mkdtemp destination temp s).mono (fun _ s1 h1 => ?_) fun _ s1 h1 => ?_
  · obtain ⟨hgrown, hnone, htop⟩ := h1
    rw [Program.meets_bind, Program.meets_ensuring]
    refine (meets_extractFolder ((archiveRoot_eq_ok_iff members root).mp hroot) htop).mono
      (fun _ s2 h2 => ?_) fun _ s2 h2 => ?_
    · obtain ⟨u, hu, hdir, hrename, hcreated, hleft⟩ := h2
      have htop' : u.get (destination ++ [temp.val]) = some .dir := by
        by_contra hget
        exact absurd (hu _ (by rw [htop]; exact hget)).1 (by rw [htop]; simp)
      obtain ⟨hfinal, hrest⟩ := returned_of_rename rfl rfl hnone htop' (hgrown.files.trans hu) hdir hrename s.left
      have hall (p : List Str) (hp : p ∈ s2.created) : p ∈ s.created ∨ destination ++ [temp.val] <+: p :=
        (hcreated p hp).elim (hgrown.created p) .inr
      refine ⟨hall, ⟨root, hroot, rfl⟩, hnew, ?_, fun p hp => ?_⟩
      · simpa only [hleft, hgrown.left] using hfinal
      · simpa only [hleft, hgrown.left] using hrest p hp
    · have hall := hgrown.trans h2
      refine ⟨hall.created, fun p => ?_⟩
      have hkept : KeptBut (destination ++ [temp.val]) s.left s.files
          (s2.files.removeTreeBut (destination ++ [temp.val]) s.left) p := hall.files.keptBut s.left hne hnone
      simpa only [hall.left] using hkept
  · obtain ⟨hfiles, hgrown⟩ := h1
    exact ⟨hgrown.created, fun p => .inl (by rw [hfiles])⟩

/-- **However the run ends, nothing but the folder of the archive is new in the
destination, and what could not be removed from the staging directory.** -/
theorem contained (members : List Member) (destination : List Str) (temp : FileName) (s : Extraction) :
    Contained members destination temp s.left s := by
  have hraised {s1 : Extraction} (hfiles : s1.files = s.files) (hcreated : s1.created = s.created) :
      Raised destination temp s.left s s1 :=
    ⟨fun p hp => .inl (hcreated ▸ hp), fun p => .inl (by rw [hfiles])⟩
  unfold Contained extract
  rw [Program.meets_bind]
  cases hroot : archiveRoot members with
  | error e => exact hraised rfl rfl
  | ok root =>
    rw [Program.meets_ofExcept_ok]
    dsimp only
    rw [Program.meets_bind]
    refine meets_call (fun u hu => ?_) (fun _ _ => hraised rfl (created_write_nil s _)) fun _ =>
      hraised rfl (created_write_nil s _)
    obtain rfl := Option.some.inj hu
    rw [Program.meets_bind, Program.meets_get]
    split_ifs with hexists
    · exact hraised rfl (created_write_nil s _)
    · have hnew : s.files.get (destination ++ [root]) = none :=
        Option.not_isSome_iff_eq_none.mp hexists
      refine (meets_staged (s := s.write [] s.files) hroot hnew).mono (fun final s' h => ?_) fun _ s' h => ?_
      · exact ⟨by simpa only [created_write_nil] using h.created, h.folder, h.new, h.dir, h.rest⟩
      · exact ⟨by simpa only [created_write_nil] using h.created, h.rest⟩

end Whole

/-! ### Where nothing fails -/

/-- The files, no call that fails, and nothing that stays. -/
structure Calm (s : Extraction) (t : Files) : Prop where
  files : s.files = t
  faults : ∀ n, s.faults n = none
  left : s.left = []

section Calm

variable {α : Type}

theorem agree_call (path : List Str) (whole : Files → Option Files) (part : ℕ → Files → Option Files) :
    Program.Agree Calm (call path whole part) (FolderService.fileCall whole) := by
  rintro s t ⟨rfl, hfaults, hleft⟩
  have hcalm (u : Files) : Calm (s.write path u) u := ⟨rfl, fun n => hfaults (n + 1), hleft⟩
  unfold Program.Meets EStateM.run call FolderService.fileCall
  rw [hfaults 0]
  cases h : whole s.files with
  | some u => exact ⟨u, rfl, hcalm u⟩
  | none => exact ⟨s.files, rfl, hcalm s.files⟩

/-- A call that changes nothing, and then the rest. -/
theorem agree_probe_bind {x : Program Extraction Exc α} {y : Program Files Exc α} (h : Program.Agree Calm x y) :
    Program.Agree Calm (probe >>= fun _ => x) y :=
  (agree_call [] some fun _ => some).bind fun _ => h

theorem agree_rmtree {staging : List Str} (hne : staging ≠ []) :
    Program.Agree Calm (rmtree staging) (modify (·.removeTree staging)) := by
  rintro s t ⟨rfl, hfaults, hleft⟩
  refine ⟨s.files.removeTree staging, rfl, ?_, hfaults, hleft⟩
  dsimp only
  rw [hleft, FileTree.removeTreeBut_nil hne]

theorem agree_extractMember (staging : List Str) (member : Member) :
    Program.Agree Calm (extractMember staging member) (FolderService.extractMember staging member) := by
  refine agree_probe_bind ?_
  unfold FolderService.extractMember
  dsimp only
  split
  · exact .raise _
  · split
    · exact agree_call _ _ _
    · refine (agree_call _ _ _).bind fun _ => ?_
      cases extractfile member with
      | none => exact .raise _
      | some data => exact agree_call _ _ _

theorem agree_extractMembers (staging : List Str) : ∀ members : List Member,
    Program.Agree Calm (extractMembers staging members) (FolderService.extractMembers staging members)
  | [] => .pure ()
  | member :: members => (agree_extractMember staging member).bind fun _ => agree_extractMembers staging members

theorem agree_mkdtemp (destination : List Str) (temp : FileName) :
    Program.Agree Calm (mkdtemp destination temp) (FolderService.mkdtemp destination temp) := by
  refine .bind_get fun s t h => ?_
  rw [← h.files]
  dsimp only
  split
  · exact agree_call _ _ _
  · exact .raise _

/-- **Where nothing fails, this is the extraction of the pure model.** -/
theorem agree_extract (members : List Member) (destination : List Str) (temp : FileName) :
    Program.Agree Calm (extract members destination temp) (FolderService.extract members destination temp) := by
  refine (Program.Agree.ofExcept (archiveRoot members)).bind fun root => agree_probe_bind (.bind_get fun s t h => ?_)
  rw [← h.files]
  split
  · exact .raise _
  · refine (agree_mkdtemp destination temp).bind fun _ => ?_
    refine Program.Agree.bind ?_ fun _ => .pure _
    have hbody := (agree_extractMembers (destination ++ [temp.val]) members).bind fun _ =>
      agree_call [] (·.rename (destination ++ [temp.val] ++ [root]) (destination ++ [root])) fun _ => some
    exact hbody.ensuring (agree_rmtree (by simp))

end Calm

/-! ### A staging directory that stays -/

/-- The folder `d`, with the same file twice. -/
def repeated : List Member :=
  [{ name := lit "d", type := .dir }, { name := lit "d/a", type := .reg }, { name := lit "d/a", type := .reg }]

/-- There is the directory `o`, and `d/a` in the staging directory `o/t` cannot
be removed. -/
def stuck : Extraction where
  files := onlyDir [lit "o"]
  left := [[lit "o", lit "t", lit "d", lit "a"]]

/-- The second file is refused, and the staging directory stays. -/
theorem not_contained : ¬ ∀ members destination temp s, Contained members destination temp [] s := by
  intro h
  have hrun : (match (extract repeated [lit "o"] (letter 0x74)).run stuck with
      | .ok _ _ => false
      | .error _ s' => (s'.files.get [lit "o", lit "t"]).isSome) = true := by decide +kernel
  have hcontained := h repeated [lit "o"] (letter 0x74) stuck
  unfold Contained Program.Meets at hcontained
  cases hx : (extract repeated [lit "o"] (letter 0x74)).run stuck with
  | ok a s' =>
    rw [hx] at hrun
    cases hrun
  | error e s' =>
    rw [hx] at hrun hcontained
    dsimp only at hrun
    rcases hcontained.rest [lit "o", lit "t"] with hsame | ⟨-, -, q, hq, -⟩
    · have hnone : stuck.files.get [lit "o", lit "t"] = none := by decide
      rw [hsame, hnone] at hrun
      cases hrun
    · exact List.not_mem_nil hq

end FolderExtract
end GpgMeister
