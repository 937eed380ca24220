/-
# The factory reset

A marker in the configuration directory asks the next start to delete what the
application has stored (`storage/factory_reset.py`). The reset is a system whose
steps are single calls of the operating system, so that its states are the
points at which the process can die; the next start begins again. The
environment chooses the order in which a directory is listed, and what becomes
of a file that is overwritten.

* `resumable_of_marksLast`: in every run in which the marker is taken away only
  when no other file is left in the directories that are still to be deleted,
  the marker is there, or every file is gone.
* `resumable_iff_marksLast`: a step that takes the marker away earlier leaves
  files that no later start deletes.
-/
import GpgMeister.Lib.FiniteTree
import GpgMeister.Lib.System
import GpgMeister.Lib.Text

namespace GpgMeister

/-- `AppPaths` of `storage/paths.py`. -/
structure AppPaths where
  configDir : List Str
  dataDir : List Str
  stateDir : List Str
  cacheDir : List Str

namespace AppPaths

variable (paths : AppPaths)

def gnupgHome : List Str := paths.dataDir ++ [lit "gnupg"]
def vaultDir : List Str := paths.dataDir ++ [lit "vaults"]
def metadataDb : List Str := paths.dataDir ++ [lit "metadata.sqlite3"]
def auditLog : List Str := paths.stateDir ++ [lit "audit.log"]
def diagnosticLog : List Str := paths.stateDir ++ [lit "diagnostic.log"]

/-- The directories that `ensure` creates. -/
def created : List (List Str) :=
  [paths.configDir, paths.dataDir, paths.stateDir, paths.cacheDir, paths.gnupgHome, paths.vaultDir]

end AppPaths

namespace FactoryReset

/-- What is at a path, if it is not a directory. -/
inductive Leaf
  | regular (data : Bytes)
  /-- A symbolic link, and whether there is something where it leads. -/
  | link (leads : Bool)
  deriving DecidableEq

abbrev Tree := FiniteTree Str Leaf

namespace Tree

variable (t : Tree)

/-- `path.is_symlink()` -/
def isSymlink (path : List Str) : Bool :=
  match t.get path with
  | some (.file (.link _)) => true
  | _ => false

/-- `path.exists()`, which follows a link -/
def pathExists (path : List Str) : Bool :=
  match t.get path with
  | none => false
  | some (.file (.link leads)) => leads
  | some _ => true

/-- The contents of a regular file, for `item.is_file()` without links. -/
def regular? (path : List Str) : Option Bytes :=
  match t.get path with
  | some (.file (.regular data)) => some data
  | _ => none

/-- `reject_symlink_tree(path)`: the link that it refuses -/
def rejectSymlinkTree (path : List Str) : Option (List Str) := (path :: t.below path).find? t.isSymlink

end Tree

/-! ### Overwriting -/

/-- What becomes of a file that is overwritten. Without `shred`, zeros are
written to its beginning; `shred -u` writes what it likes, gives the file other
names in its directory, and removes it, as far as it gets in ten seconds. -/
inductive Overwrite
  | zeros (written : ℕ)
  | shredded (name : Str) (data : Bytes)
  | removed
  deriving DecidableEq

/-- The file at `path` is replaced by one at `dest`. -/
def replaceFile (t : Tree) (path dest : List Str) (data : Bytes) : Option Tree := do
  let t ← t.remove path
  t.create dest (.regular data)

/-- `_overwrite_file(item, shred)` -/
def overwriteFile (shred : Bool) (t : Tree) (item : List Str) (outcome : Overwrite) : Option Tree :=
  match Tree.regular? t item with
  | none => some t
  | some old =>
    match shred, outcome with
    | true, .shredded name data => replaceFile t item (item.dropLast ++ [name]) data
    | true, .removed => t.remove item
    | false, .zeros written =>
      if written ≤ old.length then replaceFile t item item (List.replicate written 0 ++ old.drop written) else none
    | _, _ => none

/-- `path.with_name(path.name + suffix)` -/
def withSuffix (path : List Str) (suffix : Str) : List Str := path.dropLast ++ [path.getLastD [] ++ suffix]

/-- What `_secure_wipe_sensitive` goes through: a directory with what is below it,
or a file. -/
inductive Target
  | tree (root : List Str)
  | file (item : List Str)
  deriving DecidableEq

def sensitive (paths : AppPaths) : List Target :=
  [ .tree paths.gnupgHome,
    .tree paths.vaultDir,
    .file paths.metadataDb,
    .file (withSuffix paths.metadataDb (lit "-wal")),
    .file (withSuffix paths.metadataDb (lit "-shm")),
    .file paths.auditLog,
    .file (withSuffix paths.auditLog (lit ".tip")),
    .file paths.diagnosticLog ]

/-! ### The reset -/

/-- `marker_path(paths)` -/
def markerPath (paths : AppPaths) : List Str := paths.configDir ++ [lit ".factory-reset-pending"]

/-- The directories that are deleted, in their order. -/
def directories (paths : AppPaths) : List (List Str) :=
  [paths.stateDir, paths.dataDir, paths.cacheDir, paths.configDir]

/-- Where a process is in `perform_pending_factory_reset`. -/
inductive Phase
  | start
  /-- in `_secure_wipe_sensitive`, before these targets -/
  | wiping (targets : List Target)
  /-- in the loop over what is below a target, before these items -/
  | walking (items : List (List Str)) (targets : List Target)
  /-- in the loop over the directories, before these -/
  | clearing (later : List (List Str))
  /-- in `shutil.rmtree(directory)`, which removes these one after the other -/
  | removing (directory : List Str) (order later : List (List Str))
  /-- in `paths.ensure()`, before these directories -/
  | creating (later : List (List Str))
  | returned (changed : Bool)
  | raised (path : List Str)
  deriving DecidableEq

structure State where
  tree : Tree
  phase : Phase

/-- What the environment does in a step. -/
inductive Label
  | proceed
  /-- The order in which the items of a directory come. -/
  | listed (items : List (List Str))
  | overwritten (outcome : Overwrite)
  /-- The process dies, and `_prepare_storage` begins again. -/
  | restart

/-- `ensure_dir(path)` for all of them, if nothing is in the way -/
def ensure (t : Tree) (later : List (List Str)) : Option Tree := later.foldlM (fun t path => t.mkdirs path) t

/-- `request_factory_reset(paths)`; `none` if it raises -/
def requestFactoryReset (paths : AppPaths) (t : Tree) : Option Tree := do
  let t ← ensure t paths.created
  match t.get (markerPath paths) with
  | none => t.create (markerPath paths) (.regular (ascii "pending\n"))
  | some (.file (.regular _)) => replaceFile t (markerPath paths) (markerPath paths) (ascii "pending\n")
  | some _ => none

/-- One step of `perform_pending_factory_reset`, or a start. -/
def step (paths : AppPaths) (shred : Bool) (s : State) (l : Label) : Option State :=
  match s.phase, l with
  | .start, .proceed =>
    if Tree.isSymlink s.tree (markerPath paths) then some { s with phase := .raised (markerPath paths) }
    else if ¬ Tree.pathExists s.tree (markerPath paths) then some { s with phase := .returned false }
    else some { s with phase := .wiping (sensitive paths) }
  | .wiping (.tree root :: targets), .listed items =>
    if ¬ Tree.pathExists s.tree root then some { s with phase := .wiping targets }
    else
      match Tree.rejectSymlinkTree s.tree root with
      | some path => some { s with phase := .raised path }
      | none => if items.Perm (s.tree.below root) then some { s with phase := .walking items targets } else none
  | .wiping (.file item :: targets), .overwritten outcome =>
    if ¬ Tree.pathExists s.tree item then some { s with phase := .wiping targets }
    else (overwriteFile shred s.tree item outcome).map fun t => { tree := t, phase := .wiping targets }
  | .wiping [], .proceed => some { s with phase := .clearing (directories paths) }
  | .walking (item :: items) targets, .overwritten outcome =>
    (overwriteFile shred s.tree item outcome).map fun t => { tree := t, phase := .walking items targets }
  | .walking [] targets, .proceed => some { s with phase := .wiping targets }
  | .clearing (directory :: later), .listed order =>
    if ¬ Tree.pathExists s.tree directory then some { s with phase := .clearing later }
    else
      match Tree.rejectSymlinkTree s.tree directory with
      | some path => some { s with phase := .raised path }
      | none =>
        -- a link has been refused by now; `rmtree` wants a directory
        if ¬ s.tree.isDir directory then some { s with phase := .raised directory }
        else if order.Perm (directory :: s.tree.below directory) then
          some { s with phase := .removing directory order later }
        else none
  | .clearing [], .proceed => some { s with phase := .creating paths.created }
  | .removing directory (path :: order) later, .proceed =>
    (s.tree.remove path).map fun t => { tree := t, phase := .removing directory order later }
  | .removing _ [] later, .proceed => some { s with phase := .clearing later }
  | .creating (path :: later), .proceed =>
    match s.tree.mkdirs path with
    | none => some { s with phase := .raised path }
    | some t => some { tree := t, phase := .creating later }
  | .creating [], .proceed => some { s with phase := .returned true }
  | .returned _, _ => none
  | _, .restart => (ensure s.tree paths.created).map fun t => { tree := t, phase := .start }
  | _, _ => none

/-- What `request_factory_reset` leaves behind, as long as nobody takes it away. -/
def Pending (paths : AppPaths) (t : Tree) : Prop := ∃ data, t.get (markerPath paths) = some (.file (.regular data))

theorem regular?_eq_some {t : Tree} {path : List Str} {data : Bytes} :
    Tree.regular? t path = some data ↔ t.get path = some (.file (.regular data)) := by
  unfold Tree.regular?
  split
  · next old hold => rw [hold, Option.some.injEq, Option.some.injEq, FileEntry.file.injEq, Leaf.regular.injEq]
  · next hnot => exact iff_of_false (by simp) (hnot data)

theorem pending_iff {paths : AppPaths} {t : Tree} :
    Pending paths t ↔ (Tree.regular? t (markerPath paths)).isSome = true := by
  rw [Option.isSome_iff_exists]
  exact exists_congr fun _ => regular?_eq_some.symm

instance (paths : AppPaths) (t : Tree) : Decidable (Pending paths t) := decidable_of_iff _ pending_iff.symm

/-- Starts with the marker in place. -/
def resets (paths : AppPaths) (shred : Bool) : System State Label :=
  .ofStep (fun s => s.phase = .start ∧ Pending paths s.tree) (step paths shred)

/-- The next start resumes the reset, or there is nothing left to delete. -/
def Resumable (paths : AppPaths) (t : Tree) : Prop :=
  Pending paths t ∨ ∀ d ∈ directories paths, t.NoFiles d

instance (paths : AppPaths) (t : Tree) : Decidable (Resumable paths t) := by unfold Resumable; infer_instance

/-- No file but the marker is below the directories. -/
def OnlyMarker (paths : AppPaths) (t : Tree) (ds : List (List Str)) : Prop :=
  ∀ d ∈ ds, ∀ q ∈ t.below d, t.isFile q = true → q = markerPath paths

instance (paths : AppPaths) (t : Tree) (ds : List (List Str)) : Decidable (OnlyMarker paths t ds) := by
  unfold OnlyMarker
  infer_instance

/-- The marker stays where it is, unless it is the last file. -/
def Spares (paths : AppPaths) (t : Tree) : Overwrite → Prop
  | .zeros _ => True
  | .shredded name _ => name = lit ".factory-reset-pending"
  | .removed => OnlyMarker paths t (directories paths)

/-- If the step takes the marker away, then no other file is left in the directory
that is being deleted and in those that are still to be. -/
def MarksLast (paths : AppPaths) (s : State) (l : Label) : Prop :=
  match s.phase, l with
  | .removing directory (path :: _) later, .proceed =>
    path = markerPath paths → OnlyMarker paths s.tree (directory :: later)
  | .walking (item :: _) _, .overwritten outcome => item = markerPath paths → Spares paths s.tree outcome
  | .wiping (.file item :: _), .overwritten outcome => item = markerPath paths → Spares paths s.tree outcome
  | _, _ => True

instance (paths : AppPaths) (t : Tree) (o : Overwrite) : Decidable (Spares paths t o) := by
  unfold Spares
  split <;> infer_instance

instance (paths : AppPaths) (s : State) (l : Label) : Decidable (MarksLast paths s l) := by
  unfold MarksLast
  split <;> infer_instance

/-! ### What the calls keep -/

section Calls

variable {paths : AppPaths} {t t' : Tree}

theorem noFiles_of_onlyMarker {d : List Str} (h : OnlyMarker paths t [d])
    (hgone : ∀ q, t'.isFile q = true → q ≠ markerPath paths ∧ t.isFile q = true) : t'.NoFiles d := by
  intro q hq hne
  by_contra hn
  obtain ⟨hm, hfile⟩ := hgone q (by simpa using hn)
  have hthere : t.get q ≠ none := by
    intro hnone
    rw [FileTree.isFile, hnone] at hfile
    cases hfile
  exact hm (h d (List.mem_singleton_self d) q (FiniteTree.mem_below.mpr ⟨hthere, hq, hne⟩) hfile)

theorem get_replaceFile {path dest : List Str} {data : Bytes} (h : replaceFile t path dest data = some t') :
    t'.get = Function.update (fun q => if q = path then none else t.get q) dest (some (.file (.regular data))) := by
  obtain ⟨t1, h1, h2⟩ := Option.bind_eq_some_iff.mp h
  rw [FiniteTree.get_create h2]
  congr 1
  funext q
  exact FiniteTree.get_remove h1 q

/-- A file that is replaced by another one in its directory makes no directory
without files one with files. -/
theorem noFiles_of_replaceFile {path : List Str} {name : Str} {data : Bytes} {d : List Str}
    (hfile : t.isFile path = true) (h : replaceFile t path (path.dropLast ++ [name]) data = some t')
    (hd : t.NoFiles d) : t'.NoFiles d := by
  intro q hq hne
  by_contra hn
  rw [FileTree.isFile, get_replaceFile h] at hn
  by_cases hdest : q = path.dropLast ++ [name]
  · have hbelow : d <+: path.dropLast := by
      rw [hdest, List.prefix_concat_iff] at hq
      exact hq.resolve_left fun he => hne (hdest.trans he.symm)
    have hpath : path ≠ d := by
      rintro rfl
      have hlen := hbelow.length_le
      rw [List.length_dropLast] at hlen
      have hnil : path = [] := List.length_eq_zero_iff.mp (by omega)
      rw [hnil, FileTree.isFile, t.root] at hfile
      cases hfile
    rw [hd path (hbelow.trans (List.dropLast_prefix path)) hpath] at hfile
    cases hfile
  · rw [Function.update_of_ne hdest] at hn
    have hnone := hd q hq hne
    split_ifs at hn with hp
    · exact hn rfl
    · exact hn hnone

theorem Pending.of_get {paths : AppPaths} (h : Pending paths t)
    (hget : t'.get (markerPath paths) = t.get (markerPath paths)) : Pending paths t' := by
  obtain ⟨data, hdata⟩ := h
  exact ⟨data, hget.trans hdata⟩

theorem resumable_replaceFile {path : List Str} {name : Str} {data : Bytes} (hfile : t.isFile path = true)
    (h : replaceFile t path (path.dropLast ++ [name]) data = some t')
    (hm : path = markerPath paths → name = lit ".factory-reset-pending") (hr : Resumable paths t) :
    Resumable paths t' := by
  rcases hr with hp | hn
  · refine .inl ?_
    by_cases hdest : markerPath paths = path.dropLast ++ [name]
    · refine ⟨data, ?_⟩
      rw [get_replaceFile h, hdest, Function.update_self]
    · have hne : markerPath paths ≠ path := by
        intro he
        refine hdest ?_
        rw [hm he.symm, ← he, markerPath, List.dropLast_concat]
      refine hp.of_get ?_
      rw [get_replaceFile h, Function.update_of_ne hdest, if_neg hne]
  · exact .inr fun d hd => noFiles_of_replaceFile hfile h (hn d hd)

theorem resumable_remove {path : List Str} (h : t.remove path = some t') (hne : path ≠ markerPath paths)
    (hr : Resumable paths t) : Resumable paths t' := by
  rcases hr with hp | hn
  · exact .inl (hp.of_get (by rw [FiniteTree.get_remove h, if_neg hne.symm]))
  · exact .inr fun d hd => (hn d hd).mono fun q hq => (FiniteTree.isFile_of_remove h hq).2

/-- A request schedules a reset. -/
theorem pending_requestFactoryReset (h : requestFactoryReset paths t = some t') : Pending paths t' := by
  obtain ⟨t1, -, h1⟩ := Option.bind_eq_some_iff.mp h
  split at h1
  · exact ⟨_, by rw [FiniteTree.get_create h1, Function.update_self]⟩
  · exact ⟨_, by rw [get_replaceFile h1, Function.update_self]⟩
  · cases h1

theorem resumable_overwriteFile {shred : Bool} {item : List Str} {outcome : Overwrite}
    (h : overwriteFile shred t item outcome = some t') (hm : item = markerPath paths → Spares paths t outcome)
    (hr : Resumable paths t) : Resumable paths t' := by
  unfold overwriteFile at h
  split at h
  · rwa [← Option.some.inj h]
  · next old hold =>
    have hfile : t.isFile item = true := by
      rw [FileTree.isFile, regular?_eq_some.mp hold]
      rfl
    split at h
    · exact resumable_replaceFile hfile h hm hr
    · by_cases hitem : item = markerPath paths
      · refine .inr fun d hd => @noFiles_of_onlyMarker paths t _ d ?_ fun q hq => ?_
        · exact fun d' hd' => hm hitem d' (List.mem_singleton.mp hd' ▸ hd)
        · rw [← hitem]
          exact FiniteTree.isFile_of_remove h hq
      · exact resumable_remove h hitem hr
    · split_ifs at h
      have hitem : item ≠ [] := by
        rintro rfl
        rw [FileTree.isFile, t.root] at hfile
        cases hfile
      have hdest : item = item.dropLast ++ [item.getLast hitem] := (List.dropLast_concat_getLast hitem).symm
      rw [show replaceFile t item item = replaceFile t item (item.dropLast ++ [item.getLast hitem]) from
        congrArg (replaceFile t item) hdest] at h
      refine resumable_replaceFile hfile h (fun he => ?_) hr
      have hlast : item.getLast? = some (lit ".factory-reset-pending") := by
        rw [he, markerPath, List.getLast?_concat]
      rwa [List.getLast?_eq_getLast_of_ne_nil hitem, Option.some.injEq] at hlast
    · cases h

theorem resumable_mkdirs {path : List Str} (h : t.mkdirs path = some t') (hr : Resumable paths t) :
    Resumable paths t' := by
  rcases hr with hp | hn
  · obtain ⟨data, hdata⟩ := hp
    refine .inl ⟨data, ?_⟩
    rw [FiniteTree.get_mkdirs h, hdata]
    simp
  · exact .inr fun d hd => (hn d hd).mono fun q hq => FiniteTree.isFile_of_mkdirs h hq

theorem resumable_ensure : ∀ {later : List (List Str)} {t t' : Tree}, ensure t later = some t' →
    Resumable paths t → Resumable paths t'
  | [], t, t', h, hr => by
    rwa [← Option.some.inj h]
  | path :: later, t, t', h, hr => by
    obtain ⟨t1, h1, h2⟩ := Option.bind_eq_some_iff.mp h
    exact resumable_ensure h2 (resumable_mkdirs h1 hr)

end Calls

/-! ### Runs -/

/-- The directories that are done have no files; while one is being deleted, what
is left in it is still to come. -/
def Deleted (paths : AppPaths) (s : State) : Prop :=
  match s.phase with
  | .clearing later =>
    (∀ d ∈ later, d ∈ directories paths) ∧ ∀ d ∈ directories paths, d ∈ later ∨ s.tree.NoFiles d
  | .removing directory order later =>
    (∀ d ∈ directory :: later, d ∈ directories paths) ∧
      (∀ d ∈ directories paths, d ∈ directory :: later ∨ s.tree.NoFiles d) ∧
      ∀ q, directory <+: q → s.tree.get q ≠ none → q ∈ order
  | .creating _ | .returned true => ∀ d ∈ directories paths, s.tree.NoFiles d
  | _ => True

structure ResetInv (paths : AppPaths) (s : State) : Prop where
  resumable : Resumable paths s.tree
  deleted : Deleted paths s

section Steps

variable {paths : AppPaths} {shred : Bool} {t : Tree}

theorem noFiles_of_not_exists {d : List Str} (h : ¬ Tree.pathExists t d = true) : t.NoFiles d := by
  refine FiniteTree.noFiles_of_not_dir fun hd => h ?_
  unfold Tree.pathExists
  rw [hd]

/-- One more of the items of a directory is removed. -/
theorem resetInv_remove {path directory : List Str} {order later : List (List Str)} {t' : Tree}
    (h : t.remove path = some t') (hI : ResetInv paths { tree := t, phase := .removing directory (path :: order) later })
    (hg : path = markerPath paths → OnlyMarker paths t (directory :: later)) :
    ResetInv paths { tree := t', phase := .removing directory order later } := by
  obtain ⟨hr, hin, hdone, horder⟩ := hI
  have hkeep (d : List Str) (hd : t.NoFiles d) : t'.NoFiles d :=
    hd.mono fun q hq => (FiniteTree.isFile_of_remove h hq).2
  refine ⟨?_, hin, fun d hd => (hdone d hd).imp_right (hkeep d), fun q hq hne => ?_⟩
  · by_cases hpath : path = markerPath paths
    · refine .inr fun d hd => ?_
      rcases hdone d hd with hlater | hnone
      · refine @noFiles_of_onlyMarker paths t _ d (fun d' hd' => ?_) fun q hq => ?_
        · exact hg hpath d' (List.mem_singleton.mp hd' ▸ hlater)
        · rw [← hpath]
          exact FiniteTree.isFile_of_remove h hq
      · exact hkeep d hnone
    · exact resumable_remove h hpath hr
  · rw [FiniteTree.get_remove h] at hne
    split_ifs at hne with hp
    · exact absurd rfl hne
    · exact (List.mem_cons.mp (horder q hq hne)).resolve_left hp

theorem resetInv_step {s s' : State} {l : Label} (hI : ResetInv paths s) (hg : MarksLast paths s l)
    (h : step paths shred s l = some s') : ResetInv paths s' := by
  obtain ⟨t, phase⟩ := s
  have hr := hI.resumable
  unfold step at h
  dsimp only at h hr
  split at h
  · -- the marker
    split_ifs at h <;> obtain rfl := Option.some.inj h <;> exact ⟨hr, trivial⟩
  · -- a directory to be overwritten
    split at h
    · obtain rfl := Option.some.inj h
      exact ⟨hr, trivial⟩
    · split at h
      · obtain rfl := Option.some.inj h
        exact ⟨hr, trivial⟩
      · split_ifs at h
        obtain rfl := Option.some.inj h
        exact ⟨hr, trivial⟩
  · -- a file to be overwritten
    split at h
    · obtain rfl := Option.some.inj h
      exact ⟨hr, trivial⟩
    · obtain ⟨t', ht', rfl⟩ := Option.map_eq_some_iff.mp h
      exact ⟨resumable_overwriteFile ht' hg hr, trivial⟩
  · -- all is overwritten
    obtain rfl := Option.some.inj h
    exact ⟨hr, fun _ hd => hd, fun _ hd => .inl hd⟩
  · -- an item below a directory
    obtain ⟨t', ht', rfl⟩ := Option.map_eq_some_iff.mp h
    exact ⟨resumable_overwriteFile ht' hg hr, trivial⟩
  · obtain rfl := Option.some.inj h
    exact ⟨hr, trivial⟩
  · -- a directory to be deleted
    next directory later order =>
    obtain ⟨hin, hdone⟩ := hI.deleted
    split at h
    · next hex =>
      obtain rfl := Option.some.inj h
      refine ⟨hr, fun d hd => hin d (List.mem_cons_of_mem _ hd), fun d hd => ?_⟩
      rcases hdone d hd with hlater | hnone
      · rcases List.mem_cons.mp hlater with rfl | hlater
        · exact .inr (noFiles_of_not_exists hex)
        · exact .inl hlater
      · exact .inr hnone
    · split at h
      · obtain rfl := Option.some.inj h
        exact ⟨hr, trivial⟩
      · split at h
        · obtain rfl := Option.some.inj h
          exact ⟨hr, trivial⟩
        · split_ifs at h with hperm
          obtain rfl := Option.some.inj h
          refine ⟨hr, hin, hdone, fun q hq hne => hperm.mem_iff.mpr ?_⟩
          by_cases he : q = directory
          · exact he ▸ List.mem_cons_self
          · exact List.mem_cons_of_mem _ (FiniteTree.mem_below.mpr ⟨hne, hq, he⟩)
  · -- all is deleted
    obtain rfl := Option.some.inj h
    exact ⟨hr, fun d hd => (hI.deleted.2 d hd).resolve_left List.not_mem_nil⟩
  · obtain ⟨t', ht', rfl⟩ := Option.map_eq_some_iff.mp h
    exact resetInv_remove ht' hI hg
  · -- a directory is deleted
    next directory later =>
    obtain rfl := Option.some.inj h
    obtain ⟨hin, hdone, horder⟩ := hI.deleted
    refine ⟨hr, fun d hd => hin d (List.mem_cons_of_mem _ hd), fun d hd => ?_⟩
    rcases hdone d hd with hlater | hnone
    · rcases List.mem_cons.mp hlater with rfl | hlater
      · refine .inr fun q hq _ => ?_
        have hgone : t.get q = none := by
          by_contra hne
          exact List.not_mem_nil (horder q hq hne)
        show t.isFile q = false
        rw [FileTree.isFile, hgone]
        rfl
      · exact .inl hlater
    · exact .inr hnone
  · -- a directory is created
    split at h
    · obtain rfl := Option.some.inj h
      exact ⟨hr, trivial⟩
    · next t' ht' =>
      obtain rfl := Option.some.inj h
      exact ⟨resumable_mkdirs ht' hr, fun d hd =>
        (hI.deleted d hd).mono fun q hq => FiniteTree.isFile_of_mkdirs ht' hq⟩
  · obtain rfl := Option.some.inj h
    exact ⟨hr, hI.deleted⟩
  · cases h
  · obtain ⟨t', ht', rfl⟩ := Option.map_eq_some_iff.mp h
    exact ⟨resumable_ensure ht' hr, trivial⟩
  · cases h

theorem resetInv_of_marksLast {s : State} (h : ((resets paths shred).restrict (MarksLast paths)).Reachable s) :
    ResetInv paths s := by
  refine h.inv ?_ ?_
  · rintro ⟨t, phase⟩ ⟨rfl, hp⟩
    exact ⟨.inl hp, trivial⟩
  · rintro s l s' hI ⟨hg, hst⟩
    exact resetInv_step hI hg hst

/-- **The reset can be resumed wherever the process dies**, in every run in which
the marker is taken away only when no other file is left in the directories
that are not yet deleted. -/
theorem resumable_of_marksLast {s : State} (h : ((resets paths shred).restrict (MarksLast paths)).Reachable s) :
    Resumable paths s.tree :=
  (resetInv_of_marksLast h).resumable

/-- A reset that has returned has deleted every file. -/
theorem noFiles_of_returned {s : State} (h : ((resets paths shred).restrict (MarksLast paths)).Reachable s)
    (hs : s.phase = .returned true) {d : List Str} (hd : d ∈ directories paths) : s.tree.NoFiles d := by
  have hdel := (resetInv_of_marksLast h).deleted
  unfold Deleted at hdel
  rw [hs] at hdel
  exact hdel d hd

/-! ### A marker that is taken away too early -/

/-- Without the marker, no file may be left. -/
theorem onlyMarker_of_resumable {t' : Tree} {ds : List (List Str)} (hds : ∀ d ∈ ds, d ∈ directories paths)
    (h : t.remove (markerPath paths) = some t') (hr : Resumable paths t') : OnlyMarker paths t ds := by
  intro d hd q hq hfile
  by_contra hne
  obtain ⟨-, hdq, hqd⟩ := FiniteTree.mem_below.mp hq
  have hget : t'.get q = t.get q := by rw [FiniteTree.get_remove h, if_neg hne]
  rcases hr with ⟨data, hdata⟩ | hn
  · rw [FiniteTree.get_remove h, if_pos rfl] at hdata
    cases hdata
  · have hnone := hn d (hds d hd) q hdq hqd
    rw [FileTree.isFile, hget] at hnone
    rw [FileTree.isFile, hnone] at hfile
    cases hfile

theorem spares_of_resumable {t' : Tree} {outcome : Overwrite} (hp : Pending paths t)
    (h : overwriteFile shred t (markerPath paths) outcome = some t') (hr : Resumable paths t') :
    Spares paths t outcome := by
  obtain ⟨old, hold⟩ := hp
  have hreg := regular?_eq_some.mpr hold
  unfold overwriteFile at h
  rw [hreg] at h
  cases outcome with
  | zeros written => trivial
  | shredded name data =>
    cases shred with
    | false => cases h
    | true =>
      by_contra hname
      have hdest : (markerPath paths).dropLast ++ [name] = paths.configDir ++ [name] := by
        rw [markerPath, List.dropLast_concat]
      have hne : markerPath paths ≠ paths.configDir ++ [name] := by
        intro he
        exact hname (List.singleton_injective (List.append_cancel_left he)).symm
      have hget := get_replaceFile h
      rw [hdest] at hget
      rcases hr with ⟨data', hdata⟩ | hn
      · rw [hget, Function.update_of_ne hne, if_pos rfl] at hdata
        cases hdata
      · have hnone := hn paths.configDir (by simp [directories]) (paths.configDir ++ [name])
          (List.prefix_append _ _) (by simp)
        rw [FileTree.isFile, hget, Function.update_self] at hnone
        cases hnone
  | removed =>
    cases shred with
    | false => cases h
    | true => exact onlyMarker_of_resumable (fun _ hd => hd) h hr

/-- **The condition is exact.** A step that takes the marker away too early leaves
files that no later start deletes. -/
theorem resumable_iff_marksLast {s s' : State} {l : Label}
    (h : ((resets paths shred).restrict (MarksLast paths)).Reachable s) (hp : Pending paths s.tree)
    (hs : step paths shred s l = some s') : Resumable paths s'.tree ↔ MarksLast paths s l := by
  have hI := resetInv_of_marksLast h
  refine ⟨fun hr => ?_, fun hg => (resetInv_step hI hg hs).resumable⟩
  obtain ⟨t, phase⟩ := s
  dsimp only at hp
  unfold MarksLast
  dsimp only
  split
  · rintro rfl
    obtain ⟨t', ht', rfl⟩ := Option.map_eq_some_iff.mp hs
    exact onlyMarker_of_resumable hI.deleted.1 ht' hr
  · rintro rfl
    obtain ⟨t', ht', rfl⟩ := Option.map_eq_some_iff.mp hs
    exact spares_of_resumable hp ht' hr
  · rintro rfl
    have hex : Tree.pathExists t (markerPath paths) = true := by
      obtain ⟨data, hdata⟩ := hp
      unfold Tree.pathExists
      rw [hdata]
    unfold step at hs
    dsimp only at hs
    rw [if_neg (not_not.mpr hex)] at hs
    obtain ⟨t', ht', rfl⟩ := Option.map_eq_some_iff.mp hs
    exact spares_of_resumable hp ht' hr
  · trivial

end Steps

/-! ### Two runs -/

def samplePaths : AppPaths where
  configDir := [lit "config"]
  dataDir := [lit "data"]
  stateDir := [lit "state"]
  cacheDir := [lit "cache"]

def configFile : List Str := samplePaths.configDir ++ [lit "config.toml"]

/-- The directories of the application, with its settings and a reset that is
asked for. -/
def sampleTree : Option Tree := do
  let t ← ensure FiniteTree.empty samplePaths.created
  let t ← t.create configFile (.regular (ascii "locale = \"de\"\n"))
  requestFactoryReset samplePaths t

/-- A reset up to the deletion of the configuration, whose directory is listed in
this order. -/
def resetUntil (order : List (List Str)) : List Label :=
  [.proceed, .listed [], .proceed, .listed [], .proceed] ++ List.replicate 6 (.overwritten (.zeros 0)) ++
    [.proceed, .listed [samplePaths.stateDir], .proceed, .proceed,
      .listed [samplePaths.gnupgHome, samplePaths.vaultDir, samplePaths.dataDir], .proceed, .proceed, .proceed,
      .proceed, .listed [samplePaths.cacheDir], .proceed, .proceed, .listed order]

/-- The marker comes last, and the reset is finished. -/
theorem resumable_sample : ∃ t s, sampleTree = some t ∧
    System.runLabels (System.guarded (MarksLast samplePaths) (step samplePaths false)) { tree := t, phase := .start }
      (resetUntil [configFile, markerPath samplePaths, samplePaths.configDir] ++ List.replicate 12 .proceed) =
        some s ∧ s.phase = .returned true ∧ Resumable samplePaths s.tree := by
  have hrun : (sampleTree.any fun t => Pending samplePaths t ∧ (System.runLabels
      (System.guarded (MarksLast samplePaths) (step samplePaths false)) { tree := t, phase := .start }
      (resetUntil [configFile, markerPath samplePaths, samplePaths.configDir] ++ List.replicate 12 .proceed)).any
        fun s => s.phase = .returned true) = true := by
    decide +kernel
  obtain ⟨t, ht, h⟩ := (Option.any_eq_true _ _).mp hrun
  obtain ⟨hp, h⟩ := of_decide_eq_true h
  obtain ⟨s, hs, hphase⟩ := (Option.any_eq_true _ _).mp h
  exact ⟨t, s, ht, hs, of_decide_eq_true hphase, @resumable_of_marksLast samplePaths false s
    (System.reachable_restrict_of_runLabels _ (.init ⟨rfl, hp⟩) hs)⟩

/-- The marker is listed before the settings: a process that dies when it has
deleted the marker leaves the settings, and no later start deletes them. -/
theorem not_resumable_sample : ∃ t s, sampleTree = some t ∧ (resets samplePaths false).Reachable s ∧
    System.runLabels (step samplePaths false) { tree := t, phase := .start }
      (resetUntil [markerPath samplePaths, configFile, samplePaths.configDir] ++ [.proceed]) = some s ∧
        s.tree.isFile configFile = true ∧ ¬ Resumable samplePaths s.tree := by
  have hrun : (sampleTree.any fun t => Pending samplePaths t ∧ (System.runLabels
      (step samplePaths false) { tree := t, phase := .start }
      (resetUntil [markerPath samplePaths, configFile, samplePaths.configDir] ++ [.proceed])).any fun s =>
        s.tree.isFile configFile = true ∧ ¬ Resumable samplePaths s.tree) = true := by
    decide +kernel
  obtain ⟨t, ht, h⟩ := (Option.any_eq_true _ _).mp hrun
  obtain ⟨hp, h⟩ := of_decide_eq_true h
  obtain ⟨s, hs, h⟩ := (Option.any_eq_true _ _).mp h
  exact ⟨t, s, ht, System.reachable_of_runLabels _ (.init ⟨rfl, hp⟩) hs, hs, of_decide_eq_true h⟩

end FactoryReset
end GpgMeister
