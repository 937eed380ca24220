/-
# What is in the archive of a folder

A folder walked in the order in which `TarFile.add` walks it (`walk`), what is
found at a path of it (`Folder.find`), and what `pack` keeps of the walk
(`members_of_pack`): the directories, and each file under the first of its
names.
-/
import GpgMeister.Services.FolderService

namespace GpgMeister
namespace FolderService

open Program

/-! ### What is at a path -/

mutual

/-- The node at a path. -/
def Node.find : Node → List Str → Option Node
  | node, [] => some node
  | .dir entries, a :: path => findEntries entries a path
  | _, _ :: _ => none

def findEntries : List (FileName × Node) → Str → List Str → Option Node
  | [], _, _ => none
  | (name, node) :: entries, a, path => if name.val = a then node.find path else findEntries entries a path

end

/-- The node at a path of the folder. -/
def Folder.find (folder : Folder) (path : List Str) : Option Node := (Node.dir folder.entries).find path

/-- A directory or a file, with what it holds. -/
def entryOf (content : ℕ → Except Exc Bytes) : Node → Option (FileEntry Bytes)
  | .dir _ => some .dir
  | .file inode => (content inode).toOption.map .file
  | _ => none

/-- The directory or the file at a path of the folder. -/
def Folder.entryAt (folder : Folder) (path : List Str) : Option (FileEntry Bytes) :=
  (folder.find path).bind (entryOf folder.content)

/-! ### The walk -/

mutual

/-- The nodes with their paths, each directory before what is in it. -/
def walk : List Str → Node → List (List Str × Node)
  | path, .dir entries => (path, .dir entries) :: walkEntries path entries
  | path, node => [(path, node)]

def walkEntries : List Str → List (FileName × Node) → List (List Str × Node)
  | _, [] => []
  | path, (name, node) :: entries => walk (path ++ [name.val]) node ++ walkEntries path entries

end

theorem keyLe_refl : ∀ s : Str, Json.keyLe s s = true
  | [] => rfl
  | a :: s => by simp [Json.keyLe, keyLe_refl s]

/-- What is found is under one of the names. -/
theorem exists_of_findEntries {a : Str} {path : List Str} {node : Node} : ∀ {entries : List (FileName × Node)},
    findEntries entries a path = some node → ∃ e ∈ entries, e.1.val = a
  | [], h => by simp [findEntries] at h
  | (name, child) :: entries, h => by
    rw [findEntries] at h
    split_ifs at h with hname
    · exact ⟨_, List.mem_cons_self, hname⟩
    · obtain ⟨e, he, hea⟩ := exists_of_findEntries h
      exact ⟨e, List.mem_cons_of_mem _ he, hea⟩

/-- A name does not come again. -/
theorem ne_of_findEntries {name : FileName} {child : Node} {entries : List (FileName × Node)}
    (h : SortedEntries ((name, child) :: entries)) {a : Str} {path : List Str} {node : Node}
    (hf : findEntries entries a path = some node) : name.val ≠ a := by
  rw [SortedEntries] at h
  obtain ⟨e, he, rfl⟩ := exists_of_findEntries hf
  intro heq
  have hle := h.1 e he
  rw [heq, keyLe_refl] at hle
  cases hle

@[simp] theorem find_nil (node : Node) : node.find [] = some node := by
  cases node <;> rfl

/-- Below what is no directory nothing is found. -/
theorem mem_walk_leaf {node : Node} {path : List Str} (hwalk : walk path node = [(path, node)])
    (hfind : ∀ a p, node.find (a :: p) = none) {q : List Str} {m : Node} :
    (q, m) ∈ walk path node ↔ ∃ p, q = path ++ p ∧ node.find p = some m := by
  rw [hwalk, List.mem_singleton]
  constructor
  · intro he
    obtain ⟨rfl, rfl⟩ := Prod.mk.inj he
    exact ⟨[], (List.append_nil _).symm, find_nil _⟩
  · rintro ⟨_ | ⟨a, p⟩, rfl, hf⟩
    · rw [find_nil] at hf
      rw [List.append_nil, Option.some.inj hf]
    · rw [hfind] at hf
      cases hf

mutual

/-- The walk visits what is found, under its path. -/
theorem mem_walk {q : List Str} {m : Node} : ∀ {node : Node} {path : List Str}, node.Sorted →
    ((q, m) ∈ walk path node ↔ ∃ p, q = path ++ p ∧ node.find p = some m)
  | .dir entries, path, h => by
    rw [Node.Sorted] at h
    rw [walk, List.mem_cons, mem_walkEntries h]
    constructor
    · rintro (he | ⟨a, p, rfl, hf⟩)
      · obtain ⟨rfl, rfl⟩ := Prod.mk.inj he
        exact ⟨[], (List.append_nil _).symm, rfl⟩
      · exact ⟨a :: p, rfl, hf⟩
    · rintro ⟨_ | ⟨a, p⟩, rfl, hf⟩
      · rw [Node.find] at hf
        rw [List.append_nil, Option.some.inj hf]
        exact .inl rfl
      · exact .inr ⟨a, p, rfl, hf⟩
  | .file inode, path, h => mem_walk_leaf rfl fun _ _ => rfl
  | .symlink, path, h => mem_walk_leaf rfl fun _ _ => rfl
  | .special kind, path, h => mem_walk_leaf rfl fun _ _ => rfl

theorem mem_walkEntries {q : List Str} {m : Node} : ∀ {entries : List (FileName × Node)} {path : List Str},
    SortedEntries entries →
      ((q, m) ∈ walkEntries path entries ↔ ∃ a p, q = path ++ a :: p ∧ findEntries entries a p = some m)
  | [], path, h => by simp [walkEntries, findEntries]
  | (name, node) :: entries, path, h => by
    have h' := h
    rw [SortedEntries] at h'
    rw [walkEntries, List.mem_append, mem_walk h'.2.1, mem_walkEntries h'.2.2]
    constructor
    · rintro (⟨p, rfl, hf⟩ | ⟨a, p, rfl, hf⟩)
      · refine ⟨name.val, p, by simp, ?_⟩
        rw [findEntries, if_pos rfl]
        exact hf
      · refine ⟨a, p, rfl, ?_⟩
        rw [findEntries, if_neg (ne_of_findEntries h hf)]
        exact hf
    · rintro ⟨a, p, rfl, hf⟩
      rw [findEntries] at hf
      split_ifs at hf with hname
      · exact .inl ⟨p, by simp [hname], hf⟩
      · exact .inr ⟨a, p, rfl, hf⟩

end

mutual

/-- No path is visited twice. -/
theorem nodup_walk : ∀ {node : Node} {path : List Str}, node.Sorted → ((walk path node).map Prod.fst).Nodup
  | .dir entries, path, h => by
    rw [Node.Sorted] at h
    rw [walk, List.map_cons, List.nodup_cons]
    refine ⟨fun hm => ?_, nodup_walkEntries h⟩
    obtain ⟨⟨q, m⟩, hq, he⟩ := List.mem_map.mp hm
    obtain ⟨a, p, rfl, -⟩ := (mem_walkEntries h).mp hq
    simp at he
  | .file inode, path, h => List.nodup_singleton path
  | .symlink, path, h => List.nodup_singleton path
  | .special kind, path, h => List.nodup_singleton path

theorem nodup_walkEntries : ∀ {entries : List (FileName × Node)} {path : List Str}, SortedEntries entries →
    ((walkEntries path entries).map Prod.fst).Nodup
  | [], path, h => List.nodup_nil
  | (name, node) :: entries, path, h => by
    have h' := h
    rw [SortedEntries] at h'
    rw [walkEntries, List.map_append, List.nodup_append]
    refine ⟨nodup_walk h'.2.1, nodup_walkEntries h'.2.2, ?_⟩
    rintro q hq _ hq' rfl
    obtain ⟨⟨_, m⟩, hm, rfl⟩ := List.mem_map.mp hq
    obtain ⟨⟨_, m'⟩, hm', he⟩ := List.mem_map.mp hq'
    obtain ⟨p, rfl, -⟩ := (mem_walk h'.2.1).mp hm
    obtain ⟨a, p', rfl, hf⟩ := (mem_walkEntries h'.2.2).mp hm'
    -- The two paths differ in the name that comes first.
    rw [List.append_assoc, List.append_right_inj, List.singleton_append, List.cons.injEq] at he
    exact ne_of_findEntries h hf he.1.symm

end

/-- Everything lies in one of these directories, or in one that comes before
it. -/
def Ordered (above : List (List Str)) : List (List Str × Node) → Prop
  | [] => True
  | (q, .dir _) :: l => q.dropLast ∈ above ∧ Ordered (q :: above) l
  | (q, _) :: l => q.dropLast ∈ above ∧ Ordered above l

theorem Ordered.mono : ∀ {l : List (List Str × Node)} {above above' : List (List Str)}, Ordered above l →
    above ⊆ above' → Ordered above' l
  | [], _, _, _, _ => trivial
  | (q, .dir _) :: _, _, _, h, hsub => ⟨hsub h.1, h.2.mono (List.cons_subset_cons q hsub)⟩
  | (_, .file _) :: _, _, _, h, hsub => ⟨hsub h.1, h.2.mono hsub⟩
  | (_, .symlink) :: _, _, _, h, hsub => ⟨hsub h.1, h.2.mono hsub⟩
  | (_, .special _) :: _, _, _, h, hsub => ⟨hsub h.1, h.2.mono hsub⟩

theorem Ordered.append : ∀ {l l' : List (List Str × Node)} {above : List (List Str)}, Ordered above l →
    Ordered above l' → Ordered above (l ++ l')
  | [], _, _, _, h' => h'
  | (q, .dir _) :: _, _, above, h, h' =>
    ⟨h.1, h.2.append (h'.mono (List.subset_cons_self q above))⟩
  | (_, .file _) :: _, _, _, h, h' => ⟨h.1, h.2.append h'⟩
  | (_, .symlink) :: _, _, _, h, h' => ⟨h.1, h.2.append h'⟩
  | (_, .special _) :: _, _, _, h, h' => ⟨h.1, h.2.append h'⟩

mutual

theorem ordered_walk : ∀ {node : Node} {path : List Str} {above : List (List Str)}, path.dropLast ∈ above →
    Ordered above (walk path node)
  | .dir _, _, _, h => ⟨h, ordered_walkEntries List.mem_cons_self⟩
  | .file _, _, _, h => ⟨h, trivial⟩
  | .symlink, _, _, h => ⟨h, trivial⟩
  | .special _, _, _, h => ⟨h, trivial⟩

theorem ordered_walkEntries : ∀ {entries : List (FileName × Node)} {path : List Str} {above : List (List Str)},
    path ∈ above → Ordered above (walkEntries path entries)
  | [], path, above, h => trivial
  | (name, node) :: entries, path, above, h =>
    (ordered_walk (by rwa [List.dropLast_concat])).append (ordered_walkEntries h)

end

/-! ### Names -/

/-- A name of a file system. -/
def IsName (a : Str) : Prop := ∃ name : FileName, name.val = a

mutual

theorem isName_of_find : ∀ {node : Node} {path : List Str} {m : Node}, node.find path = some m →
    ∀ a ∈ path, IsName a
  | node, [], m, _, a, ha => by simp at ha
  | .dir entries, b :: path, m, h, a, ha => isName_of_findEntries h a ha
  | .file inode, b :: path, m, h, a, ha => by cases h
  | .symlink, b :: path, m, h, a, ha => by cases h
  | .special kind, b :: path, m, h, a, ha => by cases h

theorem isName_of_findEntries : ∀ {entries : List (FileName × Node)} {b : Str} {path : List Str} {m : Node},
    findEntries entries b path = some m → ∀ a ∈ b :: path, IsName a
  | [], b, path, m, h, a, ha => by simp [findEntries] at h
  | (name, node) :: entries, b, path, m, h, a, ha => by
    rw [findEntries] at h
    split_ifs at h with hname
    · rcases List.mem_cons.mp ha with rfl | ha
      · exact ⟨name, hname⟩
      · exact isName_of_find h a ha
    · exact isName_of_findEntries h a ha

end

/-- The name in the archive. -/
def nameOf (path : List Str) : Str := List.intercalate [slash] path

theorem nameOf_singleton (a : Str) : nameOf [a] = a := List.intercalate_singleton

theorem nameOf_concat {path : List Str} (h : path ≠ []) (name : FileName) :
    nameOf (path ++ [name.val]) = joinName (nameOf path) name := by
  unfold nameOf joinName
  induction path with
  | nil => exact absurd rfl h
  | cons a path ih =>
    by_cases hp : path = []
    · subst hp
      simp
    · rw [List.cons_append, List.intercalate_cons_of_ne_nil (by simp), ih hp, List.intercalate_cons_of_ne_nil hp]
      simp

/-- The parts of a name are those it was made of. -/
theorem relativeParts_nameOf {path : List Str} (hne : path ≠ []) (hnames : ∀ a ∈ path, IsName a) :
    relativeParts (nameOf path) = path := by
  have hslash : ∀ a ∈ path, slash ∉ a := by
    intro a ha
    obtain ⟨name, rfl⟩ := hnames a ha
    exact name.slash_not_mem
  unfold relativeParts nameOf
  rw [List.splitOn_intercalate slash hslash hne, List.filter_eq_self]
  intro a ha
  obtain ⟨name, rfl⟩ := hnames a ha
  simp [name.ne_nil, name.ne_dot]

theorem isAbsolute_nameOf {path : List Str} (hnames : ∀ a ∈ path, IsName a) : isAbsolute (nameOf path) = false := by
  unfold isAbsolute nameOf
  rcases path with _ | ⟨a, path⟩
  · rfl
  · obtain ⟨name, rfl⟩ := hnames a List.mem_cons_self
    obtain ⟨c, s, hc⟩ := List.exists_cons_of_ne_nil name.ne_nil
    have hslash := name.slash_not_mem
    rw [hc] at hslash ⊢
    have hne : c ≠ slash := fun he => hslash (by rw [he]; exact List.mem_cons_self)
    simp [hne]

theorem pathParts_nameOf {path : List Str} (hne : path ≠ []) (hnames : ∀ a ∈ path, IsName a) :
    pathParts (nameOf path) = path := by
  rw [pathParts, isAbsolute_nameOf hnames, if_neg (by decide), relativeParts_nameOf hne hnames]

theorem backslash_mem_nameOf {path : List Str} : backslash ∈ nameOf path ↔ ∃ a ∈ path, backslash ∈ a := by
  unfold nameOf
  induction path with
  | nil => simp
  | cons a path ih =>
    by_cases hp : path = []
    · subst hp
      simp
    · rw [List.intercalate_cons_of_ne_nil hp, List.mem_append, ih]
      have hne : backslash ≠ slash := by decide
      simp [hne]

/-! ### Packing -/

/-- What `addOne` does. -/
theorem run_addOne (content : ℕ → Except Exc Bytes) (arcname : Str) (p : Packing) :
    (∀ entries, (addOne content arcname (.dir entries)).run p =
      .ok true { p with members := p.members ++ [{ name := arcname, type := .dir }] }) ∧
    (∀ inode linkname, p.inodes.lookup inode = some linkname → (addOne content arcname (.file inode)).run p = .ok false p) ∧
    (∀ inode data, p.inodes.lookup inode = none → content inode = .ok data → (addOne content arcname (.file inode)).run p =
      .ok false
        { inodes := p.inodes ++ [(inode, arcname)]
          members := p.members ++ [{ name := arcname, type := .reg, data }]
          fileCount := p.fileCount + 1 }) ∧
    (∀ inode e, p.inodes.lookup inode = none → content inode = .error e →
      ∃ p', (addOne content arcname (.file inode)).run p = .error e p') ∧
    ((addOne content arcname .symlink).run p = .ok false p) ∧
    ∀ kind, (addOne content arcname (.special kind)).run p = .ok false p := by
  refine ⟨fun entries => rfl, fun inode linkname h => ?_, fun inode data h hc => ?_, fun inode e h hc => ?_, rfl,
    fun kind => ?_⟩
  · unfold addOne gettarinfo
    simp [h, regularOnly, TarInfo.isfile, TarInfo.isdir]
  · unfold addOne gettarinfo
    simp only [bind_pure_comp, regularOnly, TarInfo.isfile, decide_eq_true_eq, readNode, hc, addfile, bind_assoc,
      EStateM.run_bind, EStateM.run_get, h, bind_map_left, ↓reduceIte, EStateM.run_modify, run_ofExcept_ok]
    rfl
  · unfold addOne gettarinfo
    simp [h, hc, regularOnly, TarInfo.isfile, readNode, addfile]
  · cases kind <;> rfl

/-- One name after the other. -/
def addWalk (content : ℕ → Except Exc Bytes) : List (List Str × Node) → Program Packing Exc Unit
  | [] => return
  | (path, node) :: l => do
    let _ ← addOne content (nameOf path) node
    addWalk content l

theorem addWalk_append (content : ℕ → Except Exc Bytes) (l' : List (List Str × Node)) (p : Packing) :
    ∀ l, (addWalk content (l ++ l')).run p = (addWalk content l >>= fun _ => addWalk content l').run p
  | [] => rfl
  | (path, node) :: l => by
    rw [List.cons_append, addWalk, addWalk, bind_assoc, EStateM.run_bind, EStateM.run_bind]
    cases (addOne content (nameOf path) node).run p with
    | error e p1 => rfl
    | ok b p1 => exact addWalk_append content l' p1 l

mutual

/-- `add` follows the walk. -/
theorem run_add (content : ℕ → Except Exc Bytes) : ∀ (node : Node) {path : List Str} (p : Packing), path ≠ [] →
    (add content (nameOf path) node).run p = (addWalk content (walk path node)).run p
  | .dir entries, path, p, h => by
    rw [add, walk, addWalk, EStateM.run_bind, EStateM.run_bind, (run_addOne content _ p).1]
    exact run_addEntries content entries _ h
  | .file inode, path, p, h => rfl
  | .symlink, path, p, h => rfl
  | .special kind, path, p, h => rfl

theorem run_addEntries (content : ℕ → Except Exc Bytes) : ∀ (entries : List (FileName × Node)) {path : List Str}
    (p : Packing), path ≠ [] →
      (addEntries content (nameOf path) entries).run p = (addWalk content (walkEntries path entries)).run p
  | [], path, p, h => rfl
  | (name, node) :: entries, path, p, h => by
    rw [addEntries, walkEntries, addWalk_append, EStateM.run_bind, EStateM.run_bind, ← nameOf_concat h,
      run_add content node p (by simp)]
    cases (addWalk content (walk (path ++ [name.val]) node)).run p with
    | error e p1 => rfl
    | ok u p1 => exact run_addEntries content entries p1 h

end

/-- What is kept of a walk once these inodes have been seen: directories, and
files that have not been. -/
def keep : List ℕ → List (List Str × Node) → List (List Str × Node)
  | _, [] => []
  | seen, (q, .dir entries) :: l => (q, .dir entries) :: keep seen l
  | seen, (q, .file inode) :: l =>
    if inode ∈ seen then keep seen l else (q, .file inode) :: keep (seen ++ [inode]) l
  | seen, (_, .symlink) :: l => keep seen l
  | seen, (_, .special _) :: l => keep seen l

/-- The member that is made of a directory or a file. -/
def memberOf (content : ℕ → Except Exc Bytes) : List Str × Node → Member
  | (path, .file inode) => { name := nameOf path, type := .reg, data := (content inode).toOption.getD [] }
  | (path, _) => { name := nameOf path, type := .dir }

/-- Everything that is kept could be read. -/
def Readable (content : ℕ → Except Exc Bytes) (l : List (List Str × Node)) : Prop :=
  ∀ e ∈ l, (entryOf content e.2).isSome = true

/-- The members are those that are kept. -/
theorem members_of_addWalk {content : ℕ → Except Exc Bytes} {u : Unit} : ∀ {l : List (List Str × Node)} {p p' : Packing},
    (addWalk content l).run p = .ok u p' →
      p'.members = p.members ++ (keep (p.inodes.map Prod.fst) l).map (memberOf content) ∧
        Readable content (keep (p.inodes.map Prod.fst) l)
  | [], p, p', h => by
    obtain ⟨-, rfl⟩ := run_pure_eq_ok.mp h
    exact ⟨(List.append_nil _).symm, fun e he => absurd he (by simp [keep])⟩
  | (path, node) :: l, p, p', h => by
    rw [addWalk] at h
    obtain ⟨b, p1, hone, hrest⟩ := run_bind_eq_ok.mp h
    obtain ⟨hdir, hseen, hnew, hbad, hlink, hspecial⟩ := run_addOne content (nameOf path) p
    obtain ⟨hmembers, hread⟩ := members_of_addWalk hrest
    -- What is not kept changes nothing.
    have hskip (hp : p = p1) (hk : keep (p.inodes.map Prod.fst) ((path, node) :: l) = keep (p.inodes.map Prod.fst) l) :
        p'.members = p.members ++ (keep (p.inodes.map Prod.fst) ((path, node) :: l)).map (memberOf content) ∧
          Readable content (keep (p.inodes.map Prod.fst) ((path, node) :: l)) := by
      rw [hk, hp]
      exact ⟨hmembers, hread⟩
    cases node with
    | dir entries =>
      rw [hdir] at hone
      obtain ⟨-, rfl⟩ := EStateM.Result.ok.inj hone
      refine ⟨?_, fun e he => ?_⟩
      · rw [hmembers, List.append_assoc]
        rfl
      · rcases List.mem_cons.mp he with rfl | he
        · rfl
        · exact hread e he
    | file inode =>
      cases hl : p.inodes.lookup inode with
      | some linkname =>
        rw [hseen inode linkname hl] at hone
        have hmem : inode ∈ p.inodes.map Prod.fst := by
          obtain ⟨before, after, hsplit, -⟩ := List.lookup_eq_some_iff.mp hl
          rw [hsplit]
          simp
        exact hskip (EStateM.Result.ok.inj hone).2 (if_pos hmem)
      | none =>
        have hmem : inode ∉ p.inodes.map Prod.fst := by
          intro hm
          obtain ⟨b, hb, he⟩ := List.mem_map.mp hm
          have hne := List.lookup_eq_none_iff.mp hl b hb
          rw [he] at hne
          simp at hne
        cases hc : content inode with
        | error e =>
          obtain ⟨p2, hp2⟩ := hbad inode e hl hc
          rw [hp2] at hone
          cases hone
        | ok data =>
          rw [hnew inode data hl hc] at hone
          obtain ⟨-, rfl⟩ := EStateM.Result.ok.inj hone
          rw [List.map_append] at hmembers hread
          have hkeep : keep (p.inodes.map Prod.fst) ((path, .file inode) :: l) =
              (path, .file inode) :: keep (p.inodes.map Prod.fst ++ [inode]) l := if_neg hmem
          have hmember : memberOf content (path, .file inode) = { name := nameOf path, type := .reg, data } := by
            simp [memberOf, hc, Except.toOption]
          rw [hkeep]
          refine ⟨?_, fun e he => ?_⟩
          · show _ = p.members ++ (memberOf content (path, .file inode) :: _)
            rw [hmember, hmembers, List.append_assoc]
            rfl
          · rcases List.mem_cons.mp he with rfl | he
            · simp [entryOf, hc, Except.toOption]
            · exact hread e he
    | symlink =>
      rw [hlink] at hone
      exact hskip (EStateM.Result.ok.inj hone).2 rfl
    | special kind =>
      rw [hspecial] at hone
      exact hskip (EStateM.Result.ok.inj hone).2 rfl

/-- The walk of a folder, from its name. -/
def Folder.walk (folder : Folder) : List (List Str × Node) :=
  FolderService.walk [folder.name.val] (.dir folder.entries)

/-- What is kept of a folder. -/
def Folder.kept (folder : Folder) : List (List Str × Node) := keep [] folder.walk

/-- What is in an archive that was packed. -/
theorem members_of_pack {folder : Folder} {members : List Member} {n : ℕ} (h : pack folder = .ok (members, n)) :
    members = folder.kept.map (memberOf folder.content) ∧ Readable folder.content folder.kept := by
  unfold pack at h
  have hadd := run_add folder.content (.dir folder.entries) {} (List.cons_ne_nil folder.name.val [])
  rw [nameOf_singleton] at hadd
  rw [hadd] at h
  cases hw : (addWalk folder.content (FolderService.walk [folder.name.val] (.dir folder.entries))).run {} with
  | error e p =>
    rw [hw] at h
    cases h
  | ok u p =>
    rw [hw] at h
    obtain ⟨rfl, -⟩ := Prod.mk.inj (Except.ok.inj h)
    exact members_of_addWalk hw

/-! ### What is kept -/

/-- What is kept is on the walk. -/
theorem keep_sublist : ∀ (seen : List ℕ) (l : List (List Str × Node)), (keep seen l).Sublist l
  | _, [] => .slnil
  | seen, (q, .dir entries) :: l => (keep_sublist seen l).cons_cons _
  | seen, (q, .file inode) :: l => by
    rw [keep]
    split_ifs
    · exact (keep_sublist seen l).cons _
    · exact (keep_sublist _ l).cons_cons _
  | seen, (q, .symlink) :: l => (keep_sublist seen l).cons _
  | seen, (q, .special _) :: l => (keep_sublist seen l).cons _

/-- Every directory is kept, so what is kept lies in directories that are. -/
theorem ordered_keep : ∀ {l : List (List Str × Node)} {seen : List ℕ} {above : List (List Str)}, Ordered above l →
    Ordered above (keep seen l)
  | [], _, _, _ => trivial
  | (q, .dir entries) :: l, _, _, h => ⟨h.1, ordered_keep h.2⟩
  | (q, .file inode) :: l, seen, _, h => by
    rw [keep]
    split_ifs
    · exact ordered_keep h.2
    · exact ⟨h.1, ordered_keep h.2⟩
  | (q, .symlink) :: l, _, _, h => @ordered_keep l _ _ h.2
  | (q, .special _) :: l, _, _, h => @ordered_keep l _ _ h.2

/-- A file that is kept has not been seen. -/
theorem not_mem_of_keep {q : List Str} {inode : ℕ} : ∀ {l : List (List Str × Node)} {seen : List ℕ},
    (q, .file inode) ∈ keep seen l → inode ∉ seen
  | [], _, h => by simp [keep] at h
  | (_, .dir entries) :: l, seen, h => not_mem_of_keep ((List.mem_cons.mp h).resolve_left (by simp))
  | (q', .file inode') :: l, seen, h => by
    rw [keep] at h
    split_ifs at h with hs
    · exact not_mem_of_keep h
    · rcases List.mem_cons.mp h with he | h
      · obtain ⟨-, rfl⟩ : q = q' ∧ inode = inode' := by simpa using he
        exact hs
      · exact fun hm => not_mem_of_keep h (List.mem_append_left _ hm)
  | (_, .symlink) :: l, seen, h => @not_mem_of_keep q inode l seen h
  | (_, .special _) :: l, seen, h => @not_mem_of_keep q inode l seen h

/-- A file is kept under one name. -/
theorem eq_of_mem_keep {q q' : List Str} {inode : ℕ} : ∀ {l : List (List Str × Node)} {seen : List ℕ},
    (q, .file inode) ∈ keep seen l → (q', .file inode) ∈ keep seen l → q = q'
  | [], _, h, _ => by simp [keep] at h
  | (_, .dir entries) :: l, seen, h, h' =>
    eq_of_mem_keep ((List.mem_cons.mp h).resolve_left (by simp)) ((List.mem_cons.mp h').resolve_left (by simp))
  | (p, .file i) :: l, seen, h, h' => by
    rw [keep] at h h'
    split_ifs at h h' with hs
    · exact eq_of_mem_keep h h'
    · have hfirst {q : List Str} (h : (q, Node.file inode) ∈ keep (seen ++ [i]) l) : inode ≠ i := fun he =>
        not_mem_of_keep h (by simp [he])
      rcases List.mem_cons.mp h with he | h <;> rcases List.mem_cons.mp h' with he' | h'
      · simp only [Prod.mk.injEq] at he he'
        rw [he.1, he'.1]
      · exact absurd (by simpa using (Prod.mk.inj he).2) (hfirst h')
      · exact absurd (by simpa using (Prod.mk.inj he').2) (hfirst h)
      · exact eq_of_mem_keep h h'
  | (_, .symlink) :: l, seen, h, h' => @eq_of_mem_keep q q' inode l seen h h'
  | (_, .special _) :: l, seen, h, h' => @eq_of_mem_keep q q' inode l seen h h'

/-- A file that has not been seen is kept under one of its names. -/
theorem exists_mem_keep {q : List Str} {inode : ℕ} : ∀ {l : List (List Str × Node)} {seen : List ℕ},
    inode ∉ seen → (q, .file inode) ∈ l → ∃ p, (p, .file inode) ∈ keep seen l
  | [], _, _, h => by simp at h
  | (_, .dir _) :: _, _, hs, h => by
    obtain ⟨p, hp⟩ := exists_mem_keep hs ((List.mem_cons.mp h).resolve_left (by simp))
    exact ⟨p, List.mem_cons_of_mem _ hp⟩
  | (p, .file i) :: l, seen, hs, h => by
    rw [keep]
    by_cases he : inode = i
    · subst he
      rw [if_neg hs]
      exact ⟨p, List.mem_cons_self⟩
    · have hl : (q, Node.file inode) ∈ l := (List.mem_cons.mp h).resolve_left (by simp [he])
      split_ifs
      · exact exists_mem_keep hs hl
      · obtain ⟨p', hp'⟩ := exists_mem_keep (by simp [hs, he] : inode ∉ seen ++ [i]) hl
        exact ⟨p', List.mem_cons_of_mem _ hp'⟩
  | (_, .symlink) :: l, seen, hs, h => @exists_mem_keep q inode l seen hs ((List.mem_cons.mp h).resolve_left (by simp))
  | (_, .special _) :: l, seen, hs, h =>
    @exists_mem_keep q inode l seen hs ((List.mem_cons.mp h).resolve_left (by simp))

/-- Where no file has two names everything but symlinks and special files is
kept. -/
theorem mem_keep {content : ℕ → Except Exc Bytes} {q : List Str} {node : Node} {entry : FileEntry Bytes}
    (hentry : entryOf content node = some entry) : ∀ {l : List (List Str × Node)} {seen : List ℕ},
    (∀ p p' i, (p, .file i) ∈ l → (p', .file i) ∈ l → p = p') → (l.map Prod.fst).Nodup →
      (∀ p i, (p, .file i) ∈ l → i ∉ seen) → (q, node) ∈ l → (q, node) ∈ keep seen l
  | [], _, _, _, _, h => by simp at h
  | (p, n) :: l, seen, hone, hnodup, hseen, h => by
    rw [List.map_cons, List.nodup_cons] at hnodup
    have hone' : ∀ p p' i, (p, .file i) ∈ l → (p', .file i) ∈ l → p = p' := fun p p' i hp hp' =>
      hone p p' i (List.mem_cons_of_mem _ hp) (List.mem_cons_of_mem _ hp')
    have hseen' : ∀ p i, (p, .file i) ∈ l → i ∉ seen := fun p i hp => hseen p i (List.mem_cons_of_mem _ hp)
    have hrest (h : (q, node) ∈ l) : (q, node) ∈ keep seen l := mem_keep hentry hone' hnodup.2 hseen' h
    cases n with
    | dir entries =>
      rcases List.mem_cons.mp h with he | h
      · rw [he]
        exact List.mem_cons_self
      · exact List.mem_cons_of_mem _ (hrest h)
    | file i =>
      rw [keep, if_neg (hseen p i List.mem_cons_self)]
      rcases List.mem_cons.mp h with he | h
      · rw [he]
        exact List.mem_cons_self
      · refine List.mem_cons_of_mem _ (mem_keep hentry hone' hnodup.2 (fun p' i' hp' hm => ?_) h)
        rcases List.mem_append.mp hm with hm | hm
        · exact hseen' p' i' hp' hm
        · rw [List.mem_singleton.mp hm] at hp'
          have hpp := hone p p' i List.mem_cons_self (List.mem_cons_of_mem _ hp')
          exact hnodup.1 (List.mem_map.mpr ⟨_, hp', hpp.symm⟩)
    | symlink =>
      rcases List.mem_cons.mp h with he | h
      · rw [(Prod.mk.inj he).2] at hentry
        cases hentry
      · exact hrest h
    | special kind =>
      rcases List.mem_cons.mp h with he | h
      · rw [(Prod.mk.inj he).2] at hentry
        cases hentry
      · exact hrest h

end FolderService
end GpgMeister
