/-
# A folder comes back

What `unpack` makes of the archive that `pack` has made.

* `restores_iff`: the folder comes back with all its directories and files if
  and only if no file has two names in it, no name has a backslash, and the
  staging directory has another name than the folder.

The unpacker follows the walk of the folder: after some of the members there is
below the staging directory what they say (`Placed`).
-/
import GpgMeister.Lib.MapM
import GpgMeister.Services.FolderArchive

namespace GpgMeister
namespace FolderService

open Program

variable {content : ℕ → Except Exc Bytes}

/-! ### Paths of names -/

theorem resolve_eq_self {path : List Str} (h : [dot, dot] ∉ path) : resolve path = path := by
  have hfold : ∀ (path done : List Str), [dot, dot] ∉ path →
      path.foldl (fun done part => if part = [dot, dot] then done.dropLast else done ++ [part]) done = done ++ path := by
    intro path
    induction path with
    | nil => simp
    | cons a path ih =>
      intro done h
      rw [List.mem_cons, not_or] at h
      rw [List.foldl_cons, if_neg (Ne.symm h.1), ih _ h.2, List.append_assoc]
      rfl
  exact hfold path [] h

/-- A resolved path leads nowhere up. -/
theorem not_mem_resolve (path : List Str) : [dot, dot] ∉ resolve path := by
  have hfold : ∀ (path done : List Str), [dot, dot] ∉ done →
      [dot, dot] ∉ path.foldl (fun done part => if part = [dot, dot] then done.dropLast else done ++ [part]) done := by
    intro path
    induction path with
    | nil => exact fun done h => h
    | cons a path ih =>
      intro done h
      refine ih _ ?_
      dsimp only
      split_ifs with ha
      · exact fun hmem => h (List.mem_of_mem_dropLast hmem)
      · simpa [h] using Ne.symm ha
  exact hfold path [] (List.not_mem_nil)

theorem resolve_of_names {path : List Str} (h : ∀ a ∈ path, IsName a) : resolve path = path := by
  refine resolve_eq_self fun hmem => ?_
  obtain ⟨name, hname⟩ := h _ hmem
  exact name.ne_dotdot hname

theorem resolve_joinPath {staging path : List Str} (hs : ∀ a ∈ staging, IsName a) (hne : path ≠ [])
    (hp : ∀ a ∈ path, IsName a) : resolve (joinPath staging (nameOf path)) = staging ++ path := by
  rw [joinPath, isAbsolute_nameOf hp, if_neg (by decide), relativeParts_nameOf hne hp]
  refine resolve_of_names fun a ha => ?_
  rcases List.mem_append.mp ha with ha | ha
  · exact hs a ha
  · exact hp a ha

/-! ### One member after the other -/

/-- What members say is below the staging directory. -/
def placedOf (content : ℕ → Except Exc Bytes) (l : List (List Str × Node)) : List (List Str × FileEntry Bytes) :=
  l.filterMap fun e => (entryOf content e.2).map (e.1, ·)

/-- There is that below the staging directory, and nothing has changed
elsewhere. -/
structure Placed (staging : List Str) (t0 : Files) (l : List (List Str × FileEntry Bytes)) (t : Files) : Prop where
  top : t.get staging = some .dir
  inside : ∀ p, p ≠ [] → t.get (staging ++ p) = l.lookup p
  outside : ∀ q, ¬ staging <+: q → t.get q = t0.get q

theorem lookup_concat {l : List (List Str × FileEntry Bytes)} {q p : List Str} {entry : FileEntry Bytes}
    (hq : q ∉ l.map Prod.fst) : (l ++ [(q, entry)]).lookup p = if p = q then some entry else l.lookup p := by
  rw [List.lookup_append]
  by_cases hp : p = q
  · have hnone : l.lookup p = none := by
      rw [List.lookup_eq_none_iff]
      intro e he
      have hne : p ≠ e.1 := fun h => hq (by rw [← hp, h]; exact List.mem_map_of_mem he)
      simpa using hne
    rw [hnone, if_pos hp, hp]
    simp
  · rw [if_neg hp, List.lookup_cons]
    have hb : (p == q) = false := beq_eq_false_iff_ne.mpr hp
    rw [hb]
    simp

section Member

variable {staging : List Str} {t0 t : Files} {done : List (List Str × FileEntry Bytes)} {q : List Str}

/-- What is added at one path. -/
theorem Placed.update (h : Placed staging t0 done t) (hq : q ≠ []) (hfresh : q ∉ done.map Prod.fst)
    {entry : FileEntry Bytes} {t' : Files}
    (hget : ∀ p, t'.get p = if p = staging ++ q then some entry else t.get p) :
    Placed staging t0 (done ++ [(q, entry)]) t' where
  top := by
    rw [hget, if_neg, h.top]
    intro he
    exact hq (List.append_right_eq_self.mp he.symm)
  inside p hp := by
    rw [hget, lookup_concat hfresh]
    by_cases hpq : p = q
    · rw [if_pos (by rw [hpq]), if_pos hpq]
    · rw [if_neg fun he => hpq (List.append_cancel_left he), if_neg hpq, h.inside p hp]
  outside p hp := by
    rw [hget, if_neg, h.outside p hp]
    intro he
    exact hp ⟨q, he.symm⟩

/-- The directory a member is put into. -/
theorem Placed.get_parent (h : Placed staging t0 done t) (hq : q ≠ [])
    (hparent : q.dropLast = [] ∨ done.lookup q.dropLast = some .dir) : t.get (staging ++ q).dropLast = some .dir := by
  rw [List.dropLast_append_of_ne_nil hq]
  rcases hparent with hnil | hdir
  · rw [hnil, List.append_nil]
    exact h.top
  · by_cases hnil : q.dropLast = []
    · rw [hnil, List.append_nil]
      exact h.top
    · rw [h.inside _ hnil, hdir]

theorem Placed.get_eq_none (h : Placed staging t0 done t) (hq : q ≠ []) (hfresh : q ∉ done.map Prod.fst) :
    t.get (staging ++ q) = none := by
  rw [h.inside q hq, List.lookup_eq_none_iff]
  intro e he
  have hne : q ≠ e.1 := fun heq => hfresh (by rw [heq]; exact List.mem_map_of_mem he)
  simpa using hne

/-- A member is put where its name says. -/
theorem meets_extractMember {node : Node} {entry : FileEntry Bytes} (hentry : entryOf content node = some entry)
    (hs : ∀ a ∈ staging, IsName a) (hq : q ≠ []) (hnames : ∀ a ∈ q, IsName a) (hfresh : q ∉ done.map Prod.fst)
    (hparent : q.dropLast = [] ∨ done.lookup q.dropLast = some .dir) (h : Placed staging t0 done t) :
    (extractMember staging (memberOf content (q, node))).Meets t
      (fun _ t' => Placed staging t0 (done ++ [(q, entry)]) t') fun _ _ => False := by
  have hpath : (staging ++ q) ≠ [] := by simp [hq]
  have hparentDir := h.get_parent hq hparent
  have hnone := h.get_eq_none hq hfresh
  cases node with
  | dir entries =>
    obtain rfl : FileEntry.dir = entry := Option.some.inj hentry
    obtain ⟨t', ht', hget⟩ := FileTree.exists_mkdirs
      (by rw [FileTree.isFile, hnone]; rfl) (.inr hparentDir)
    unfold extractMember memberOf
    dsimp only
    rw [resolve_joinPath hs hq hnames, if_neg (not_not.mpr (List.prefix_append staging q)),
      if_pos (by rfl)]
    unfold Meets mkdir fileCall
    simp only [EStateM.run, ht']
    exact h.update hq hfresh hget
  | file inode =>
    unfold entryOf at hentry
    obtain ⟨data, hdata, rfl⟩ := Option.map_eq_some_iff.mp hentry
    obtain ⟨t', ht', hget⟩ := FileTree.exists_create hpath hparentDir hnone data
    unfold extractMember memberOf
    dsimp only
    have hmkdir : t.mkdirs (staging ++ q).dropLast = some t := FileTree.mkdirs_of_dir hparentDir
    rw [resolve_joinPath hs hq hnames, if_neg (not_not.mpr (List.prefix_append staging q)),
      if_neg (by simp [TarInfo.isdir]), hdata, meets_bind]
    unfold Meets mkdir fileCall extractfile
    simp only [EStateM.run, hmkdir, TarInfo.isfile, decide_true, if_true, Option.getD_some, ht']
    refine h.update hq hfresh fun p => ?_
    rw [hget, Function.update_apply]
  | symlink => cases hentry
  | special kind => cases hentry

end Member

theorem placedOf_cons {e : List Str × Node} {entry : FileEntry Bytes} (h : entryOf content e.2 = some entry)
    (l : List (List Str × Node)) : placedOf content (e :: l) = (e.1, entry) :: placedOf content l := by
  unfold placedOf
  rw [List.filterMap_cons, h]
  rfl

/-- All members are put where their names say: a member lies in a directory
that came before it. -/
theorem meets_extractMembers {staging : List Str} {t0 : Files} (hs : ∀ a ∈ staging, IsName a) :
    ∀ {l : List (List Str × Node)} {done : List (List Str × FileEntry Bytes)} {above : List (List Str)} {t : Files},
      (∀ e ∈ l, e.1 ≠ [] ∧ ∀ a ∈ e.1, IsName a) → Readable content l →
        (done.map Prod.fst ++ l.map Prod.fst).Nodup → Ordered above l →
          (∀ q ∈ above, q = [] ∨ done.lookup q = some .dir) → Placed staging t0 done t →
            (extractMembers staging (l.map (memberOf content))).Meets t
              (fun _ t' => Placed staging t0 (done ++ placedOf content l) t') fun _ _ => False
  | [], done, above, t, _, _, _, _, _, h => by
    rw [List.map_nil, extractMembers, meets_pure, placedOf, List.filterMap_nil, List.append_nil]
    exact h
  | (q, node) :: l, done, above, t, hnames, hread, hnodup, hord, habove, h => by
    obtain ⟨entry, hentry⟩ := Option.isSome_iff_exists.mp (hread _ List.mem_cons_self)
    obtain ⟨hq, hqn⟩ := hnames _ List.mem_cons_self
    rw [List.map_cons, List.nodup_append] at hnodup
    obtain ⟨hdone, hrest, hdisj⟩ := hnodup
    rw [List.nodup_cons] at hrest
    have hfresh : q ∉ done.map Prod.fst := fun hm => hdisj q hm q List.mem_cons_self rfl
    have hparent : q.dropLast ∈ above := by cases node <;> exact hord.1
    have hnodup' : ((done ++ [(q, entry)]).map Prod.fst ++ l.map Prod.fst).Nodup := by
      rw [List.map_append, List.append_assoc, List.nodup_append]
      exact ⟨hdone, List.nodup_cons.mpr hrest, hdisj⟩
    -- The directories from before are still there.
    have hkept : ∀ p ∈ above, p = [] ∨ (done ++ [(q, entry)]).lookup p = some .dir := by
      intro p hp
      refine (habove p hp).imp_right fun hdir => ?_
      rw [List.lookup_append, hdir]
      rfl
    rw [List.map_cons, extractMembers, meets_bind]
    refine (meets_extractMember hentry hs hq hqn hfresh (habove _ hparent) h).mono (fun _ t1 h1 => ?_) fun _ _ he => he
    obtain ⟨above', hord', habove'⟩ : ∃ above', Ordered above' l ∧
        ∀ p ∈ above', p = [] ∨ (done ++ [(q, entry)]).lookup p = some .dir := by
      cases node with
      | dir entries =>
        refine ⟨q :: above, hord.2, fun p hp => ?_⟩
        rcases List.mem_cons.mp hp with rfl | hp
        · refine .inr ?_
          rw [lookup_concat hfresh, if_pos rfl, Option.some.inj hentry]
        · exact hkept p hp
      | file inode => exact ⟨above, hord.2, hkept⟩
      | symlink => exact ⟨above, hord.2, hkept⟩
      | special kind => exact ⟨above, hord.2, hkept⟩
    rw [placedOf_cons hentry, List.append_cons]
    exact meets_extractMembers hs (fun e he => hnames e (List.mem_cons_of_mem _ he))
      (fun e he => hread e (List.mem_cons_of_mem _ he)) hnodup' hord' habove' h1

/-! ### The folder of an archive -/

/-- A member of a folder lies under it, unless there is a backslash in its
name. -/
theorem memberRoot_memberOf {root : Str} {path : List Str} (hnames : ∀ a ∈ root :: path, IsName a) (node : Node) :
    memberRoot (memberOf content (root :: path, node)) =
      if ∃ a ∈ root :: path, backslash ∈ a then .error unsafePath else .ok root := by
  have hname : (memberOf content (root :: path, node)).name = nameOf (root :: path) := by cases node <;> rfl
  have htype : (memberOf content (root :: path, node)).isfile = true ∨
      (memberOf content (root :: path, node)).isdir = true := by
    cases node <;> simp [memberOf, TarInfo.isfile, TarInfo.isdir]
  have hdots : [dot, dot] ∉ root :: path := by
    intro hm
    obtain ⟨name, hn⟩ := hnames _ hm
    exact name.ne_dotdot hn
  unfold memberRoot
  rw [if_neg (not_not.mpr htype), hname, isAbsolute_nameOf hnames, pathParts_nameOf (List.cons_ne_nil _ _) hnames]
  by_cases hb : ∃ a ∈ root :: path, backslash ∈ a
  · rw [if_pos (.inr (.inr (backslash_mem_nameOf.mpr hb))), if_pos hb]
  · rw [if_neg hb, if_neg]
    rintro (h | h | h)
    · cases h
    · exact hdots h
    · exact hb (backslash_mem_nameOf.mp h)

section Folder

variable {folder : Folder}

theorem Folder.kept_eq (folder : Folder) : ∃ l, folder.kept = ([folder.name.val], .dir folder.entries) :: l :=
  ⟨_, rfl⟩

/-- What is on the walk is under the name of the folder, where it is found. -/
theorem Folder.mem_walk {q : List Str} {node : Node} :
    (q, node) ∈ folder.walk ↔ ∃ p, q = folder.name.val :: p ∧ folder.find p = some node :=
  FolderService.mem_walk (by rw [Node.Sorted]; exact folder.sorted)

theorem Folder.mem_walk_of_kept {e : List Str × Node} (h : e ∈ folder.kept) : e ∈ folder.walk :=
  (keep_sublist [] folder.walk).subset h

theorem Folder.nodup_walk (folder : Folder) : (folder.walk.map Prod.fst).Nodup :=
  FolderService.nodup_walk (by rw [Node.Sorted]; exact folder.sorted)

theorem Folder.nodup_kept (folder : Folder) : (folder.kept.map Prod.fst).Nodup :=
  folder.nodup_walk.sublist ((keep_sublist [] folder.walk).map Prod.fst)

theorem Folder.names_of_kept {e : List Str × Node} (h : e ∈ folder.kept) :
    ∃ p, e.1 = folder.name.val :: p ∧ ∀ a ∈ folder.name.val :: p, IsName a := by
  obtain ⟨p, he, hfind⟩ := Folder.mem_walk.mp (Folder.mem_walk_of_kept h)
  refine ⟨p, he, fun a ha => ?_⟩
  rcases List.mem_cons.mp ha with rfl | ha
  · exact ⟨_, rfl⟩
  · exact isName_of_find hfind a ha

/-- The archive is of one folder if and only if no name in it has a
backslash. -/
theorem archiveRoot_kept (folder : Folder) :
    (archiveRoot (folder.kept.map (memberOf folder.content)) = .ok folder.name.val ∧
        ∀ e ∈ folder.kept, ∀ a ∈ e.1, backslash ∉ a) ∨
      (∃ e, archiveRoot (folder.kept.map (memberOf folder.content)) = .error e) ∧
        ∃ e ∈ folder.kept, ∃ a ∈ e.1, backslash ∈ a := by
  obtain ⟨l, hl⟩ := folder.kept_eq
  have hroot (e : List Str × Node) (he : e ∈ folder.kept) : memberRoot (memberOf folder.content e) =
      if ∃ a ∈ e.1, backslash ∈ a then .error unsafePath else .ok folder.name.val := by
    obtain ⟨p, hp, hnames⟩ := Folder.names_of_kept he
    obtain ⟨q, node⟩ := e
    obtain rfl : q = folder.name.val :: p := hp
    exact memberRoot_memberOf hnames node
  by_cases hb : ∃ e ∈ folder.kept, ∃ a ∈ e.1, backslash ∈ a
  · refine .inr ⟨?_, hb⟩
    obtain ⟨e, he, ha⟩ := hb
    obtain ⟨exc, hexc⟩ := mapM_eq_error (f := memberRoot) (by rw [hroot e he, if_pos ha])
      (List.mem_map_of_mem (f := memberOf folder.content) he)
    refine ⟨exc, ?_⟩
    rw [hl, List.map_cons] at hexc ⊢
    unfold archiveRoot
    dsimp only
    rw [hexc]
    rfl
  · have hnone : ∀ e ∈ folder.kept, ∀ a ∈ e.1, backslash ∉ a := fun e he a ha hm => hb ⟨e, he, a, ha, hm⟩
    refine .inl ⟨?_, hnone⟩
    have hall : (folder.kept.map (memberOf folder.content)).mapM memberRoot =
        .ok (List.replicate (l.length + 1) folder.name.val) := by
      rw [mapM_eq_replicate (b := folder.name.val), List.length_map, hl, List.length_cons]
      intro m hm
      obtain ⟨e, he, rfl⟩ := List.mem_map.mp hm
      have hslash : ¬ ∃ a ∈ e.1, backslash ∈ a := by
        rintro ⟨a, ha, hm⟩
        exact hnone e he a ha hm
      rw [hroot e he, if_neg hslash]
    rw [hl, List.map_cons] at hall ⊢
    unfold archiveRoot
    dsimp only
    rw [hall]
    dsimp only [bind, Except.bind]
    rw [dedup_eq_singleton_iff.mpr ⟨by simp, fun b hb => List.eq_of_mem_replicate hb⟩]
    exact if_pos ⟨rfl, nameOf_singleton _⟩

/-! ### Into an empty destination -/

/-- The path with these names. -/
def pathOf (names : List FileName) : List Str := names.map (·.val)

theorem isName_pathOf {names : List FileName} {a : Str} (h : a ∈ pathOf names) : IsName a := by
  obtain ⟨name, -, hname⟩ := List.mem_map.mp h
  exact ⟨name, hname⟩

/-- There is an empty directory. -/
structure IsEmptyDir (t : Files) (destination : List FileName) : Prop where
  dir : t.get (pathOf destination) = some .dir
  below : ∀ p, p ≠ [] → t.get (pathOf destination ++ p) = none

section Unpack

variable {destination : List FileName} {temp : FileName} {t : Files}

/-- A name in the destination is no other one's. -/
theorem not_prefix_of_ne {a b : Str} (h : a ≠ b) (path q : List Str) : ¬ path ++ [a] <+: path ++ b :: q := by
  rw [List.prefix_append_right_inj, List.singleton_prefix_cons_iff]
  exact h

theorem IsEmptyDir.placed (h : IsEmptyDir t destination) {t1 : Files}
    (hget : ∀ p, t1.get p = if p = pathOf destination ++ [temp.val] then some .dir else t.get p) :
    Placed (pathOf destination ++ [temp.val]) t [] t1 where
  top := by rw [hget, if_pos rfl]
  inside p hp := by
    rw [hget, if_neg fun he => hp (List.append_right_eq_self.mp he), List.append_assoc, h.below _ (by simp)]
    rfl
  outside q hq := by
    rw [hget, if_neg]
    rintro rfl
    exact hq List.prefix_rfl

/-- The staging directory before it is renamed: all that was kept is in it. -/
theorem meets_staging (hempty : IsEmptyDir t destination) (hread : Readable folder.content folder.kept) :
    (mkdtemp (pathOf destination) temp >>= fun _ =>
        extractMembers (pathOf destination ++ [temp.val]) (folder.kept.map (memberOf folder.content))).Meets t
      (fun _ t' => Placed (pathOf destination ++ [temp.val]) t (placedOf folder.content folder.kept) t')
      fun _ _ => False := by
  have hnone : t.get (pathOf destination ++ [temp.val]) = none := hempty.below _ (by simp)
  obtain ⟨t1, ht1, hget⟩ := FileTree.exists_mkdirs
    (by rw [FileTree.isFile, hnone]; rfl : t.isFile (pathOf destination ++ [temp.val]) = false)
    (.inr (by rw [List.dropLast_concat, hempty.dir]))
  have hmk : (mkdtemp (pathOf destination) temp).run t = .ok () t1 := by
    unfold mkdtemp
    have hcond : t.isDir (pathOf destination) = true ∧ (t.get (pathOf destination ++ [temp.val])).isNone = true :=
      ⟨FileTree.isDir_eq_true.mpr hempty.dir, by rw [hnone]; rfl⟩
    show (if _ then mkdir _ else _ : Program Files Exc Unit).run t = _
    rw [if_pos hcond]
    simp only [mkdir, fileCall, EStateM.run, ht1]
  have hstaging : ∀ a ∈ pathOf destination ++ [temp.val], IsName a := by
    intro a ha
    rcases List.mem_append.mp ha with ha | ha
    · exact isName_pathOf ha
    · exact ⟨temp, (List.mem_singleton.mp ha).symm⟩
  have hnodup := folder.nodup_kept
  have hord : Ordered [[]] folder.kept := ordered_keep (ordered_walk (by simp))
  rw [meets_bind]
  unfold Meets
  rw [hmk]
  refine (meets_extractMembers hstaging (fun e he => ?_) hread (by simpa using hnodup) hord (by simp)
    (hempty.placed hget)).mono (fun _ _ h => h) fun _ _ h => h
  obtain ⟨p, hp, hnames⟩ := Folder.names_of_kept he
  rw [hp]
  exact ⟨List.cons_ne_nil _ _, hnames⟩

/-- What has been staged can be moved to the name of the folder if the staging
directory does not have it. -/
theorem Placed.exists_rename {t2 : Files}
    (h : Placed (pathOf destination ++ [temp.val]) t (placedOf folder.content folder.kept) t2)
    (hempty : IsEmptyDir t destination) (hne : temp.val ≠ folder.name.val) :
    ∃ t3, t2.rename (pathOf destination ++ [temp.val] ++ [folder.name.val]) (pathOf destination ++ [folder.name.val]) =
      some t3 := by
  obtain ⟨l, hl⟩ := folder.kept_eq
  refine FileTree.exists_rename ?_ (by simp) ?_ ?_ ?_
  · rw [h.inside _ (by simp), hl, placedOf_cons rfl]
    simp
  · rw [List.dropLast_concat, h.outside _ fun hp => ?_, hempty.dir]
    simpa using hp.length_le
  · rw [h.outside _ (not_prefix_of_ne hne _ []), hempty.below _ (by simp)]
  · intro hp
    simpa using hp.length_le

/-- What is in the destination after the move, once the staging directory has
been removed. -/
theorem Placed.get_removeTree {t2 t3 : Files}
    (h : Placed (pathOf destination ++ [temp.val]) t (placedOf folder.content folder.kept) t2)
    (hempty : IsEmptyDir t destination) (hne : temp.val ≠ folder.name.val)
    (hrename : t2.rename (pathOf destination ++ [temp.val] ++ [folder.name.val])
      (pathOf destination ++ [folder.name.val]) = some t3) :
    (∀ p, (t3.removeTree (pathOf destination ++ [temp.val])).get (pathOf destination ++ folder.name.val :: p) =
        (placedOf folder.content folder.kept).lookup (folder.name.val :: p)) ∧
      ∀ q, ¬ pathOf destination ++ [folder.name.val] <+: q →
        (t3.removeTree (pathOf destination ++ [temp.val])).get q = t.get q := by
  refine ⟨fun p => ?_, fun q hq => ?_⟩
  · have hfinal : pathOf destination ++ [folder.name.val] <+: pathOf destination ++ folder.name.val :: p :=
      ⟨p, by simp⟩
    have hdrop : (pathOf destination ++ folder.name.val :: p).drop
        (pathOf destination ++ [folder.name.val]).length = p := by
      rw [List.append_cons _ _ p, List.drop_left]
    rw [FileTree.get_removeTree (by simp), if_neg (not_prefix_of_ne hne _ p), FileTree.get_rename hrename, if_pos hfinal,
      hdrop, List.append_assoc, List.singleton_append, h.inside _ (by simp)]
  · rw [FileTree.get_removeTree (by simp)]
    by_cases hs : pathOf destination ++ [temp.val] <+: q
    · obtain ⟨p, rfl⟩ := hs
      rw [if_pos (List.prefix_append _ p), List.append_assoc, hempty.below _ (by simp)]
    · rw [if_neg hs, FileTree.get_rename hrename, if_neg hq, if_neg, h.outside q hs]
      exact fun hp => hs ((List.prefix_append _ _).trans hp)

/-- The folder is unpacked if no name in it has a backslash and the staging
directory has another name. -/
theorem run_unpack_of_ne (hempty : IsEmptyDir t destination) (hread : Readable folder.content folder.kept)
    (hb : ∀ e ∈ folder.kept, ∀ a ∈ e.1, backslash ∉ a) (hne : temp.val ≠ folder.name.val) :
    ∃ t', (unpack (folder.kept.map (memberOf folder.content)) (pathOf destination) temp).run t =
        .ok (pathOf destination ++ [folder.name.val]) t' ∧
      (∀ p, t'.get (pathOf destination ++ folder.name.val :: p) =
        (placedOf folder.content folder.kept).lookup (folder.name.val :: p)) ∧
      ∀ q, ¬ pathOf destination ++ [folder.name.val] <+: q → t'.get q = t.get q := by
  have hroot : archiveRoot (folder.kept.map (memberOf folder.content)) = .ok folder.name.val := by
    rcases archiveRoot_kept folder with h | ⟨-, e, he, a, ha, hm⟩
    · exact h.1
    · exact absurd hm (hb e he a ha)
  have hmeets : (unpack (folder.kept.map (memberOf folder.content)) (pathOf destination) temp).Meets t
      (fun final t' => final = pathOf destination ++ [folder.name.val] ∧
        (∀ p, t'.get (pathOf destination ++ folder.name.val :: p) =
          (placedOf folder.content folder.kept).lookup (folder.name.val :: p)) ∧
        ∀ q, ¬ pathOf destination ++ [folder.name.val] <+: q → t'.get q = t.get q) fun _ _ => False := by
    have hstaged := @meets_staging folder destination temp t hempty hread
    rw [meets_bind] at hstaged
    unfold unpack extract
    simp only [hroot, meets_bind, meets_ofExcept_ok, meets_get, hempty.below [folder.name.val] (by simp),
      Option.isSome_none, Bool.false_eq_true, if_false, meets_ensuring, meets_modify, meets_pure, true_and]
    refine hstaged.mono (fun _ t1 h1 => ?_) fun _ _ h => h
    refine h1.mono (fun _ t2 h2 => ?_) fun _ _ h => h.elim
    obtain ⟨t3, ht3⟩ := h2.exists_rename hempty hne
    unfold Meets fileCall
    simp only [EStateM.run, ht3]
    exact h2.get_removeTree hempty hne ht3
  obtain ⟨final, t', hrun, rfl, hrest⟩ := hmeets.exists_ok
  exact ⟨t', hrun, hrest⟩

/-- Otherwise nothing is unpacked. -/
theorem run_unpack_of_eq (hempty : IsEmptyDir t destination) (hread : Readable folder.content folder.kept)
    (h : temp.val = folder.name.val ∨ ∃ e ∈ folder.kept, ∃ a ∈ e.1, backslash ∈ a) :
    ∃ e t', (unpack (folder.kept.map (memberOf folder.content)) (pathOf destination) temp).run t = .error e t' := by
  have hmeets : (unpack (folder.kept.map (memberOf folder.content)) (pathOf destination) temp).Meets t
      (fun _ _ => False) fun _ _ => True := by
    unfold unpack extract
    rcases archiveRoot_kept folder with ⟨hroot, hb⟩ | ⟨⟨e, he⟩, -⟩
    · have heq : temp.val = folder.name.val := h.resolve_right fun ⟨e, he, a, ha, hm⟩ => hb e he a ha hm
      have hstaged := @meets_staging folder destination temp t hempty hread
      rw [meets_bind] at hstaged
      simp only [hroot, meets_bind, meets_ofExcept_ok, meets_get, hempty.below [folder.name.val] (by simp),
        Option.isSome_none, Bool.false_eq_true, if_false, meets_ensuring, meets_modify, meets_pure]
      refine hstaged.mono (fun _ t1 h1 => ?_) fun _ _ _ => trivial
      refine h1.mono (fun _ t2 h2 => ?_) fun _ _ _ => trivial
      -- The staging directory is where the folder would go.
      have htop := h2.top
      rw [heq] at htop
      have hnone : t2.rename (pathOf destination ++ [temp.val] ++ [folder.name.val])
          (pathOf destination ++ [folder.name.val]) = none := FileTree.rename_of_ne_none (by rw [htop]; simp)
      unfold Meets fileCall
      simp only [EStateM.run, hnone]
    · rw [he, meets_bind, meets_ofExcept_error]
      trivial
  obtain ⟨e, t', hrun, -⟩ := hmeets.exists_error
  exact ⟨e, t', hrun⟩

end Unpack

/-! ### The round trip -/

theorem lookup_placedOf {p : List Str} {entry : FileEntry Bytes} : ∀ {l : List (List Str × Node)},
    (l.map Prod.fst).Nodup →
      ((placedOf content l).lookup p = some entry ↔ ∃ node, (p, node) ∈ l ∧ entryOf content node = some entry)
  | [], _ => by simp [placedOf]
  | (q, node) :: l, h => by
    rw [List.map_cons, List.nodup_cons] at h
    have ih := @lookup_placedOf p entry l h.2
    cases hentry : entryOf content node with
    | none =>
      have hskip : placedOf content ((q, node) :: l) = placedOf content l := by simp [placedOf, hentry]
      rw [hskip, ih]
      refine exists_congr fun m => ⟨fun hm => ⟨List.mem_cons_of_mem _ hm.1, hm.2⟩, fun hm => ⟨?_, hm.2⟩⟩
      refine (List.mem_cons.mp hm.1).resolve_left fun he => ?_
      rw [← (Prod.mk.inj he).2, hm.2] at hentry
      cases hentry
    | some found =>
      rw [placedOf_cons hentry, List.lookup_cons]
      by_cases hp : p = q
      · subst hp
        rw [beq_self_eq_true]
        show some found = some entry ↔ _
        constructor
        · intro he
          exact ⟨node, List.mem_cons_self, hentry.trans he⟩
        · rintro ⟨m, hm, he⟩
          rcases List.mem_cons.mp hm with hm | hm
          · rw [← hentry, ← (Prod.mk.inj hm).2, he]
          · exact absurd (List.mem_map_of_mem (f := Prod.fst) hm) h.1
      · rw [beq_eq_false_iff_ne.mpr hp]
        show (placedOf content l).lookup p = some entry ↔ _
        rw [ih]
        refine exists_congr fun m => ⟨fun hm => ⟨List.mem_cons_of_mem _ hm.1, hm.2⟩, fun hm => ⟨?_, hm.2⟩⟩
        exact (List.mem_cons.mp hm.1).resolve_left fun he => hp (Prod.mk.inj he).1

/-- No file has two names in the folder. -/
def Folder.OneName (folder : Folder) : Prop :=
  ∀ p q inode, folder.find p = some (.file inode) → folder.find q = some (.file inode) → p = q

theorem Folder.entryAt_eq_some {path : List Str} {entry : FileEntry Bytes} :
    folder.entryAt path = some entry ↔
      ∃ node, (folder.name.val :: path, node) ∈ folder.walk ∧ entryOf folder.content node = some entry := by
  rw [Folder.entryAt, Option.bind_eq_some_iff]
  refine exists_congr fun node => and_congr_left fun _ => ?_
  rw [Folder.mem_walk]
  exact ⟨fun h => ⟨path, rfl, h⟩, fun ⟨p, hp, h⟩ => by rwa [(List.cons.inj hp).2]⟩

/-- Everything is kept if and only if no file has two names. -/
theorem lookup_kept_iff (hread : Readable folder.content folder.kept) :
    (∀ path, (placedOf folder.content folder.kept).lookup (folder.name.val :: path) = folder.entryAt path) ↔
      folder.OneName := by
  constructor
  · intro h p q inode hp hq
    -- The file has been read, and so it is kept under either name.
    have hkept (path : List Str) (hpath : folder.find path = some (.file inode)) :
        (folder.name.val :: path, Node.file inode) ∈ folder.kept := by
      have hwalk := Folder.mem_walk.mpr ⟨path, rfl, hpath⟩
      obtain ⟨first, hfirst⟩ := exists_mem_keep (List.not_mem_nil : inode ∉ []) hwalk
      obtain ⟨entry, hentry⟩ := Option.isSome_iff_exists.mp (hread _ hfirst)
      have hat := Folder.entryAt_eq_some.mpr ⟨_, hwalk, hentry⟩
      obtain ⟨node, hnode, -⟩ := (lookup_placedOf folder.nodup_kept).mp ((h path).trans hat)
      obtain ⟨path', he, hnode'⟩ := Folder.mem_walk.mp (Folder.mem_walk_of_kept hnode)
      rw [← (List.cons.inj he).2, hpath] at hnode'
      rwa [Option.some.inj hnode']
    exact (List.cons.inj (eq_of_mem_keep (hkept p hp) (hkept q hq))).2
  · intro h path
    have hone : ∀ p p' i, (p, Node.file i) ∈ folder.walk → (p', .file i) ∈ folder.walk → p = p' := by
      intro p p' i hp hp'
      obtain ⟨r, rfl, hr⟩ := Folder.mem_walk.mp hp
      obtain ⟨r', rfl, hr'⟩ := Folder.mem_walk.mp hp'
      rw [h r r' i hr hr']
    refine Option.ext fun entry => ?_
    rw [lookup_placedOf folder.nodup_kept, Folder.entryAt_eq_some]
    refine exists_congr fun node => ⟨fun hn => ⟨Folder.mem_walk_of_kept hn.1, hn.2⟩, fun hn => ⟨?_, hn.2⟩⟩
    exact mem_keep hn.2 hone folder.nodup_walk (fun p i _ => List.not_mem_nil) hn.1

end Folder

/-- `_unpack` makes a folder with these relative names and contents, which has
everything but the symlinks and special files, and changes nothing else. -/
def Restores (folder : Folder) (members : List Member) (destination : List FileName) (temp : FileName) (t : Files) : Prop :=
  ∃ t', (unpack members (pathOf destination) temp).run t = .ok (pathOf destination ++ [folder.name.val]) t' ∧
    (∀ path, t'.get (pathOf destination ++ folder.name.val :: path) = folder.entryAt path) ∧
    ∀ q, ¬ pathOf destination ++ [folder.name.val] <+: q → t'.get q = t.get q

/-- The folders that come back, where `mkdtemp` takes this name. -/
structure Restorable (folder : Folder) (temp : FileName) : Prop where
  one_name : folder.OneName
  no_backslash : backslash ∉ folder.name.val ∧
    ∀ path, folder.entryAt path ≠ none → ∀ a ∈ path, backslash ∉ a
  temp_ne : temp.val ≠ folder.name.val

section RoundTrip

variable {folder : Folder} {members : List Member} {n : ℕ} {destination : List FileName} {temp : FileName} {t : Files}

/-- No name that is kept has a backslash where no name of the folder has one. -/
theorem Restorable.not_mem_of_kept (h : Restorable folder temp) (hread : Readable folder.content folder.kept) :
    ∀ e ∈ folder.kept, ∀ a ∈ e.1, backslash ∉ a := by
  rintro ⟨q, node⟩ he a ha
  obtain ⟨entry, hentry⟩ := Option.isSome_iff_exists.mp (hread _ he)
  obtain ⟨path, rfl, hfind⟩ := Folder.mem_walk.mp (Folder.mem_walk_of_kept he)
  rcases List.mem_cons.mp ha with rfl | ha
  · exact h.no_backslash.1
  · refine h.no_backslash.2 path ?_ a ha
    rw [Folder.entryAt, hfind, Option.bind_some, hentry]
    simp

/-- **A folder that was packed comes back with all its directories and files
exactly when no file has two names in it, no name has a backslash, and the
staging directory is not named like it.** -/
theorem restores_iff (hempty : IsEmptyDir t destination) (hpack : pack folder = .ok (members, n)) :
    Restores folder members destination temp t ↔ Restorable folder temp := by
  obtain ⟨rfl, hread⟩ := members_of_pack hpack
  constructor
  · rintro ⟨t', hrun, hback, -⟩
    have hgood : temp.val ≠ folder.name.val ∧ ∀ e ∈ folder.kept, ∀ a ∈ e.1, backslash ∉ a := by
      by_contra hbad
      have hor : temp.val = folder.name.val ∨ ∃ e ∈ folder.kept, ∃ a ∈ e.1, backslash ∈ a := by
        by_contra hno
        push Not at hno
        exact hbad hno
      obtain ⟨e, t1, herr⟩ := @run_unpack_of_eq folder destination temp t hempty hread hor
      rw [herr] at hrun
      cases hrun
    obtain ⟨t1, hrun', hplaced, -⟩ := run_unpack_of_ne hempty hread hgood.2 hgood.1
    rw [hrun'] at hrun
    obtain ⟨-, rfl⟩ := EStateM.Result.ok.inj hrun
    have hlookup (path : List Str) :
        (placedOf folder.content folder.kept).lookup (folder.name.val :: path) = folder.entryAt path :=
      (hplaced path).symm.trans (hback path)
    refine ⟨(lookup_kept_iff hread).mp hlookup, ⟨?_, fun path hpath a ha => ?_⟩, hgood.1⟩
    · obtain ⟨l, hl⟩ := folder.kept_eq
      exact hgood.2 _ (by rw [hl]; exact List.mem_cons_self) _ List.mem_cons_self
    · obtain ⟨entry, hentry⟩ := Option.ne_none_iff_exists'.mp hpath
      obtain ⟨node, hnode, -⟩ := (lookup_placedOf folder.nodup_kept).mp ((hlookup path).trans hentry)
      exact hgood.2 _ hnode a (List.mem_cons_of_mem _ ha)
  · intro h
    obtain ⟨t', hrun, hplaced, hother⟩ := run_unpack_of_ne hempty hread (h.not_mem_of_kept hread) h.temp_ne
    exact ⟨t', hrun, fun path => (hplaced path).trans ((lookup_kept_iff hread).mpr h.one_name path), hother⟩

end RoundTrip

/-! ### One folder that comes back and one that does not -/

/-- The name of one letter. -/
def letter (c : CodePoint) (h : c ≠ dot ∧ c ≠ slash ∧ c ≠ 0 := by decide) : FileName where
  val := [c]
  ne_nil := List.cons_ne_nil _ _
  ne_dot := by simp [h.1]
  ne_dotdot := by simp
  slash_not_mem := by simp [h.2.1.symm]
  nul_not_mem := by simp [h.2.2.symm]

/-- A file `a`, which is also called `b` if its inode is this one. -/
def linked (inode : ℕ) : Folder where
  name := letter 0x64
  entries := [(letter 0x61, .file 0), (letter 0x62, .file inode)]
  sorted := by
    simp only [SortedEntries, Node.Sorted, List.forall_mem_singleton, List.not_mem_nil]
    exact ⟨by decide, trivial, by simp⟩
  content _ := .ok [7]

/-- There is nothing but this directory. -/
def onlyDir (path : List Str) : Files where
  get p := if p <+: path then some .dir else none
  root := if_pos List.nil_prefix
  closed p a h := by
    split_ifs at h with hp
    · exact if_pos ((List.prefix_append p [a]).trans hp)
    · exact absurd rfl h

theorem isEmptyDir_onlyDir (destination : List FileName) : IsEmptyDir (onlyDir (pathOf destination)) destination where
  dir := if_pos List.prefix_rfl
  below p hp := if_neg fun h => hp (by simpa using h.length_le)

/-- What `pack` makes of it: `b` is not packed if it is another name of `a`. -/
def linkedMembers (inode : ℕ) : List Member :=
  [{ name := lit "d", type := .dir }, { name := lit "d/a", type := .reg, data := [7] }] ++
    if inode = 0 then [] else [{ name := lit "d/b", type := .reg, data := [7] }]

theorem restores_iff_linked :
    pack (linked 1) = .ok (linkedMembers 1, 2) ∧
      (Restores (linked 1) (linkedMembers 1) [letter 0x6F] (letter 0x74) (onlyDir (pathOf [letter 0x6F])) ↔
        Restorable (linked 1) (letter 0x74)) :=
  ⟨by decide, restores_iff (isEmptyDir_onlyDir _) (by decide : pack (linked 1) = .ok (linkedMembers 1, 2))⟩

/-- A file that has two names loses the second one. -/
theorem not_restores_linked :
    pack (linked 0) = .ok (linkedMembers 0, 1) ∧ IsEmptyDir (onlyDir (pathOf [letter 0x6F])) [letter 0x6F] ∧
      ¬ Restores (linked 0) (linkedMembers 0) [letter 0x6F] (letter 0x74) (onlyDir (pathOf [letter 0x6F])) := by
  refine ⟨by decide, isEmptyDir_onlyDir _, ?_⟩
  rintro ⟨t', hrun, hback, -⟩
  have hreturns : returns (fun _ t => t.get [lit "o", lit "d", lit "b"] = none)
      (unpack (linkedMembers 0) (pathOf [letter 0x6F]) (letter 0x74)) (onlyDir (pathOf [letter 0x6F])) = true := by
    decide +kernel
  obtain ⟨a, t1, hrun', hnone⟩ := returns_eq_true.mp hreturns
  rw [hrun'] at hrun
  obtain ⟨-, rfl⟩ := EStateM.Result.ok.inj hrun
  have hmissing : (linked 0).entryAt [lit "b"] = none := (hback [lit "b"]).symm.trans (of_decide_eq_true hnone)
  exact absurd hmissing (by decide)

end FolderService
end GpgMeister
