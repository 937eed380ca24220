/-
# Trees of files

A file system without links: what is at each path. Everything lies in a
directory (`closed`), and the operations keep that. Each comes with what is at
every path afterwards (`exists_mkdirs`, `exists_create`, `get_overwrite`,
`get_rename`, `get_removeTree`, `get_unlink`). A removal may leave some entries behind
(`removeTreeBut`).
-/
import Mathlib.Tactic

namespace GpgMeister

/-- What is at a path. -/
inductive FileEntry (β : Type)
  | dir
  | file (data : β)
  deriving DecidableEq

/-- A tree of files with these names and contents. -/
@[ext] structure FileTree (α β : Type) where
  get : List α → Option (FileEntry β)
  root : get [] = some .dir
  closed : ∀ p a, get (p ++ [a]) ≠ none → get p = some .dir

namespace FileTree

variable {α β : Type} (t : FileTree α β)

def isDir (p : List α) : Bool := (t.get p).any fun
  | .dir => true
  | .file _ => false

def isFile (p : List α) : Bool := (t.get p).any fun
  | .dir => false
  | .file _ => true

variable {t}

@[simp] theorem isDir_eq_true {p : List α} : t.isDir p = true ↔ t.get p = some .dir := by
  unfold isDir
  rcases t.get p with _ | _ | _ <;> simp

theorem get_of_isFile {p : List α} (h : t.isFile p = false) (hne : t.get p ≠ none) : t.get p = some .dir := by
  unfold isFile at h
  rcases hp : t.get p with _ | _ | data
  · exact absurd hp hne
  · rfl
  · rw [hp] at h
    simp at h

/-- What has something below it is a directory. -/
theorem get_of_append_ne_none {p : List α} : ∀ {s : List α}, s ≠ [] → t.get (p ++ s) ≠ none → t.get p = some .dir := by
  intro s
  induction s using List.reverseRecOn with
  | nil => exact fun h => absurd rfl h
  | append_singleton s a ih =>
    intro _ h
    rw [← List.append_assoc] at h
    have hdir := t.closed (p ++ s) a h
    by_cases hs : s = []
    · rwa [hs, List.append_nil] at hdir
    · exact ih hs (by rw [hdir]; simp)

/-- There is nothing below a file. -/
theorem get_below_file {path p : List α} (hfile : t.isFile path = true) (hp : path <+: p) (hne : p ≠ path) :
    t.get p = none := by
  obtain ⟨s, rfl⟩ := hp
  have hs : s ≠ [] := by
    rintro rfl
    exact hne (List.append_nil path)
  by_contra hget
  rw [isFile, get_of_append_ne_none hs hget] at hfile
  cases hfile

variable [DecidableEq α]

/-! ### Directories -/

/-- The directory at the path and those above it that are missing; `none` if a
file is in the way. -/
def mkdirs (t : FileTree α β) (path : List α) : Option (FileTree α β) :=
  if h : path.inits.any t.isFile = true then none
  else
    some
      { get := fun p => if p <+: path ∧ (t.get p).isNone then some .dir else t.get p
        root := by
          split_ifs
          · rfl
          · exact t.root
        closed := by
          intro p a hne
          have hnone (q : List α) (hq : q <+: path) : t.isFile q = false := by
            by_contra hf
            exact h (List.any_eq_true.mpr ⟨q, (List.mem_inits _ _).mpr hq, by simpa using hf⟩)
          by_cases hp : (t.get p).isNone
          · have hbelow : t.get (p ++ [a]) = none := by
              by_contra hb
              rw [t.closed p a hb] at hp
              cases hp
            rw [hbelow] at hne
            split_ifs at hne with hpa
            · rw [if_pos ⟨(List.prefix_append p [a]).trans hpa.1, hp⟩]
            · exact absurd rfl hne
          · rw [if_neg fun hc => hp hc.2]
            split_ifs at hne with hpa
            · refine get_of_isFile (hnone p ((List.prefix_append p [a]).trans hpa.1)) fun hn => hp ?_
              rw [hn]
              rfl
            · exact t.closed p a hne }

theorem get_mkdirs {path : List α} {t' : FileTree α β} (h : t.mkdirs path = some t') (p : List α) :
    t'.get p = if p <+: path ∧ (t.get p).isNone then some .dir else t.get p := by
  unfold mkdirs at h
  split_ifs at h
  obtain rfl := Option.some.inj h
  rfl

/-- Afterwards the directory is there. -/
theorem get_mkdirs_self {path : List α} {t' : FileTree α β} (h : t.mkdirs path = some t') :
    t'.get path = some .dir := by
  have hfile : t.isFile path = false := by
    unfold mkdirs at h
    split_ifs at h with hno
    by_contra hf
    exact hno (List.any_eq_true.mpr ⟨path, (List.mem_inits _ _).mpr List.prefix_rfl, by simpa using hf⟩)
  rw [get_mkdirs h]
  split_ifs with hnone
  · rfl
  · exact get_of_isFile hfile fun hn => hnone ⟨List.prefix_rfl, by rw [hn]; rfl⟩

/-- Where the directory above is there, only the one at the path may be
missing. -/
theorem exists_mkdirs {path : List α} (hfile : t.isFile path = false)
    (hparent : path = [] ∨ t.get path.dropLast = some .dir) :
    ∃ t', t.mkdirs path = some t' ∧ ∀ p, t'.get p = if p = path then some .dir else t.get p := by
  have habove (p : List α) (hp : p <+: path) (hne : p ≠ path) : t.get p = some .dir := by
    rcases hparent with rfl | hparent
    · exact absurd (List.prefix_nil.mp hp) hne
    · have hpath : path ≠ [] := fun h => hne (by rw [h] at hp ⊢; exact List.prefix_nil.mp hp)
      rw [← List.dropLast_concat_getLast hpath, List.prefix_concat_iff, List.dropLast_concat_getLast hpath] at hp
      obtain ⟨s, hs⟩ := hp.resolve_left hne
      by_cases hnil : s = []
      · rw [hnil, List.append_nil] at hs
        rw [hs]
        exact hparent
      · exact get_of_append_ne_none hnil (by rw [hs, hparent]; simp)
  have hnofile : ¬ path.inits.any t.isFile = true := by
    intro h
    obtain ⟨p, hp, hf⟩ := List.any_eq_true.mp h
    by_cases he : p = path
    · rw [he, hfile] at hf
      cases hf
    · have hdir := habove p ((List.mem_inits _ _).mp hp) he
      rw [isFile, hdir] at hf
      cases hf
  obtain ⟨t', ht'⟩ : ∃ t', t.mkdirs path = some t' := by
    unfold mkdirs
    rw [dif_neg hnofile]
    exact ⟨_, rfl⟩
  refine ⟨t', ht', fun p => ?_⟩
  rw [get_mkdirs ht']
  by_cases he : p = path
  · subst he
    rw [if_pos rfl]
    split_ifs with hp
    · rfl
    · exact get_of_isFile hfile fun hn => hp ⟨List.prefix_rfl, by rw [hn]; rfl⟩
  · rw [if_neg he, if_neg]
    rintro ⟨hp, hn⟩
    rw [habove p hp he] at hn
    cases hn

/-- A directory that is there is left as it is. -/
theorem mkdirs_of_dir {path : List α} (h : t.get path = some .dir) : t.mkdirs path = some t := by
  have hparent : path = [] ∨ t.get path.dropLast = some .dir := by
    by_cases hpath : path = []
    · exact .inl hpath
    · refine .inr (t.closed _ (path.getLast hpath) ?_)
      rw [List.dropLast_concat_getLast hpath, h]
      simp
  obtain ⟨t', ht', hget⟩ := exists_mkdirs (by rw [isFile, h]; rfl) hparent
  rw [ht']
  congr 1
  ext p : 2
  rw [hget]
  split_ifs with hp
  · rw [hp, h]
  · rfl

/-! ### Files -/

/-- A new file. -/
def create (t : FileTree α β) (path : List α) (data : β) : Option (FileTree α β) :=
  if h : path ≠ [] ∧ t.isDir path.dropLast = true ∧ (t.get path).isNone = true then
    some
      { get := Function.update t.get path (some (.file data))
        root := by
          rw [Function.update_of_ne h.1.symm]
          exact t.root
        closed := by
          intro p a hne
          by_cases hpa : p ++ [a] = path
          · have hp : p = path.dropLast := by rw [← hpa, List.dropLast_concat]
            have hlen : p ≠ path := fun he => by
              have := congrArg List.length (he.trans hpa.symm)
              simp at this
            rw [Function.update_of_ne hlen, hp]
            exact isDir_eq_true.mp h.2.1
          · rw [Function.update_of_ne hpa] at hne
            have hdir := t.closed p a hne
            have hp : p ≠ path := fun he => by
              rw [he] at hdir
              have hnone := h.2.2
              rw [hdir] at hnone
              cases hnone
            rw [Function.update_of_ne hp]
            exact hdir }
  else none

theorem exists_create {path : List α} (hpath : path ≠ []) (hparent : t.get path.dropLast = some .dir)
    (hnone : t.get path = none) (data : β) :
    ∃ t', t.create path data = some t' ∧ t'.get = Function.update t.get path (some (.file data)) := by
  unfold create
  rw [dif_pos ⟨hpath, isDir_eq_true.mpr hparent, by rw [hnone]; rfl⟩]
  exact ⟨_, rfl, rfl⟩

theorem get_create {path : List α} {data : β} {t' : FileTree α β} (h : t.create path data = some t') :
    t.get path = none ∧ t'.get = Function.update t.get path (some (.file data)) := by
  unfold create at h
  split_ifs at h with hpath
  obtain rfl := Option.some.inj h
  exact ⟨Option.isNone_iff_eq_none.mp hpath.2.2, rfl⟩

/-- A file that is there gets this content. -/
def overwrite (t : FileTree α β) (path : List α) (data : β) : Option (FileTree α β) :=
  if h : t.isFile path = true then
    some
      { get := Function.update t.get path (some (.file data))
        root := by
          rw [Function.update_of_ne]
          · exact t.root
          · rintro rfl
            rw [isFile, t.root] at h
            cases h
        closed := by
          intro p a hne
          by_cases hpa : p ++ [a] = path
          · have hdir : t.get p = some .dir := t.closed p a fun hnone => by
              rw [← hpa, isFile, hnone] at h
              cases h
            rwa [Function.update_of_ne]
            rintro rfl
            rw [isFile, hdir] at h
            cases h
          · rw [Function.update_of_ne hpa] at hne
            have hdir := t.closed p a hne
            rwa [Function.update_of_ne]
            rintro rfl
            rw [isFile, hdir] at h
            cases h }
  else none

theorem get_overwrite {path : List α} {data : β} {t' : FileTree α β} (h : t.overwrite path data = some t') :
    t.isFile path = true ∧ t'.get = Function.update t.get path (some (.file data)) := by
  unfold overwrite at h
  split_ifs at h with hfile
  obtain rfl := Option.some.inj h
  exact ⟨hfile, rfl⟩

/-! ### Moving and removing -/

/-- What is at `src` and below it is moved to `dst`, where there is nothing. -/
def rename (t : FileTree α β) (src dst : List α) : Option (FileTree α β) :=
  if h : (t.get src).isSome = true ∧ dst ≠ [] ∧ t.isDir dst.dropLast = true ∧ (t.get dst).isNone = true ∧
      ¬ src <+: dst then
    some
      { get := fun p =>
          if dst <+: p then t.get (src ++ p.drop dst.length) else if src <+: p then none else t.get p
        root := by
          rw [if_neg fun hp => h.2.1 (List.prefix_nil.mp hp), if_neg]
          · exact t.root
          · intro hp
            rw [List.prefix_nil.mp hp] at h
            exact h.2.2.2.2 (List.nil_prefix)
        closed := by
          intro p a hne
          by_cases hp : dst <+: p
          · rw [if_pos (hp.trans (List.prefix_append p [a])), List.drop_append_of_le_length hp.length_le,
              ← List.append_assoc] at hne
            rw [if_pos hp]
            exact t.closed _ a hne
          · have hsrc (hs : ¬ src <+: p) (hd : t.get p = some .dir) :
                (if dst <+: p then t.get (src ++ p.drop dst.length) else if src <+: p then none else t.get p) =
                  some .dir := by
              rw [if_neg hp, if_neg hs, hd]
            by_cases hpa : dst <+: p ++ [a]
            · have he : dst = p ++ [a] := (List.prefix_concat_iff.mp hpa).resolve_right hp
              have hparent := isDir_eq_true.mp h.2.2.1
              rw [he, List.dropLast_concat] at hparent
              refine hsrc (fun hs => h.2.2.2.2 ?_) hparent
              rw [he]
              exact hs.trans (List.prefix_append p [a])
            · rw [if_neg hpa] at hne
              split_ifs at hne with hs
              · exact absurd rfl hne
              · exact hsrc (fun hs' => hs (hs'.trans (List.prefix_append p [a]))) (t.closed p a hne) }
  else none

theorem get_rename {src dst : List α} {t' : FileTree α β} (h : t.rename src dst = some t') (p : List α) :
    t'.get p = if dst <+: p then t.get (src ++ p.drop dst.length) else if src <+: p then none else t.get p := by
  unfold rename at h
  split_ifs at h
  obtain rfl := Option.some.inj h
  rfl

theorem exists_rename {src dst : List α} (hsrc : t.get src ≠ none) (hdst : dst ≠ [])
    (hparent : t.get dst.dropLast = some .dir) (hnone : t.get dst = none) (hout : ¬ src <+: dst) :
    ∃ t', t.rename src dst = some t' := by
  unfold rename
  rw [dif_pos ⟨Option.isSome_iff_ne_none.mpr hsrc, hdst, isDir_eq_true.mpr hparent, by rw [hnone]; rfl, hout⟩]
  exact ⟨_, rfl⟩

theorem rename_of_ne_none {src dst : List α} (h : t.get dst ≠ none) : t.rename src dst = none := by
  unfold rename
  rw [dif_neg]
  rintro ⟨-, -, -, hnone, -⟩
  exact h (Option.isNone_iff_eq_none.mp hnone)

/-- What is at the path and below it is removed; the root stays. -/
def removeTree (t : FileTree α β) (path : List α) : FileTree α β :=
  if h : path = [] then t
  else
    { get := fun p => if path <+: p then none else t.get p
      root := by
        rw [if_neg fun hp => h (List.prefix_nil.mp hp)]
        exact t.root
      closed := by
        intro p a hne
        split_ifs at hne with hpa
        · exact absurd rfl hne
        · rw [if_neg fun hp => hpa (hp.trans (List.prefix_append p [a]))]
          exact t.closed p a hne }

theorem get_removeTree {path : List α} (h : path ≠ []) (p : List α) :
    (t.removeTree path).get p = if path <+: p then none else t.get p := by
  unfold removeTree
  rw [dif_neg h]

/-- A file is removed. -/
def unlink (t : FileTree α β) (path : List α) : Option (FileTree α β) :=
  if t.isFile path = true then some (t.removeTree path) else none

theorem get_unlink {path : List α} {t' : FileTree α β} (h : t.unlink path = some t') :
    t'.get = Function.update t.get path none := by
  unfold unlink at h
  split_ifs at h with hfile
  obtain rfl := Option.some.inj h
  have hne : path ≠ [] := by
    rintro rfl
    rw [isFile, t.root] at hfile
    cases hfile
  funext p
  rw [get_removeTree hne]
  by_cases hp : p = path
  · rw [hp, if_pos List.prefix_rfl, Function.update_self]
  · rw [Function.update_of_ne hp]
    split_ifs with hbelow
    · exact (get_below_file hfile hbelow hp).symm
    · rfl

/-- What is at the path and below it is removed, but for what cannot be removed
and the directories that this is in. -/
def removeTreeBut (t : FileTree α β) (path : List α) (left : List (List α)) : FileTree α β where
  get p := if path <+: p ∧ (left.all fun q => ¬ (p <+: q ∧ (t.get q).isSome = true)) ∧ p ≠ [] then none else t.get p
  root := by
    rw [if_neg fun h => h.2.2 rfl]
    exact t.root
  closed := by
    intro p a hne
    by_cases hp : path <+: p ∧ (left.all fun q => ¬ (p <+: q ∧ (t.get q).isSome = true)) ∧ p ≠ []
    · refine absurd ?_ hne
      rw [if_pos]
      refine ⟨hp.1.trans (List.prefix_append p [a]), ?_, by simp⟩
      refine List.all_eq_true.mpr fun q hq => decide_eq_true fun hpq => ?_
      exact of_decide_eq_true (List.all_eq_true.mp hp.2.1 q hq) ⟨(List.prefix_append p [a]).trans hpq.1, hpq.2⟩
    · rw [if_neg hp]
      refine t.closed p a fun hn => hne ?_
      rw [hn]
      split_ifs <;> rfl

theorem get_removeTreeBut_of_not_prefix {path p : List α} (left : List (List α)) (h : ¬ path <+: p) :
    (t.removeTreeBut path left).get p = t.get p := if_neg fun hp => h hp.1

/-- Below the path there is only what has been left. -/
theorem get_removeTreeBut {path p : List α} (left : List (List α)) (hpath : path ≠ []) (h : path <+: p) :
    (t.removeTreeBut path left).get p = none ∨ ∃ q ∈ left, p <+: q := by
  by_cases hleft : ∃ q ∈ left, p <+: q
  · exact .inr hleft
  · left
    refine if_pos ⟨h, List.all_eq_true.mpr fun q hq => decide_eq_true fun hpq => hleft ⟨q, hq, hpq.1⟩, ?_⟩
    rintro rfl
    exact hpath (List.prefix_nil.mp h)

/-- Where nothing is left, everything is removed. -/
theorem removeTreeBut_nil {path : List α} (hpath : path ≠ []) : t.removeTreeBut path [] = t.removeTree path := by
  ext p : 2
  rw [get_removeTree hpath]
  by_cases h : path <+: p
  · rw [if_pos h]
    exact (get_removeTreeBut [] hpath h).resolve_right fun ⟨q, hq, _⟩ => List.not_mem_nil hq
  · rw [if_neg h, get_removeTreeBut_of_not_prefix [] h]

end FileTree
end GpgMeister
