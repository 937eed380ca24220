/-
# The folder of an archive

`_archive_root` of `services/folder_service.py`: which lists of members are one
folder. A name that has no component at all, such as `.`, is no unsafe path to
its checks, and its first component is asked for all the same.

* `classified_iff`: exactly when a list of members is either one folder or is
  refused with `ValueError`.
-/
import GpgMeister.Lib.MapM
import GpgMeister.Services.FolderService

namespace GpgMeister
namespace FolderService

/-! ### One folder -/

/-- A file or a directory, with a name that stays where it is. -/
structure Member.Safe (m : Member) : Prop where
  kind : m.isfile = true ∨ m.isdir = true
  relative : isAbsolute m.name = false
  noParent : [dot, dot] ∉ pathParts m.name
  noBackslash : backslash ∉ m.name

/-- The first component of its name is the root. -/
def Member.Under (m : Member) (root : Str) : Prop := m.Safe ∧ (pathParts m.name).head? = some root

/-- The members are the folder with this name, which comes first. -/
def IsFolder (members : List Member) (root : Str) : Prop :=
  members ≠ [] ∧ (∀ m ∈ members, m.Under root) ∧
    ∃ first, members.head? = some first ∧ first.isdir = true ∧ first.name = root

/-- **A list of members is one folder, or it is refused with `ValueError`.** -/
structure Classified (members : List Member) : Prop where
  folder : ∀ root, archiveRoot members = .ok root ↔ IsFolder members root
  refused : ∀ e, archiveRoot members = .error e → e.cls = .valueError

/-- No member that is reached has a name without components. -/
def Named (members : List Member) : Prop :=
  ∀ before m after, members = before ++ m :: after → (∀ b ∈ before, ∃ root, b.Under root) → m.Safe →
    pathParts m.name ≠ []

/-! ### One member -/

/-- What the checks of a member make of it. -/
theorem memberRoot_cases (m : Member) :
    (∃ root, memberRoot m = .ok root ∧ m.Under root) ∨
      (∃ e, memberRoot m = .error e ∧ e.cls = .valueError ∧ ¬ m.Safe) ∨
        ∃ e, memberRoot m = .error e ∧ e.cls = .indexError ∧ m.Safe ∧ pathParts m.name = [] := by
  unfold memberRoot
  by_cases hkind : m.isfile = true ∨ m.isdir = true
  · rw [if_neg (not_not.mpr hkind)]
    by_cases hunsafe : isAbsolute m.name = true ∨ [dot, dot] ∈ pathParts m.name ∨ backslash ∈ m.name
    · rw [if_pos hunsafe]
      refine .inr (.inl ⟨_, rfl, rfl, fun hs => ?_⟩)
      rcases hunsafe with h | h | h
      · rw [hs.relative] at h
        cases h
      · exact hs.noParent h
      · exact hs.noBackslash h
    · rw [if_neg hunsafe]
      simp only [not_or, Bool.not_eq_true] at hunsafe
      have hs : m.Safe :=
        { kind := hkind, relative := hunsafe.1, noParent := hunsafe.2.1, noBackslash := hunsafe.2.2 }
      cases hp : pathParts m.name with
      | nil => exact .inr (.inr ⟨_, rfl, rfl, hs, rfl⟩)
      | cons part parts => exact .inl ⟨part, rfl, hs, by rw [hp]; rfl⟩
  · rw [if_pos hkind]
    exact .inr (.inl ⟨_, rfl, rfl, fun hs => hkind hs.kind⟩)

theorem memberRoot_eq_ok_iff {m : Member} {root : Str} : memberRoot m = .ok root ↔ m.Under root := by
  rcases memberRoot_cases m with ⟨root', hm, hu⟩ | ⟨e, hm, -, hs⟩ | ⟨e, hm, -, -, hp⟩
  · rw [hm]
    constructor
    · intro h
      exact Except.ok.inj h ▸ hu
    · intro h
      rw [Option.some.inj (hu.2.symm.trans h.2)]
  · refine iff_of_false (by rw [hm]; simp) fun h => hs h.1
  · refine iff_of_false (by rw [hm]; simp) fun h => ?_
    rw [Member.Under, hp] at h
    cases h.2

/-- The name of the first member is one component. -/
theorem Member.Under.name_eq {m : Member} {root : Str} (h : m.Under root) (hname : m.name = root) :
    isAbsolute root = false ∧ relativeParts root = [root] ∧ root ≠ [dot, dot] := by
  obtain ⟨hs, hhead⟩ := h
  subst hname
  have hparts : pathParts m.name = relativeParts m.name := by rw [pathParts, hs.relative, if_neg (by decide)]
  have hmem : m.name ∈ pathParts m.name := List.mem_of_mem_head? hhead
  refine ⟨hs.relative, ?_, fun he => hs.noParent (he ▸ hmem)⟩
  rw [hparts, relativeParts, List.mem_filter, List.splitOn_eq_splitOnP] at hmem
  rw [relativeParts, List.splitOn_eq_splitOnP, List.splitOnP_eq_singleton (not_of_mem_splitOnP hmem.1)]
  exact List.filter_eq_self.mpr fun a ha => by rw [List.mem_singleton.mp ha]; exact hmem.2

/-! ### All of them -/

/-- What `archiveRoot` does once the members have passed. -/
def rootOf (first : Member) (roots : List Str) : Except Exc Str :=
  match roots.dedup with
  | [root] => if first.isdir = true ∧ first.name = root then .ok root else .error notOneFolder
  | _ => .error notOneFolder

theorem archiveRoot_cons (first : Member) (members : List Member) :
    archiveRoot (first :: members) = (first :: members).mapM memberRoot >>= rootOf first := rfl

theorem rootOf_eq_ok_iff {first : Member} {roots : List Str} {root : Str} :
    rootOf first roots = .ok root ↔
      (roots ≠ [] ∧ ∀ r ∈ roots, r = root) ∧ first.isdir = true ∧ first.name = root := by
  rw [← dedup_eq_singleton_iff]
  unfold rootOf
  split
  · rename_i root' hr
    rw [hr]
    by_cases hf : first.isdir = true ∧ first.name = root'
    · rw [if_pos hf]
      constructor
      · intro h
        obtain rfl := Except.ok.inj h
        exact ⟨rfl, hf⟩
      · intro h
        rw [List.singleton_inj.mp h.1]
    · rw [if_neg hf]
      refine iff_of_false (by simp) fun h => hf ?_
      rw [List.singleton_inj.mp h.1]
      exact h.2
  · rename_i hr
    exact iff_of_false (by simp) fun h => hr root h.1

theorem rootOf_error {first : Member} {roots : List Str} {e : Exc} (h : rootOf first roots = .error e) :
    e.cls = .valueError := by
  unfold rootOf at h
  split at h
  · split at h
    · cases h
    · obtain rfl := Except.error.inj h
      rfl
  · obtain rfl := Except.error.inj h
    rfl

/-- A list of members that is one folder is taken for it, and no other one. -/
theorem archiveRoot_eq_ok_iff (members : List Member) (root : Str) :
    archiveRoot members = .ok root ↔ IsFolder members root := by
  cases members with
  | nil => exact iff_of_false (by simp [archiveRoot]) fun h => h.1 rfl
  | cons first members =>
    rw [archiveRoot_cons]
    constructor
    · intro h
      cases hroots : (first :: members).mapM memberRoot with
      | error e =>
        rw [hroots] at h
        cases h
      | ok roots =>
        rw [hroots] at h
        obtain ⟨⟨-, hall⟩, hdir, hname⟩ := rootOf_eq_ok_iff.mp h
        refine ⟨List.cons_ne_nil _ _, ?_, first, rfl, hdir, hname⟩
        intro m hm
        obtain ⟨r, hr, hmr⟩ := exists_of_mem_left (mapM_eq_ok_iff.mp hroots) hm
        rw [hall r hr] at hmr
        exact memberRoot_eq_ok_iff.mp hmr
    · intro h
      obtain ⟨-, hall, first', hfirst, hdir, hname⟩ := h
      obtain rfl : first = first' := by simpa using hfirst
      rw [mapM_eq_replicate fun m hm => memberRoot_eq_ok_iff.mpr (hall m hm)]
      exact rootOf_eq_ok_iff.mpr ⟨⟨by simp, fun r hr => List.eq_of_mem_replicate hr⟩, hdir, hname⟩

/-- What the loop over the members raises. -/
theorem exists_of_mapM_error {members : List Member} {e : Exc} (h : members.mapM memberRoot = .error e) :
    e.cls = .valueError ∨ e.cls = .indexError ∧ ∃ before m after, members = before ++ m :: after ∧
      (∀ b ∈ before, ∃ root, b.Under root) ∧ m.Safe ∧ pathParts m.name = [] := by
  obtain ⟨before, m, after, hsplit, hbefore, hm⟩ := mapM_eq_error_iff.mp h
  rcases memberRoot_cases m with ⟨root, hm', -⟩ | ⟨e', hm', hcls, -⟩ | ⟨e', hm', hcls, hs, hp⟩
  · rw [hm'] at hm
    cases hm
  · rw [hm'] at hm
    obtain rfl := Except.error.inj hm
    exact .inl hcls
  · rw [hm'] at hm
    obtain rfl := Except.error.inj hm
    refine .inr ⟨hcls, before, m, after, hsplit, ?_, hs, hp⟩
    intro b hb
    obtain ⟨root, hroot⟩ := hbefore b hb
    exact ⟨root, memberRoot_eq_ok_iff.mp hroot⟩

/-- **A list of members is one folder or is refused with `ValueError`** exactly
if the first of them that does not pass, or none, is not one without a
component in its name. -/
theorem classified_iff (members : List Member) : Classified members ↔ Named members := by
  constructor
  · intro h before m after hsplit hbefore hs hp
    obtain ⟨e, hm, hcls⟩ : ∃ e, memberRoot m = .error e ∧ e.cls = .indexError := by
      rcases memberRoot_cases m with ⟨root, -, hu⟩ | ⟨e, -, -, hns⟩ | ⟨e, hm, hcls, -⟩
      · rw [Member.Under, hp] at hu
        cases hu.2
      · exact absurd hs hns
      · exact ⟨e, hm, hcls⟩
    have hloop : members.mapM memberRoot = .error e := mapM_eq_error_iff.mpr
      ⟨before, m, after, hsplit, fun b hb => (hbefore b hb).imp fun _ hu => memberRoot_eq_ok_iff.mpr hu, hm⟩
    have herror : archiveRoot members = .error e := by
      cases members with
      | nil => simp at hsplit
      | cons first members =>
        rw [archiveRoot_cons, hloop]
        rfl
    rw [h.refused e herror] at hcls
    cases hcls
  · intro h
    refine ⟨archiveRoot_eq_ok_iff members, ?_⟩
    intro e he
    cases members with
    | nil =>
      obtain rfl := Except.error.inj he
      rfl
    | cons first members =>
      rw [archiveRoot_cons] at he
      cases hroots : (first :: members).mapM memberRoot with
      | ok roots =>
        rw [hroots] at he
        exact rootOf_error he
      | error e' =>
        rw [hroots] at he
        obtain rfl := Except.error.inj he
        rcases exists_of_mapM_error hroots with hcls | ⟨-, before, m, after, hsplit, hbefore, hs, hp⟩
        · exact hcls
        · exact absurd hp (h before m after hsplit hbefore hs)

/-- An archive of the directory `.` alone. -/
def dotArchive : List Member := [{ name := [dot], type := .dir }]

theorem not_classified : ¬ ∀ members : List Member, Classified members := by
  intro h
  have herror : archiveRoot dotArchive = .error { cls := .indexError, message := lit "tuple index out of range" } := by
    decide
  have hcls := (h dotArchive).refused _ herror
  cases hcls

end FolderService
end GpgMeister
