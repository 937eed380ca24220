/-
# Dictionaries

A JSON object that no key occurs in twice, what setting a key does to it, and
what is read back from its text (`Dict.loads_dumps`).
-/
import GpgMeister.Lib.JsonRoundTrip

namespace GpgMeister

/-- A `dict` with string keys and JSON values. -/
structure Dict where
  items : List (Str × Json)
  unique : Json.uniqueKeys (.obj items) = true

/-- The keys of a `dict` that is written out are compared by evaluation. -/
theorem Dict.evaluated : true = true := rfl

namespace Json

theorem uniqueKeys_str (s : Str) : uniqueKeys (.str s) = true := by simp only [uniqueKeys]

theorem uniqueKeys_int (i : ℤ) : uniqueKeys (.int i) = true := by simp only [uniqueKeys]

theorem uniqueKeys_obj {ms : List (Str × Json)} : uniqueKeys (.obj ms) = true ↔
    (ms.map Prod.fst).Nodup ∧ ∀ m ∈ ms, uniqueKeys m.2 = true := by
  have h : ∀ ms : List (Str × Json), uniqueKeysMembers ms = true ↔ ∀ m ∈ ms, uniqueKeys m.2 = true := by
    intro ms
    induction ms with
    | nil => simp [uniqueKeysMembers]
    | cons m ms ih => rw [uniqueKeysMembers, Bool.and_eq_true, ih, List.forall_mem_cons]
  rw [uniqueKeys, Bool.and_eq_true, decide_eq_true_eq, h]

theorem mem_insert : ∀ {ms : List (Str × Json)} {k : Str} {v : Json} {m : Str × Json},
    m ∈ insert ms k v → m = (k, v) ∨ m ∈ ms
  | [], _, _, _, h => .inl (List.mem_singleton.mp h)
  | n :: ms, k, v, m, h => by
    rw [insert] at h
    split_ifs at h
    · exact (List.mem_cons.mp h).imp_right (List.mem_cons_of_mem _)
    · rcases List.mem_cons.mp h with rfl | h
      · exact .inr List.mem_cons_self
      · exact (mem_insert h).imp_right (List.mem_cons_of_mem _)

theorem insert_nodup : ∀ {ms : List (Str × Json)} {k : Str} {v : Json}, (ms.map Prod.fst).Nodup →
    ((insert ms k v).map Prod.fst).Nodup
  | [], _, _, _ => by simp [insert]
  | m :: ms, k, v, h => by
    rw [List.map_cons, List.nodup_cons] at h
    rw [insert]
    split_ifs with hk
    · rw [List.map_cons, List.nodup_cons]
      exact ⟨hk ▸ h.1, h.2⟩
    · rw [List.map_cons, List.nodup_cons]
      refine ⟨fun hm => ?_, insert_nodup h.2⟩
      obtain ⟨x, hx, he⟩ := List.mem_map.mp hm
      rcases mem_insert hx with rfl | hx
      · exact hk he.symm
      · exact h.1 (List.mem_map.mpr ⟨x, hx, he⟩)

theorem lookup_cons_eq {α : Type} (m : Str × α) (ms : List (Str × α)) (k : Str) :
    (m :: ms).lookup k = if k = m.1 then some m.2 else ms.lookup k := by
  rw [List.lookup_cons]
  by_cases h : k = m.1
  · rw [if_pos h, beq_iff_eq.mpr h]
  · rw [if_neg h, beq_eq_false_iff_ne.mpr h]

theorem lookup_insert (k' : Str) : ∀ (ms : List (Str × Json)) (k : Str) (v : Json),
    (insert ms k v).lookup k' = if k' = k then some v else ms.lookup k'
  | [], k, v => by rw [insert, lookup_cons_eq]
  | m :: ms, k, v => by
    rw [insert]
    split_ifs with hk h h
    · rw [lookup_cons_eq, if_pos h]
    · rw [lookup_cons_eq, lookup_cons_eq, if_neg h, hk, if_neg h]
    · have hne : k' ≠ m.1 := fun he => hk (he.symm.trans h)
      rw [lookup_cons_eq, lookup_insert k' ms k v, if_pos h, if_neg hne]
    · rw [lookup_cons_eq, lookup_cons_eq, lookup_insert k' ms k v, if_neg h]

/-- Where no key occurs twice, the order of the items makes no difference. -/
theorem lookup_eq_some_iff_mem {α : Type} {ms : List (Str × α)} {k : Str} {v : α} (h : (ms.map Prod.fst).Nodup) :
    ms.lookup k = some v ↔ (k, v) ∈ ms := by
  induction ms with
  | nil => simp
  | cons m ms ih =>
    rw [List.map_cons, List.nodup_cons] at h
    rw [lookup_cons_eq, List.mem_cons]
    split_ifs with hk
    · have hn : (k, v) ∉ ms := fun hm => h.1 (List.mem_map.mpr ⟨_, hm, hk⟩)
      rw [or_iff_left hn, Prod.ext_iff, Option.some.injEq, and_iff_right hk, eq_comm]
    · simp [ih h.2, Prod.ext_iff, hk]

theorem lookup_perm {α : Type} {l l' : List (Str × α)} (hp : l.Perm l') (hn : (l.map Prod.fst).Nodup) (k : Str) :
    l.lookup k = l'.lookup k := by
  have hn' : (l'.map Prod.fst).Nodup := (hp.map Prod.fst).nodup_iff.mp hn
  ext v
  rw [lookup_eq_some_iff_mem hn, lookup_eq_some_iff_mem hn', hp.mem_iff]

theorem lookup_map (g : Json → Json) (k : Str) : ∀ ms : List (Str × Json),
    (ms.map fun m => (m.1, g m.2)).lookup k = (ms.lookup k).map g
  | [] => rfl
  | m :: ms => by
    rw [List.map_cons, lookup_cons_eq, lookup_cons_eq, lookup_map g k ms]
    split_ifs <;> rfl

end Json

namespace Dict

open Json

/-- `d.get(key)`, where it is there. -/
def get (d : Dict) (key : Str) : Option Json := d.items.lookup key

/-- `d[key] = v` -/
def set (d : Dict) (key : Str) (v : Json) (hv : uniqueKeys v = true) : Dict where
  items := insert d.items key v
  unique := by
    have h := uniqueKeys_obj.mp d.unique
    refine uniqueKeys_obj.mpr ⟨insert_nodup h.1, fun m hm => ?_⟩
    rcases mem_insert hm with rfl | hm
    · exact hv
    · exact h.2 m hm

@[simp] theorem get_set (d : Dict) (key key' : Str) (v : Json) (hv : uniqueKeys v = true) :
    (d.set key v hv).get key' = if key' = key then some v else d.get key' :=
  lookup_insert key' d.items key v

theorem set_ne_nil (d : Dict) (key : Str) (v : Json) (hv : uniqueKeys v = true) :
    (d.set key v hv).items ≠ [] := by
  intro h
  have := get_set d key key v hv
  rw [if_pos rfl, get, h] at this
  cases this

/-- `d.update(e)` -/
def update (d e : Dict) : Dict :=
  e.items.attach.foldl (fun d m => d.set m.1.1 m.1.2 ((uniqueKeys_obj.mp e.unique).2 m.1 m.2)) d

/-- Keys that `e` does not have are kept. -/
theorem get_update {d e : Dict} {key : Str} (h : e.get key = none) : (d.update e).get key = d.get key := by
  have hne : ∀ m ∈ e.items, key ≠ m.1 := by
    intro m hm he
    have := (lookup_eq_some_iff_mem (uniqueKeys_obj.mp e.unique).1).mpr (show (key, m.2) ∈ e.items from he ▸ hm)
    rw [get, this] at h
    cases h
  have hfold : ∀ (l : List {m // m ∈ e.items}) (d : Dict),
      (l.foldl (fun d m => d.set m.1.1 m.1.2 ((uniqueKeys_obj.mp e.unique).2 m.1 m.2)) d).get key = d.get key := by
    intro l
    induction l with
    | nil => exact fun d => rfl
    | cons m l ih =>
      intro d
      rw [List.foldl_cons, ih, get_set, if_neg (hne m.1 m.2)]
  exact hfold _ d

/-- `json.loads` of `json.dumps` is a `dict` with the same items. -/
theorem loads_dumps {d : Dict} {limit : ℕ} {t : Str} (h : dumps limit (.obj d.items) = .ok t) :
    ∃ ms, loads limit t = .ok (.obj ms) ∧ ∀ key, ms.lookup key = (d.get key).map canon := by
  refine ⟨sortKeys (canonMembers d.items), Json.loads_dumps d.unique h, fun key => ?_⟩
  have hn : ((canonMembers d.items).map Prod.fst).Nodup := by
    rw [canonMembers_eq, List.map_map]
    exact (uniqueKeys_obj.mp d.unique).1
  have hp := sortKeys_perm (canonMembers d.items)
  rw [lookup_perm hp ((hp.map Prod.fst).nodup_iff.mpr hn), canonMembers_eq, lookup_map]
  rfl

end Dict
end GpgMeister
