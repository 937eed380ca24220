/-
# JSON in the order of the keys

The text of a value without white space, and with the keys of a `dict` as they
come (`compact`), as a serializer of records writes it. It is read back as the
value itself (`loads_compact`).
-/
import GpgMeister.Lib.JsonRoundTrip

namespace GpgMeister
namespace Json

mutual

/-- The text of a value, with the keys in their own order. -/
def compact : Json → Str
  | .arr xs => ch '[' :: join (compactList xs) ++ [ch ']']
  | .obj ms => ch '\x7b' :: join (compactMembers ms) ++ [ch '\x7d']
  | .null => encode .null
  | .bool b => encode (.bool b)
  | .int i => encode (.int i)
  | .float x => encode (.float x)
  | .str s => encode (.str s)

def compactList : List Json → List Str
  | [] => []
  | x :: xs => compact x :: compactList xs

def compactMembers : List (Str × Json) → List Str
  | [] => []
  | (k, x) :: ms => memberText (k, compact x) :: compactMembers ms

end

theorem compactList_eq : ∀ xs : List Json, compactList xs = xs.map compact
  | [] => rfl
  | x :: xs => by rw [compactList, compactList_eq xs, List.map_cons]

theorem compactMembers_eq : ∀ ms : List (Str × Json),
    compactMembers ms = ms.map fun m => memberText (m.1, compact m.2)
  | [] => rfl
  | (k, x) :: ms => by rw [compactMembers, compactMembers_eq ms, List.map_cons]

theorem compact_head (v : Json) : ∃ c t, compact v = c :: t ∧ isWs c = false ∧ c ≠ ch ']' ∧ c ≠ bom := by
  match v with
  | .null | .bool b | .int i | .float x | .str s =>
    rw [compact]
    exact encode_head _
  | .arr xs => exact ⟨ch '[', _, rfl, by decide, by decide, by decide⟩
  | .obj ms => exact ⟨ch '\x7b', _, rfl, by decide, by decide, by decide⟩

/-- **The decoder reads the text of a value back.** -/
theorem reads_compact (limit : ℕ) (v : Json) : ∀ k : List Frame, uniqueKeys v = true → shortInts v = true →
    k.length + depth v ≤ limit → Reads limit k (compact v) v := by
  induction v using induction with
  | null => exact reads_encode limit .null
  | bool b => exact reads_encode limit (.bool b)
  | int i => exact reads_encode limit (.int i)
  | float x => exact reads_encode limit (.float x)
  | str s => exact reads_encode limit (.str s)
  | arr xs ih =>
    intro k hu hs hd
    rw [depth] at hd
    have hlt : k.length < limit := by omega
    have h := reads_arr (l := xs.map fun y => (compact y, y)) hlt (fun m hm => ?_) fun m hm f => ?_
    · rw [List.map_map, List.map_map] at h
      rw [compact, compactList_eq]
      simpa [Function.comp_def] using h
    · obtain ⟨y, -, rfl⟩ := List.mem_map.mp hm
      obtain ⟨c, t, hc, hw, hb, -⟩ := compact_head y
      exact ⟨c, t, hc, hw, hb⟩
    · obtain ⟨y, hy, rfl⟩ := List.mem_map.mp hm
      obtain ⟨h1, h2, h3⟩ := list_spec hy
      exact ih y hy (f :: k) (h3 hu) (h2 hs) (by rw [List.length_cons]; omega)
  | obj ms ih =>
    intro k hu hs hd
    rw [depth] at hd
    rw [uniqueKeys, Bool.and_eq_true, decide_eq_true_eq] at hu
    have hlt : k.length < limit := by omega
    have h := reads_obj (l := ms.map fun x => (x.1, compact x.2, x.2)) hlt ?_ fun m hm f => ?_
    · rw [List.map_map, List.map_map] at h
      rw [compact, compactMembers_eq]
      simpa [Function.comp_def] using h
    · rw [List.map_map]
      exact hu.1
    · obtain ⟨y, hy, rfl⟩ := List.mem_map.mp hm
      obtain ⟨h1, h2, h3⟩ := members_spec hy
      exact ih y hy (f :: k) (h3 hu.2) (h2 hs) (by rw [List.length_cons]; omega)

/-- **Decoding inverts the compact text.** -/
theorem loads_compact {limit : ℕ} {v : Json} (hu : uniqueKeys v = true) (hs : shortInts v = true)
    (hd : depth v ≤ limit) : loads limit (compact v) = .ok v := by
  obtain ⟨c, u, hc, -, -, hb⟩ := compact_head v
  have hb : ¬ (compact v).head? = some bom := by
    rw [hc, List.head?_cons, Option.some.injEq]
    exact hb
  have hr := reads_compact limit v [] hu hs (by rw [List.length_nil]; omega) [] (fun _ h => nomatch h)
  rw [List.append_nil] at hr
  rw [loads, if_neg hb, hr]
  rfl

end Json
end GpgMeister
