/-
# MessagePack values

The values of the format, and a codec as a pair of functions with the law that
packing and unpacking round-trip within the limits of the unpacker.
-/
import GpgMeister.Lib.Utf8

namespace GpgMeister

/-- A MessagePack value. A map is a `dict`: it has no key twice. -/
inductive Msg
  | nil
  | bool (b : Bool)
  | int (i : ℤ)
  | float (bits : UInt64)
  | str (s : Str)
  | bin (data : Bytes)
  | arr (xs : List Msg)
  | map (items : List (Msg × Msg))
  | ext (code : ℤ) (data : Bytes)

namespace Msg

def isStr : Msg → Bool
  | .str _ => true
  | _ => false

mutual

/-- What an unpacker with these limits reads back as it was: texts and
binaries of so many octets, arrays and maps of so many items, texts as keys,
and no extension types. -/
def within (maxLen maxItems : ℕ) : Msg → Bool
  | .str s => ((Utf8.encode s).any fun data => data.length ≤ maxLen)
  | .bin data => data.length ≤ maxLen
  | .arr xs => xs.length ≤ maxItems && withinList maxLen maxItems xs
  | .map items => items.length ≤ maxItems && withinItems maxLen maxItems items
  | .ext _ _ => false
  | _ => true

def withinList (maxLen maxItems : ℕ) : List Msg → Bool
  | [] => true
  | x :: xs => within maxLen maxItems x && withinList maxLen maxItems xs

def withinItems (maxLen maxItems : ℕ) : List (Msg × Msg) → Bool
  | [] => true
  | (k, x) :: items =>
    isStr k && within maxLen maxItems k && within maxLen maxItems x && withinItems maxLen maxItems items

end

mutual

/-- How deep containers are nested. -/
def depth : Msg → ℕ
  | .arr xs => depthList xs + 1
  | .map items => depthItems items + 1
  | _ => 0

def depthList : List Msg → ℕ
  | [] => 0
  | x :: xs => max (depth x) (depthList xs)

def depthItems : List (Msg × Msg) → ℕ
  | [] => 0
  | (k, x) :: items => max (max (depth k) (depth x)) (depthItems items)

end

theorem withinList_eq (maxLen maxItems : ℕ) : ∀ xs : List Msg,
    withinList maxLen maxItems xs = xs.all (within maxLen maxItems)
  | [] => rfl
  | x :: xs => by rw [withinList, withinList_eq maxLen maxItems xs, List.all_cons]

theorem withinItems_eq (maxLen maxItems : ℕ) : ∀ items : List (Msg × Msg), withinItems maxLen maxItems items =
    items.all fun m => isStr m.1 && within maxLen maxItems m.1 && within maxLen maxItems m.2
  | [] => rfl
  | (k, x) :: items => by rw [withinItems, withinItems_eq maxLen maxItems items, List.all_cons]

theorem depthList_le {n : ℕ} : ∀ {xs : List Msg}, (∀ x ∈ xs, depth x ≤ n) → depthList xs ≤ n
  | [], _ => Nat.zero_le n
  | x :: xs, h => by
    rw [List.forall_mem_cons] at h
    rw [depthList]
    exact max_le h.1 (depthList_le h.2)

mutual

/-- What an unpacker that reads texts as octets gives. -/
def noText : Msg → Bool
  | .str _ => false
  | .arr xs => noTextList xs
  | .map items => noTextItems items
  | _ => true

def noTextList : List Msg → Bool
  | [] => true
  | x :: xs => noText x && noTextList xs

def noTextItems : List (Msg × Msg) → Bool
  | [] => true
  | (k, x) :: items => noText k && noText x && noTextItems items

end

theorem noTextList_eq : ∀ xs : List Msg, noTextList xs = xs.all noText
  | [] => rfl
  | x :: xs => by rw [noTextList, noTextList_eq xs, List.all_cons]

theorem noTextItems_eq : ∀ items : List (Msg × Msg), noTextItems items = items.all fun m => noText m.1 && noText m.2
  | [] => rfl
  | (k, x) :: items => by rw [noTextItems, noTextItems_eq items, List.all_cons]

/-! ### Equality -/

mutual

def beq : Msg → Msg → Bool
  | .nil, .nil => true
  | .bool a, .bool b => a = b
  | .int a, .int b => a = b
  | .float a, .float b => a = b
  | .str a, .str b => a = b
  | .bin a, .bin b => a = b
  | .arr a, .arr b => beqList a b
  | .map a, .map b => beqItems a b
  | .ext c a, .ext d b => c = d && a = b
  | _, _ => false

def beqList : List Msg → List Msg → Bool
  | [], [] => true
  | a :: as, b :: bs => beq a b && beqList as bs
  | _, _ => false

def beqItems : List (Msg × Msg) → List (Msg × Msg) → Bool
  | [], [] => true
  | (k, a) :: as, (l, b) :: bs => beq k l && beq a b && beqItems as bs
  | _, _ => false

end

mutual

theorem beq_refl : ∀ a : Msg, beq a a = true
  | .nil => rfl
  | .bool _ | .int _ | .float _ | .str _ | .bin _ => decide_eq_true rfl
  | .arr a => beqList_refl a
  | .map a => beqItems_refl a
  | .ext c a => by simp [beq]

theorem beqList_refl : ∀ a : List Msg, beqList a a = true
  | [] => rfl
  | a :: as => by rw [beqList, beq_refl a, beqList_refl as, Bool.and_self]

theorem beqItems_refl : ∀ a : List (Msg × Msg), beqItems a a = true
  | [] => rfl
  | (k, a) :: as => by rw [beqItems, beq_refl k, beq_refl a, beqItems_refl as, Bool.and_self, Bool.and_self]

end

mutual

theorem eq_of_beq : ∀ {a b : Msg}, beq a b = true → a = b
  | .nil, b, h => by cases b <;> simp_all [beq]
  | .bool _, b, h => by cases b <;> simp_all [beq]
  | .int _, b, h => by cases b <;> simp_all [beq]
  | .float _, b, h => by cases b <;> simp_all [beq]
  | .str _, b, h => by cases b <;> simp_all [beq]
  | .bin _, b, h => by cases b <;> simp_all [beq]
  | .arr as, b, h => by
    cases b with
    | arr bs => rw [eq_of_beqList (a := as) (b := bs) h]
    | _ => simp [beq] at h
  | .map as, b, h => by
    cases b with
    | map bs => rw [eq_of_beqItems (a := as) (b := bs) h]
    | _ => simp [beq] at h
  | .ext _ _, b, h => by cases b <;> simp_all [beq]

theorem eq_of_beqList : ∀ {a b : List Msg}, beqList a b = true → a = b
  | [], [], _ => rfl
  | [], _ :: _, h => by simp [beqList] at h
  | _ :: _, [], h => by simp [beqList] at h
  | a :: as, b :: bs, h => by
    rw [beqList, Bool.and_eq_true] at h
    rw [eq_of_beq h.1, eq_of_beqList h.2]

theorem eq_of_beqItems : ∀ {a b : List (Msg × Msg)}, beqItems a b = true → a = b
  | [], [], _ => rfl
  | [], _ :: _, h => by simp [beqItems] at h
  | _ :: _, [], h => by simp [beqItems] at h
  | (k, a) :: as, (l, b) :: bs, h => by
    rw [beqItems, Bool.and_eq_true, Bool.and_eq_true] at h
    rw [eq_of_beq h.1.1, eq_of_beq h.1.2, eq_of_beqItems h.2]

end

instance : DecidableEq Msg := fun a b =>
  decidable_of_iff (beq a b = true) ⟨eq_of_beq, fun h => h ▸ beq_refl a⟩

/-- `d.get(key)` -/
def get (items : List (Msg × Msg)) (key : Str) : Option Msg :=
  (items.find? fun m => match m.1 with | .str k => k = key | _ => false).map Prod.snd

end Msg

/-- A codec: `packb(v, use_bin_type=True)`, and `unpackb(data, raw=False, …)`
with limits. -/
structure Msgpack (ε : Type) where
  packb : Msg → Except ε Bytes
  unpackb : (maxLen maxItems : ℕ) → Bytes → Except ε Msg
  /-- `unpack(stream, raw=True, …)`, and how many octets it has read. -/
  unpackRaw : (maxLen maxItems : ℕ) → Bytes → Except ε (Msg × ℕ)

/-- Packing and unpacking round-trip, of values that are within the limits and
not nested deeply. -/
def Msgpack.RoundTrips {ε : Type} (m : Msgpack ε) : Prop :=
  ∀ maxLen maxItems v data, m.packb v = .ok data → v.within maxLen maxItems = true → v.depth ≤ 100 →
    m.unpackb maxLen maxItems data = .ok v

/-- Texts are read as octets where that is asked for. -/
def Msgpack.ReadsRaw {ε : Type} (m : Msgpack ε) : Prop :=
  ∀ maxLen maxItems data v n, m.unpackRaw maxLen maxItems data = .ok (v, n) → v.noText = true

/-- The codec of one value, which raises for all others. -/
def Msgpack.single {ε : Type} (v : Msg) (data : Bytes) (e : ε) : Msgpack ε where
  packb w := if w = v then .ok data else .error e
  unpackb maxLen maxItems d := if d = data ∧ v.within maxLen maxItems = true then .ok v else .error e
  unpackRaw _ _ _ := .error e

theorem Msgpack.roundTrips_single {ε : Type} (v : Msg) (data : Bytes) (e : ε) : (single v data e).RoundTrips := by
  intro maxLen maxItems w d h hwithin _
  by_cases hw : w = v
  · subst hw
    simp only [single, if_true, Except.ok.injEq] at h
    subst h
    simp [single, hwithin]
  · simp [single, hw] at h

end GpgMeister
