/-
# JSON, read back

The decoder of `GpgMeister.Lib.Json`, where it expects a value, reads the text
of one and then stands after it (`Reads`), for one kind of value after the
other; a container is read by induction over its items.

* `loads_dumps`: decoding inverts encoding, up to the order of the keys.
* `lineFeed_not_mem_encode`: the text of a value is one line.
-/
import GpgMeister.Lib.Json

namespace GpgMeister
namespace Json

/-! ### Reading strings back -/

section Strings

variable {limit : ℕ} {k : List Frame}

theorem run_cons (s : Config) (c : CodePoint) (r : Str) :
    run limit s (c :: r) = (step limit s c).bind fun s' => run limit s' r := rfl

theorem lookup_shortEscapes {c e : CodePoint} (h : shortEscapes.lookup c = some e) : (c, e) ∈ shortEscapes := by
  obtain ⟨l1, l2, hl, -⟩ := List.lookup_eq_some_iff.mp h
  rw [hl]
  exact List.mem_append_right _ List.mem_cons_self

theorem unescape_of_mem {c e : CodePoint} (h : (c, e) ∈ shortEscapes) : e ≠ ch 'u' ∧ unescape e = some c := by
  have hall : shortEscapes.all (fun m => m.2 ≠ ch 'u' ∧ unescape m.2 = some m.1) = true := by decide
  simpa using List.all_eq_true.mp hall _ h

theorem hexVal_hexDigit {d : ℕ} (h : d < 16) : hexVal (hexDigit d) = some d := by
  have hall : (List.range 16).all (fun d => hexVal (hexDigit d) = some d) = true := by decide
  simpa using List.all_eq_true.mp hall d (List.mem_range.mpr h)

theorem run_string {use : StrFor} {done : Str} {high : Bool} {esc : Escape} {c : CodePoint} {mode : Mode}
    (h : stringStep use done high c esc = .ok mode) (r : Str) :
    run limit ⟨k, .string use done high esc⟩ (c :: r) = run limit ⟨k, mode⟩ r := by
  rw [run_cons]
  simp only [step, h]
  rfl

/-- The decoder reads an escaped character back. -/
theorem run_escapeChar (use : StrFor) (done : Str) (c : CodePoint) (r : Str) :
    run limit ⟨k, .string use done false .plain⟩ (escapeChar c ++ r) =
      run limit ⟨k, .string use (c :: done) false .plain⟩ r := by
  unfold escapeChar
  split
  · rename_i e he
    obtain ⟨hu, hc⟩ := unescape_of_mem (lookup_shortEscapes he)
    have h1 : stringStep use done false e .backslash = .ok (.string use (c :: done) false .plain) := by
      rw [stringStep, if_neg hu, hc]
    exact (run_string rfl (e :: r)).trans (run_string h1 r)
  · rename_i hn
    split_ifs with hlt
    · -- `\u00` and two digits
      have h1 : hexVal (hexDigit (c.val / 16)) = some (c.val / 16) := hexVal_hexDigit (by omega)
      have h2 : hexVal (hexDigit (c.val % 16)) = some (c.val % 16) := hexVal_hexDigit (by omega)
      have h3 : stringStep use done false (hexDigit (c.val / 16)) (.hex 1 0) =
          .ok (.string use done false (.hex 0 (c.val / 16))) := by
        rw [stringStep, h1]
        simp only [Nat.zero_mul, Nat.zero_add]
      have hv : c.val / 16 * 16 + c.val % 16 = c.val := by omega
      have hc : Fin.ofNat _ c.val = c := Fin.ofNat_val_eq_self c
      have hs : (decide (0xD800 ≤ c.val) && decide (c.val ≤ 0xDBFF)) = false := by
        simp only [Bool.and_eq_false_iff, decide_eq_false_iff_not]
        omega
      have h4 : stringStep use done false (hexDigit (c.val % 16)) (.hex 0 (c.val / 16)) =
          .ok (.string use (c :: done) false .plain) := by
        rw [stringStep, h2]
        simp only [hv, pushEscape, hc, hs]
        cases done <;> simp
      calc run limit ⟨k, .string use done false .plain⟩
            (lit "\\u00" ++ [hexDigit (c.val / 16), hexDigit (c.val % 16)] ++ r)
          = run limit ⟨k, .string use done false (.hex 1 0)⟩
              (hexDigit (c.val / 16) :: hexDigit (c.val % 16) :: r) :=
            ((run_string rfl _).trans (run_string rfl _)).trans ((run_string rfl _).trans (run_string rfl _))
        _ = run limit ⟨k, .string use (c :: done) false .plain⟩ r := (run_string h3 _).trans (run_string h4 _)
    · have h1 : c ≠ ch '"' := by
        rintro rfl
        exact absurd hn (by decide)
      have h2 : c ≠ ch '\\' := by
        rintro rfl
        exact absurd hn (by decide)
      exact run_string (by simp only [stringStep, if_neg h1, if_neg h2, if_neg hlt]) r

theorem run_escaped (use : StrFor) (r : Str) : ∀ (s done : Str),
    run limit ⟨k, .string use done false .plain⟩ (s.flatMap escapeChar ++ r) =
      run limit ⟨k, .string use (s.reverse ++ done) false .plain⟩ r
  | [], done => rfl
  | c :: s, done => by
    rw [List.flatMap_cons, List.append_assoc, run_escapeChar, run_escaped use r s, List.reverse_cons,
      List.append_assoc]
    rfl

/-- A key, from its first quotation mark on. -/
theorem run_key (ms : List (Str × Json)) (s r : Str) :
    run limit ⟨k, .key ms⟩ (strText s ++ r) = run limit ⟨k, .colon ms s⟩ r := by
  have h : run limit ⟨k, .key ms⟩ (strText s ++ r) =
      run limit ⟨k, .string (.key ms) [] false .plain⟩ (s.flatMap escapeChar ++ (ch '"' :: r)) := by
    rw [strText, List.cons_append, List.cons_append, List.append_assoc]
    rfl
  have hq : stringStep (.key ms) (s.reverse ++ []) false (ch '"') .plain = .ok (.colon ms s) := by
    rw [stringStep, if_pos rfl, List.append_nil, List.reverse_reverse]
  rw [h, run_escaped, run_string hq]

theorem run_str (s r : Str) :
    run limit ⟨k, .value⟩ (strText s ++ r) = run limit ⟨k, .after (.str s)⟩ r := by
  have h : run limit ⟨k, .value⟩ (strText s ++ r) =
      run limit ⟨k, .string .value [] false .plain⟩ (s.flatMap escapeChar ++ (ch '"' :: r)) := by
    rw [strText, List.cons_append, List.cons_append, List.append_assoc]
    rfl
  have hq : stringStep .value (s.reverse ++ []) false (ch '"') .plain = .ok (.after (.str s)) := by
    rw [stringStep, if_pos rfl, List.append_nil, List.reverse_reverse]
  rw [h, run_escaped, run_string hq]

end Strings

/-! ### Reading numbers back -/

section Numbers

variable {limit : ℕ} {k : List Frame}

/-- What can follow a value: the end, a comma or a closing bracket. -/
def Delimited (r : Str) : Prop := ∀ c ∈ r.head?, c = ch ',' ∨ c = ch ']' ∨ c = ch '\x7d'

theorem numStep_delimiter {c : CodePoint} (h : c = ch ',' ∨ c = ch ']' ∨ c = ch '\x7d') (s : NumState) :
    numStep s c = none := by
  rcases h with rfl | rfl | rfl <;> cases s <;> rfl

theorem numRun_none : ∀ t : Str, numRun none t = none
  | [] => rfl
  | _ :: t => numRun_none t

theorem run_number (r : Str) : ∀ (t done : Str) (s s' : NumState), numRun (some s) t = some s' →
    run limit ⟨k, .number s done⟩ (t ++ r) = run limit ⟨k, .number s' (t.reverse ++ done)⟩ r
  | [], _, _, _, h => by
    cases h
    rfl
  | c :: t, done, s, s', h => by
    have hb : numRun (numStep s c) t = some s' := h
    cases hs : numStep s c with
    | none =>
      rw [hs, numRun_none] at hb
      cases hb
    | some s1 =>
      rw [hs] at hb
      have hI : ¬ (s = .minus ∧ c = ch 'I') := by
        rintro ⟨rfl, rfl⟩
        have hn : numStep .minus (ch 'I') = none := rfl
        rw [hn] at hs
        cases hs
      have hst : step limit ⟨k, .number s done⟩ c = .ok ⟨k, .number s1 (c :: done)⟩ := by
        simp only [step, if_neg hI, hs]
      rw [List.cons_append, run_cons, hst, List.reverse_cons, List.append_assoc]
      exact run_number r t (c :: done) s1 s' hb

/-- A number is over when something follows that does not continue it. -/
theorem run_number_end {s : NumState} {done r : Str} {v : Json} (hr : Delimited r)
    (hv : finishNumber s done = .ok v) :
    run limit ⟨k, .number s done⟩ r = run limit ⟨k, .after v⟩ r := by
  cases r with
  | nil =>
    simp only [run, finish, hv]
    rfl
  | cons c r =>
    have hc := hr c rfl
    have hI : ¬ (s = .minus ∧ c = ch 'I') := by
      rintro ⟨-, rfl⟩
      exact absurd hc (by decide)
    rw [run_cons, run_cons]
    simp only [step, if_neg hI, numStep_delimiter hc, hv]
    rfl

theorem numStart_of_isWs {c : CodePoint} (h : isWs c = true) : numStart c = none := by
  have hc : c = 0x20 ∨ c = 0x09 ∨ c = 0x0A ∨ c = 0x0D := by
    simp only [isWs, Bool.or_eq_true, decide_eq_true_eq] at h
    rcases h with ((h | h) | h) | h
    · exact .inl (Fin.ext h)
    · exact .inr (.inl (Fin.ext h))
    · exact .inr (.inr (.inl (Fin.ext h)))
    · exact .inr (.inr (.inr (Fin.ext h)))
  rcases hc with rfl | rfl | rfl | rfl <;> rfl

/-- A number begins with none of the characters other values begin with. -/
theorem step_numStart {c : CodePoint} {s : NumState} (h : numStart c = some s) :
    step limit ⟨k, .value⟩ c = .ok ⟨k, .number s [c]⟩ := by
  have hne {x : CodePoint} (hx : numStart x = none) : c ≠ x := by
    rintro rfl
    rw [h] at hx
    cases hx
  have hws : ¬ isWs c = true := fun hw => hne (numStart_of_isWs hw) rfl
  simp only [step, if_neg hws, valueStart, if_neg (hne (x := ch '"') rfl), if_neg (hne (x := ch '\x7b') rfl),
    if_neg (hne (x := ch '[') rfl), if_neg (hne (x := ch 'n') rfl), if_neg (hne (x := ch 't') rfl),
    if_neg (hne (x := ch 'f') rfl), if_neg (hne (x := ch 'N') rfl), if_neg (hne (x := ch 'I') rfl), h]

/-- The decoder reads a number, up to what follows it. -/
theorem run_numberText {c : CodePoint} {t r : Str} {s : NumState} {v : Json} (hr : Delimited r)
    (hs : numRun (numStart c) t = some s) (hv : finishNumber s (t.reverse ++ [c]) = .ok v) :
    run limit ⟨k, .value⟩ (c :: t ++ r) = run limit ⟨k, .after v⟩ r := by
  cases h0 : numStart c with
  | none =>
    rw [h0, numRun_none] at hs
    cases hs
  | some s0 =>
    rw [h0] at hs
    rw [List.cons_append, run_cons, step_numStart h0]
    exact (run_number r t [c] s0 s hs).trans (run_number_end hr hv)

theorem digitVal_digitChar {d : ℕ} (h : d < 10) : digitVal (digitChar d) = d ∧ isDigit (digitChar d) = true := by
  have hall : (List.range 10).all (fun d => digitVal (digitChar d) = d ∧ isDigit (digitChar d)) = true := by
    decide
  simpa using List.all_eq_true.mp hall d (List.mem_range.mpr h)

theorem ofDecimal_decimal (n : ℕ) : ofDecimal (decimal n) = n := by
  unfold decimal
  split_ifs with h
  · subst h
    rfl
  · rw [ofDecimal, ← List.map_reverse, List.reverse_reverse, List.map_map]
    have hd : (Nat.digits 10 n).map (digitVal ∘ digitChar) = Nat.digits 10 n := by
      conv_rhs => rw [← List.map_id (Nat.digits 10 n)]
      exact List.map_congr_left fun d hd => (digitVal_digitChar (Nat.digits_lt_base (by omega) hd)).1
    rw [hd, Nat.ofDigits_digits]

/-- The digits of a number: a zero alone, or a first digit that is not zero. -/
theorem decimal_cases (n : ℕ) : (n = 0 ∧ decimal n = lit "0") ∨
    ∃ d ds, decimal n = d :: ds ∧ numStep .minus d = some .digits ∧ isDigit d = true ∧
      (∀ c ∈ ds, isDigit c = true) ∧ (d :: ds).length = (Nat.digits 10 n).length := by
  by_cases h : n = 0
  · exact .inl ⟨h, if_pos h⟩
  · right
    have hne : Nat.digits 10 n ≠ [] := Nat.digits_ne_nil_iff_ne_zero.mpr h
    have hlast := Nat.getLast_digit_ne_zero 10 h
    have hlt : ∀ d ∈ Nat.digits 10 n, d < 10 := fun d hd => Nat.digits_lt_base (by omega) hd
    rw [decimal, if_neg h]
    obtain ⟨a, b, hab⟩ := (List.eq_nil_or_concat' (Nat.digits 10 n)).resolve_left hne
    simp only [hab, List.getLast_append_singleton] at hlast
    rw [hab] at hlt ⊢
    have hb := hlt b (by simp)
    refine ⟨digitChar b, a.reverse.map digitChar, by simp, ?_, (digitVal_digitChar hb).2, ?_, by simp⟩
    · have hall : (List.range 10).all (fun d => d = 0 ∨ numStep .minus (digitChar d) = some .digits) = true := by
        decide
      have := List.all_eq_true.mp hall b (List.mem_range.mpr hb)
      simpa [hlast] using this
    · intro c hc
      obtain ⟨d, hd, rfl⟩ := List.mem_map.mp hc
      exact (digitVal_digitChar (hlt d (by simp_all))).2

theorem numRun_digits : ∀ {ds : Str}, (∀ c ∈ ds, isDigit c = true) → numRun (some .digits) ds = some .digits
  | [], _ => rfl
  | c :: ds, h => by
    have hc : numStep .digits c = some .digits := if_pos (h c List.mem_cons_self)
    change numRun (numStep .digits c) ds = _
    rw [hc]
    exact numRun_digits fun x hx => h x (List.mem_cons_of_mem _ hx)

theorem run_int {i : ℤ} (hi : (Nat.digits 10 i.natAbs).length ≤ maxStrDigits) {r : Str} (hr : Delimited r) :
    run limit ⟨k, .value⟩ (intText i ++ r) = run limit ⟨k, .after (.int i)⟩ r := by
  cases i with
  | ofNat n =>
    rcases decimal_cases n with ⟨rfl, h0⟩ | ⟨d, ds, hd, h1, h2, h3, h4⟩
    · exact run_numberText (c := ch '0') (t := []) hr rfl rfl
    · have hm : d ≠ ch '-' := by
        rintro rfl
        exact absurd h2 (by decide)
      have hs : numStart d = some .digits := by rw [numStart, if_neg hm, h1]
      have hv : finishNumber .digits (ds.reverse ++ [d]) = .ok (.int n) := by
        have hl : (d :: ds).length ≤ maxStrDigits := h4.trans_le hi
        rw [finishNumber, List.reverse_append, List.reverse_reverse, List.reverse_singleton,
          List.singleton_append, ofIntText, if_neg hm, if_pos hl, ← hd, ofDecimal_decimal]
      rw [show intText (.ofNat n) = d :: ds from hd]
      exact run_numberText hr (by rw [hs, numRun_digits h3]) hv
  | negSucc n =>
    rcases decimal_cases (n + 1) with ⟨h, -⟩ | ⟨d, ds, hd, h1, h2, h3, h4⟩
    · exact absurd h (by omega)
    · have hs : numRun (numStart (ch '-')) (d :: ds) = some .digits := by
        change numRun (numStep .minus d) ds = _
        rw [h1, numRun_digits h3]
      have hv : finishNumber .digits ((d :: ds).reverse ++ [ch '-']) = .ok (.int (.negSucc n)) := by
        have hl : (d :: ds).length ≤ maxStrDigits := h4.trans_le hi
        rw [finishNumber, List.reverse_append, List.reverse_reverse, List.reverse_singleton,
          List.singleton_append, ofIntText, if_pos rfl, if_pos hl, ← hd, ofDecimal_decimal]
        rfl
      rw [show intText (.negSucc n) = ch '-' :: d :: ds from congrArg _ hd]
      exact run_numberText hr hs hv

theorem run_float (x : Float) {r : Str} (hr : Delimited r) :
    run limit ⟨k, .value⟩ (floatText x ++ r) = run limit ⟨k, .after (.float x)⟩ r := by
  match x with
  | .nan => rfl
  | .infinity => rfl
  | .negInfinity => rfl
  | .finite ⟨_, c, t, rfl, h⟩ =>
    have hv : ofFloatText (c :: t) = .ok (.float (.finite ⟨c :: t, c, t, rfl, h⟩)) := dif_pos h
    rcases h with h' | h'
    · exact run_numberText hr h' (by rw [finishNumber, List.reverse_append, List.reverse_reverse]; exact hv)
    · exact run_numberText hr h' (by rw [finishNumber, List.reverse_append, List.reverse_reverse]; exact hv)

end Numbers

/-! ### Reading containers back -/

section Containers

variable {limit : ℕ} {k : List Frame} {r : Str}

/-- The decoder, where it expects a value, reads `t` as the value `v`. -/
def Reads (limit : ℕ) (k : List Frame) (t : Str) (v : Json) : Prop :=
  ∀ r, Delimited r → run limit ⟨k, .value⟩ (t ++ r) = run limit ⟨k, .after v⟩ r

theorem delimited_cons {c : CodePoint} (h : c = ch ',' ∨ c = ch ']' ∨ c = ch '\x7d') (r : Str) :
    Delimited (c :: r) := by
  rintro d hd
  cases hd
  exact h

/-- The items of a list, of each of which the text is read as the value. -/
theorem run_items : ∀ (l : List (Str × Json)) (done : List Json), l ≠ [] →
    (∀ m ∈ l, ∀ f, Reads limit (f :: k) m.1 m.2) →
    run limit ⟨.arr done :: k, .value⟩ (join (l.map Prod.fst) ++ ch ']' :: r) =
      run limit ⟨k, .after (.arr (done.reverse ++ l.map Prod.snd))⟩ r
  | [], _, h, _ => absurd rfl h
  | [m], done, _, h => by
    rw [List.map_singleton, join, h m List.mem_cons_self _ _ (delimited_cons (.inr (.inl rfl)) r)]
    change run limit ⟨k, .after (.arr (m.2 :: done).reverse)⟩ r = _
    rw [List.reverse_cons]
    rfl
  | m :: n :: l, done, _, h => by
    have ih := run_items (n :: l) (m.2 :: done) (List.cons_ne_nil _ _)
      fun x hx => h x (List.mem_cons_of_mem _ hx)
    rw [List.map_cons, List.map_cons, join, List.append_assoc, List.cons_append,
      h m List.mem_cons_self _ _ (delimited_cons (.inl rfl) _)]
    change run limit ⟨.arr (m.2 :: done) :: k, .value⟩ _ = _
    rw [List.map_cons] at ih
    rw [ih, List.reverse_cons, List.append_assoc]
    rfl

theorem insert_eq_append : ∀ {ms : List (Str × Json)} {key : Str} (v : Json), key ∉ ms.map Prod.fst →
    insert ms key v = ms ++ [(key, v)]
  | [], _, _, _ => rfl
  | m :: ms, key, v, h => by
    rw [List.map_cons, List.mem_cons, not_or] at h
    rw [insert, if_neg (Ne.symm h.1), insert_eq_append v h.2]
    rfl

theorem run_memberText {key t : Str} {v : Json} {ms : List (Str × Json)} (hr : Delimited r)
    (h : Reads limit (.obj ms key :: k) t v) :
    run limit ⟨k, .key ms⟩ (memberText (key, t) ++ r) = run limit ⟨.obj ms key :: k, .after v⟩ r := by
  have hk : run limit ⟨k, .key ms⟩ (memberText (key, t) ++ r) =
      run limit ⟨k, .colon ms key⟩ (ch ':' :: (t ++ r)) := by
    rw [memberText, List.append_assoc, run_key]
    rfl
  exact hk.trans (h r hr)

/-- The items of a `dict`, with distinct keys. -/
theorem run_members : ∀ (l : List (Str × Str × Json)) (ms : List (Str × Json)), l ≠ [] →
    (ms.map Prod.fst ++ l.map Prod.fst).Nodup → (∀ m ∈ l, ∀ f, Reads limit (f :: k) m.2.1 m.2.2) →
    run limit ⟨k, .key ms⟩ (join (l.map fun m => memberText (m.1, m.2.1)) ++ ch '\x7d' :: r) =
      run limit ⟨k, .after (.obj (ms ++ l.map fun m => (m.1, m.2.2)))⟩ r
  | [], _, h, _, _ => absurd rfl h
  | [m], ms, _, hn, h => by
    have hm : m.1 ∉ ms.map Prod.fst := fun hm => (List.nodup_append.mp hn).2.2 _ hm _ (by simp) rfl
    rw [List.map_singleton, join, run_memberText (delimited_cons (.inr (.inr rfl)) r)
      (h m List.mem_cons_self _)]
    change run limit ⟨k, .after (.obj (insert ms m.1 m.2.2))⟩ r = _
    rw [insert_eq_append _ hm]
    rfl
  | m :: n :: l, ms, _, hn, h => by
    have hm : m.1 ∉ ms.map Prod.fst := fun hm => (List.nodup_append.mp hn).2.2 _ hm _ (by simp) rfl
    have hn' : ((ms ++ [(m.1, m.2.2)]).map Prod.fst ++ (n :: l).map Prod.fst).Nodup := by
      simpa using hn
    have ih := run_members (n :: l) (ms ++ [(m.1, m.2.2)]) (List.cons_ne_nil _ _) hn'
      fun x hx => h x (List.mem_cons_of_mem _ hx)
    rw [List.map_cons, List.map_cons, join, List.append_assoc, List.cons_append,
      run_memberText (delimited_cons (.inl rfl) _) (h m List.mem_cons_self _)]
    change run limit ⟨k, .key (insert ms m.1 m.2.2)⟩ _ = _
    rw [insert_eq_append _ hm]
    rw [List.map_cons] at ih
    rw [ih, List.append_assoc]
    rfl

end Containers

/-! ### The round trip -/

mutual

/-- Every `dict` has distinct keys, as a `dict` has. -/
def uniqueKeys : Json → Bool
  | .arr xs => uniqueKeysList xs
  | .obj ms => (ms.map Prod.fst).Nodup && uniqueKeysMembers ms
  | _ => true

def uniqueKeysList : List Json → Bool
  | [] => true
  | x :: xs => uniqueKeys x && uniqueKeysList xs

def uniqueKeysMembers : List (Str × Json) → Bool
  | [] => true
  | (_, x) :: ms => uniqueKeys x && uniqueKeysMembers ms

end

theorem encodeList_eq : ∀ xs : List Json, encodeList xs = xs.map encode
  | [] => rfl
  | x :: xs => by rw [encodeList, encodeList_eq xs, List.map_cons]

theorem canonList_eq : ∀ xs : List Json, canonList xs = xs.map canon
  | [] => rfl
  | x :: xs => by rw [canonList, canonList_eq xs, List.map_cons]

theorem encodeMembers_eq : ∀ ms : List (Str × Json), encodeMembers ms = ms.map fun m => (m.1, encode m.2)
  | [] => rfl
  | (k, x) :: ms => by rw [encodeMembers, encodeMembers_eq ms, List.map_cons]

theorem canonMembers_eq : ∀ ms : List (Str × Json), canonMembers ms = ms.map fun m => (m.1, canon m.2)
  | [] => rfl
  | (k, x) :: ms => by rw [canonMembers, canonMembers_eq ms, List.map_cons]

/-- What the encoder and the decoder ask of a value, they ask of the items of
a list. -/
theorem list_spec : ∀ {xs : List Json} {x : Json}, x ∈ xs → depth x ≤ depthList xs ∧
    (shortIntsList xs = true → shortInts x = true) ∧ (uniqueKeysList xs = true → uniqueKeys x = true)
  | y :: xs, x, h => by
    rw [depthList, shortIntsList, uniqueKeysList, Bool.and_eq_true, Bool.and_eq_true]
    rcases List.mem_cons.mp h with rfl | h
    · exact ⟨le_max_left _ _, And.left, And.left⟩
    · obtain ⟨h1, h2, h3⟩ := list_spec h
      exact ⟨h1.trans (le_max_right _ _), fun h => h2 h.2, fun h => h3 h.2⟩

theorem members_spec : ∀ {ms : List (Str × Json)} {m : Str × Json}, m ∈ ms →
    depth m.2 ≤ depthMembers ms ∧ (shortIntsMembers ms = true → shortInts m.2 = true) ∧
      (uniqueKeysMembers ms = true → uniqueKeys m.2 = true)
  | (key, y) :: ms, m, h => by
    rw [depthMembers, shortIntsMembers, uniqueKeysMembers, Bool.and_eq_true, Bool.and_eq_true]
    rcases List.mem_cons.mp h with rfl | h
    · exact ⟨le_max_left _ _, And.left, And.left⟩
    · obtain ⟨h1, h2, h3⟩ := members_spec h
      exact ⟨h1.trans (le_max_right _ _), fun h => h2 h.2, fun h => h3 h.2⟩

theorem sortKeys_map {α β : Type} (g : Str × α → β) (ms : List (Str × α)) :
    sortKeys (ms.map fun m => (m.1, g m)) = (sortKeys ms).map fun m => (m.1, g m) := by
  symm
  exact List.map_insertionSort (fun a b : Str × α => keyLe a.1 b.1 = true)
    (fun a b : Str × β => keyLe a.1 b.1 = true) (fun m => (m.1, g m)) ms fun _ _ _ _ => Iff.rfl

theorem sortKeys_perm {α : Type} (ms : List (Str × α)) : (sortKeys ms).Perm ms :=
  List.perm_insertionSort _ _

theorem numStart_head {c : CodePoint} {t : Str} (h : numRun (numStart c) t ≠ none) :
    isWs c = false ∧ c ≠ ch ']' ∧ c ≠ bom := by
  have hs : numStart c ≠ none := fun hn => h (by rw [hn, numRun_none])
  refine ⟨?_, ?_, ?_⟩
  · by_contra hw
    exact hs (numStart_of_isWs (by simpa using hw))
  · rintro rfl
    exact hs rfl
  · rintro rfl
    exact hs rfl

theorem decimal_head (n : ℕ) : ∃ d ds, decimal n = d :: ds ∧ numRun (numStep .minus d) ds ≠ none ∧ d ≠ ch '-' := by
  rcases decimal_cases n with ⟨-, h⟩ | ⟨d, ds, hd, h1, h2, h3, -⟩
  · exact ⟨ch '0', [], h, by decide, by decide⟩
  · refine ⟨d, ds, hd, ?_, ?_⟩
    · rw [h1, numRun_digits h3]
      exact Option.some_ne_none _
    · rintro rfl
      exact absurd h2 (by decide)

/-- No text of a value begins with white space or a closing bracket,
nor with a byte order mark. -/
theorem encode_head (v : Json) : ∃ c t, encode v = c :: t ∧ isWs c = false ∧ c ≠ ch ']' ∧ c ≠ bom := by
  match v with
  | .null => exact ⟨_, _, rfl, by decide, by decide, by decide⟩
  | .bool true => exact ⟨_, _, rfl, by decide, by decide, by decide⟩
  | .bool false => exact ⟨_, _, rfl, by decide, by decide, by decide⟩
  | .int (.ofNat n) =>
    obtain ⟨d, ds, hd, h, hm⟩ := decimal_head n
    have hs : numRun (numStart d) ds ≠ none := by rwa [numStart, if_neg hm]
    exact ⟨d, ds, hd, numStart_head hs⟩
  | .int (.negSucc n) => exact ⟨ch '-', _, rfl, by decide, by decide, by decide⟩
  | .float .nan => exact ⟨_, _, rfl, by decide, by decide, by decide⟩
  | .float .infinity => exact ⟨_, _, rfl, by decide, by decide, by decide⟩
  | .float .negInfinity => exact ⟨_, _, rfl, by decide, by decide, by decide⟩
  | .float (.finite ⟨_, c, t, rfl, h⟩) =>
    have hs : numRun (numStart c) t ≠ none := by
      rcases h with h | h <;> rw [h] <;> exact Option.some_ne_none _
    exact ⟨c, t, rfl, numStart_head hs⟩
  | .str s => exact ⟨ch '"', _, rfl, by decide, by decide, by decide⟩
  | .arr xs => exact ⟨ch '[', _, rfl, by decide, by decide, by decide⟩
  | .obj ms => exact ⟨ch '\x7b', _, rfl, by decide, by decide, by decide⟩

/-- After the opening bracket of a list, a value is read as anywhere. -/
theorem run_firstItem {limit : ℕ} {k : List Frame} {c : CodePoint} (hw : isWs c = false) (hb : c ≠ ch ']')
    (r : Str) : run limit ⟨k, .firstItem⟩ (c :: r) = run limit ⟨k, .value⟩ (c :: r) := by
  simp only [run_cons, step, hw, Bool.false_eq_true, if_false, if_neg hb]

theorem join_head {t : Str} (ts : List Str) {c : CodePoint} {t' : Str} (h : t = c :: t') :
    ∃ u, join (t :: ts) = c :: u := by
  subst h
  cases ts with
  | nil => exact ⟨t', rfl⟩
  | cons y ys => exact ⟨_, rfl⟩

/-- A list, of the items of which the texts are read as the values. -/
theorem reads_arr {limit : ℕ} {k : List Frame} {l : List (Str × Json)} (hk : k.length < limit)
    (hhead : ∀ m ∈ l, ∃ c t, m.1 = c :: t ∧ isWs c = false ∧ c ≠ ch ']')
    (h : ∀ m ∈ l, ∀ f, Reads limit (f :: k) m.1 m.2) :
    Reads limit k (ch '[' :: join (l.map Prod.fst) ++ [ch ']']) (.arr (l.map Prod.snd)) := by
  intro r _
  have hopen (u : Str) : run limit ⟨k, .value⟩ (ch '[' :: u) = run limit ⟨.arr [] :: k, .firstItem⟩ u := by
    have : step limit ⟨k, .value⟩ (ch '[') = .ok ⟨.arr [] :: k, .firstItem⟩ := if_pos hk
    rw [run_cons, this]
    rfl
  rw [List.cons_append, List.cons_append, List.append_assoc, hopen]
  cases l with
  | nil => rfl
  | cons m l =>
    obtain ⟨c, t, hc, hw, hb⟩ := hhead m List.mem_cons_self
    obtain ⟨u, hu⟩ := join_head (l.map Prod.fst) hc
    have hi := run_items (r := r) (m :: l) [] (List.cons_ne_nil _ _) h
    rw [List.map_cons] at hi ⊢
    rw [hu, List.cons_append] at hi ⊢
    rw [run_firstItem hw hb]
    exact hi

/-- A `dict` with distinct keys, of the items of which the texts are read as the
values. -/
theorem reads_obj {limit : ℕ} {k : List Frame} {l : List (Str × Str × Json)} (hk : k.length < limit)
    (hn : (l.map Prod.fst).Nodup) (h : ∀ m ∈ l, ∀ f, Reads limit (f :: k) m.2.1 m.2.2) :
    Reads limit k (ch '\x7b' :: join (l.map fun m => memberText (m.1, m.2.1)) ++ [ch '\x7d'])
      (.obj (l.map fun m => (m.1, m.2.2))) := by
  intro r _
  have hopen (u : Str) : run limit ⟨k, .value⟩ (ch '\x7b' :: u) = run limit ⟨k, .firstKey⟩ u := by
    have : step limit ⟨k, .value⟩ (ch '\x7b') = .ok ⟨k, .firstKey⟩ := if_pos hk
    rw [run_cons, this]
    rfl
  rw [List.cons_append, List.cons_append, List.append_assoc, hopen]
  cases l with
  | nil => rfl
  | cons m l =>
    obtain ⟨u, hu⟩ : ∃ u, join ((m :: l).map fun m => memberText (m.1, m.2.1)) = ch '"' :: u := join_head _ rfl
    have hi := run_members (r := r) (m :: l) [] (List.cons_ne_nil _ _) hn h
    rw [hu] at hi ⊢
    exact hi

/-- A property of the items of a container carries over to it. -/
theorem induction {P : Json → Prop} (null : P .null) (bool : ∀ b, P (.bool b)) (int : ∀ i, P (.int i))
    (float : ∀ x, P (.float x)) (str : ∀ s, P (.str s)) (arr : ∀ xs, (∀ x ∈ xs, P x) → P (.arr xs))
    (obj : ∀ ms, (∀ m ∈ ms, P m.2) → P (.obj ms)) (v : Json) : P v :=
  @Json.rec P (fun xs => ∀ x ∈ xs, P x) (fun ms => ∀ m ∈ ms, P m.2) (fun m => P m.2)
    null bool int float str arr obj (fun _ h => nomatch h)
    (fun _ _ h hs => List.forall_mem_cons.mpr ⟨h, hs⟩) (fun _ h => nomatch h)
    (fun _ _ h hs => List.forall_mem_cons.mpr ⟨h, hs⟩) (fun _ _ h => h) v

/-- **The decoder reads the text of a value back.** -/
theorem reads_encode (limit : ℕ) (v : Json) : ∀ k : List Frame, uniqueKeys v = true → shortInts v = true →
    k.length + depth v ≤ limit → Reads limit k (encode v) (canon v) := by
  induction v using induction with
  | null => exact fun _ _ _ _ _ _ => rfl
  | bool b => cases b <;> exact fun _ _ _ _ _ _ => rfl
  | int i => exact fun _ _ hs _ _ hr => run_int (of_decide_eq_true hs) hr
  | float x => exact fun _ _ _ _ _ hr => run_float x hr
  | str s => exact fun _ _ _ _ r _ => run_str s r
  | arr xs ih =>
    intro k hu hs hd
    rw [depth] at hd
    have hlt : k.length < limit := by omega
    have h := reads_arr (l := xs.map fun y => (encode y, canon y)) hlt (fun m hm => ?_) fun m hm f => ?_
    · rw [List.map_map, List.map_map] at h
      rw [encode, canon, encodeList_eq, canonList_eq]
      exact h
    · obtain ⟨y, -, rfl⟩ := List.mem_map.mp hm
      obtain ⟨c, t, hc, hw, hb, -⟩ := encode_head y
      exact ⟨c, t, hc, hw, hb⟩
    · obtain ⟨y, hy, rfl⟩ := List.mem_map.mp hm
      obtain ⟨h1, h2, h3⟩ := list_spec hy
      exact ih y hy (f :: k) (h3 hu) (h2 hs) (by rw [List.length_cons]; omega)
  | obj ms ih =>
    intro k hu hs hd
    rw [depth] at hd
    rw [uniqueKeys, Bool.and_eq_true, decide_eq_true_eq] at hu
    have hperm := sortKeys_perm ms
    have hlt : k.length < limit := by omega
    have h := reads_obj (l := (sortKeys ms).map fun x => (x.1, encode x.2, canon x.2)) hlt ?_ fun m hm f => ?_
    · rw [List.map_map, List.map_map] at h
      rw [encode, canon, encodeMembers_eq, canonMembers_eq, sortKeys_map, sortKeys_map, List.map_map]
      exact h
    · rw [List.map_map]
      exact (hperm.map Prod.fst).nodup_iff.mpr hu.1
    · obtain ⟨y, hy, rfl⟩ := List.mem_map.mp hm
      obtain ⟨h1, h2, h3⟩ := members_spec (hperm.subset hy)
      exact ih y (hperm.subset hy) (f :: k) (h3 hu.2) (h2 hs) (by rw [List.length_cons]; omega)

/-- **Decoding inverts encoding**, up to the order of the keys. -/
theorem loads_dumps {limit : ℕ} {v : Json} {t : Str} (hu : uniqueKeys v = true) (h : dumps limit v = .ok t) :
    loads limit t = .ok (canon v) := by
  unfold dumps at h
  split_ifs at h with hd hs
  cases h
  obtain ⟨c, u, hc, -, -, hb⟩ := encode_head v
  have hb : ¬ (encode v).head? = some bom := by
    rw [hc, List.head?_cons, Option.some.injEq]
    exact hb
  have hr := reads_encode limit v [] hu hs (by rw [List.length_nil]; omega) [] (fun _ h => nomatch h)
  rw [List.append_nil] at hr
  rw [loads, if_neg hb, hr]
  rfl

/-! ### The text of a value is one line -/

theorem lineFeed_not_mem_escapeChar (c : CodePoint) : lineFeed ∉ escapeChar c := by
  unfold escapeChar
  split
  · rename_i e he
    have hall : shortEscapes.all (fun m => m.2 ≠ lineFeed) = true := by decide
    have h1 : e ≠ lineFeed := by simpa using List.all_eq_true.mp hall _ (lookup_shortEscapes he)
    have h2 : ch '\\' ≠ lineFeed := by decide
    simp [h1.symm, h2.symm]
  · split_ifs with hlt
    · have hhex {d : ℕ} (h : d < 16) : lineFeed ≠ hexDigit d := by
        have hall : (List.range 16).all (fun d => lineFeed ≠ hexDigit d) = true := by decide
        simpa using List.all_eq_true.mp hall d (List.mem_range.mpr h)
      have h1 : lineFeed ∉ lit "\\u00" := by decide
      rw [List.mem_append, not_or]
      exact ⟨h1, by simp [hhex (d := c.val / 16) (by omega), hhex (d := c.val % 16) (by omega)]⟩
    · intro h
      have : c.val = 0x0A := congrArg Fin.val (List.mem_singleton.mp h).symm
      omega

theorem lineFeed_not_mem_strText (s : Str) : lineFeed ∉ strText s := by
  have hq : lineFeed ≠ ch '"' := by decide
  have hs : lineFeed ∉ s.flatMap escapeChar := fun h => by
    obtain ⟨c, -, hc⟩ := List.mem_flatMap.mp h
    exact lineFeed_not_mem_escapeChar c hc
  simp [strText, hq, hs]

theorem lineFeed_not_mem_numRun : ∀ {t : Str} {s : Option NumState}, numRun s t ≠ none → lineFeed ∉ t
  | [], _, _ => List.not_mem_nil
  | c :: t, s, h => by
    have hc : lineFeed ≠ c := by
      rintro rfl
      have hn : s.bind (numStep · lineFeed) = none := by
        rcases s with _ | s
        · rfl
        · cases s <;> rfl
      exact h (by rw [numRun, hn, numRun_none])
    rw [List.mem_cons, not_or]
    exact ⟨hc, lineFeed_not_mem_numRun h⟩

theorem lineFeed_not_mem_number {c : CodePoint} {t : Str} (h : numRun (numStart c) t ≠ none) :
    lineFeed ∉ c :: t := by
  rw [List.mem_cons, not_or]
  refine ⟨?_, lineFeed_not_mem_numRun h⟩
  rintro rfl
  exact h (by rw [show numStart lineFeed = none from rfl, numRun_none])

theorem mem_join {c : CodePoint} : ∀ {ts : List Str}, c ∈ join ts → c = ch ',' ∨ ∃ t ∈ ts, c ∈ t
  | [], h => nomatch h
  | [t], h => .inr ⟨t, List.mem_singleton_self t, h⟩
  | t :: u :: ts, h => by
    rw [join, List.mem_append, List.mem_cons] at h
    rcases h with h | h | h
    · exact .inr ⟨t, List.mem_cons_self, h⟩
    · exact .inl h
    · exact (mem_join h).imp_right fun ⟨v, hv, hc⟩ => ⟨v, List.mem_cons_of_mem _ hv, hc⟩

theorem lineFeed_not_mem_join {ts : List Str} (h : ∀ t ∈ ts, lineFeed ∉ t) : lineFeed ∉ join ts := by
  intro hm
  rcases mem_join hm with he | ⟨t, ht, hc⟩
  · exact absurd he (by decide)
  · exact h t ht hc

theorem lineFeed_not_mem_encode (v : Json) : lineFeed ∉ encode v := by
  induction v using induction with
  | null => decide
  | bool b => cases b <;> decide
  | int i =>
    cases i with
    | ofNat n =>
      obtain ⟨d, ds, hd, h, hm⟩ := decimal_head n
      rw [show encode (.int (.ofNat n)) = d :: ds from hd]
      exact lineFeed_not_mem_number (by rwa [numStart, if_neg hm])
    | negSucc n =>
      obtain ⟨d, ds, hd, h, -⟩ := decimal_head (n + 1)
      rw [show encode (.int (.negSucc n)) = ch '-' :: d :: ds from congrArg _ hd]
      exact lineFeed_not_mem_number h
  | float x =>
    match x with
    | .nan => decide
    | .infinity => decide
    | .negInfinity => decide
    | .finite ⟨_, c, t, rfl, h⟩ =>
      have hs : numRun (numStart c) t ≠ none := by
        rcases h with h | h <;> rw [h] <;> exact Option.some_ne_none _
      exact lineFeed_not_mem_number hs
  | str s => exact lineFeed_not_mem_strText s
  | arr xs ih =>
    have h1 : lineFeed ≠ ch '[' := by decide
    have h2 : lineFeed ≠ ch ']' := by decide
    have hj : lineFeed ∉ join (encodeList xs) := lineFeed_not_mem_join fun t ht => by
      rw [encodeList_eq] at ht
      obtain ⟨x, hx, rfl⟩ := List.mem_map.mp ht
      exact ih x hx
    simp [encode, h1, h2, hj]
  | obj ms ih =>
    have h1 : lineFeed ≠ ch '\x7b' := by decide
    have h2 : lineFeed ≠ ch '\x7d' := by decide
    have h3 : lineFeed ≠ ch ':' := by decide
    have hj : lineFeed ∉ join ((sortKeys (encodeMembers ms)).map memberText) := lineFeed_not_mem_join fun t ht => by
      obtain ⟨m, hm, rfl⟩ := List.mem_map.mp ht
      have hm' := (sortKeys_perm _).subset hm
      rw [encodeMembers_eq] at hm'
      obtain ⟨x, hx, rfl⟩ := List.mem_map.mp hm'
      simp [memberText, h3, lineFeed_not_mem_strText, ih x hx]
    simp [encode, h1, h2, hj]

/-- The text of a `dict` with items is in braces and begins with a key. -/
theorem encode_obj {ms : List (Str × Json)} (h : ms ≠ []) :
    ∃ t, encode (.obj ms) = ch '\x7b' :: ch '"' :: t ++ [ch '\x7d'] := by
  have hne : sortKeys (encodeMembers ms) ≠ [] := fun he => by
    have hl := (sortKeys_perm (encodeMembers ms)).length_eq
    rw [he, encodeMembers_eq, List.length_map] at hl
    exact h (List.length_eq_zero_iff.mp hl.symm)
  obtain ⟨m, l, hml⟩ := List.exists_cons_of_ne_nil hne
  obtain ⟨u, hu⟩ := join_head (t := memberText m) (l.map memberText) rfl
  refine ⟨u, ?_⟩
  rw [encode, hml, List.map_cons, hu]

/-! ### Octets -/

/-- The octets of a text that begins with two ASCII characters are taken for
UTF-8. -/
theorem loadsBytes_encode {limit : ℕ} {text : Str} {a b : UInt8} {data : Bytes}
    (h : Utf8.encode text = some (a :: b :: data)) (ha : 0 < a ∧ a < 0x80) (hb : 0 < b) :
    loadsBytes limit (a :: b :: data) = some (loads limit text) := by
  have hs := Utf8.decodeSurrogatePass_encode h
  have h0 : a ≠ 0 := by rintro rfl; exact absurd ha.1 (by decide)
  have h1 : b ≠ 0 := by rintro rfl; exact absurd hb (by decide)
  have hne {x : UInt8} (hx : ¬ (0 < x ∧ x < 0x80)) (l : Bytes) : ¬ (x :: l) <+: a :: b :: data := by
    intro hp
    obtain ⟨rfl, -⟩ := List.cons_prefix_cons.mp hp
    exact hx ha
  have hd : decodeDetected (a :: b :: data) = some text := by
    unfold decodeDetected
    rw [if_neg (hne (by decide) _), if_neg (hne (by decide) _), if_neg (hne (by decide) _),
      if_neg (hne (by decide) _), if_neg (hne (by decide) _)]
    match data with
    | [] => simp only [if_neg h0, if_neg h1, hs]
    | [_] => exact hs
    | _ :: _ :: _ => simp only [if_neg h0, if_neg h1, hs]
  rw [loadsBytes, hd]
  rfl

end Json
end GpgMeister
