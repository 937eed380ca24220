/-
# UTF-8

The decoder is a machine that reads one octet at a time and reports each
character, or each maximal malformed part, when it is over (`scan`). The ways
in which a program decodes are readings of that report: replace every
malformed part (`decodeReplace`), fail at the first one (`decodeStrict`), and
the latter with surrogates let through (`decodeSurrogatePass`).

* `splitOn_decodeReplace`: decoding commutes with the cut at line feeds.
* `decodeStrict_encode`: decoding inverts encoding.
-/
import GpgMeister.Lib.Text

namespace GpgMeister
namespace Utf8

/-- A started character: its accumulator is not 0, since no shorter form of the
character is accepted, and stays within the code points however it goes on. -/
structure Started (more acc : ℕ) : Prop where
  pos : 0 < acc
  bound : (acc + 1) * 64 ^ (more + 1) ≤ 0x110000

/-- Where the machine stands between two octets. -/
inductive State
  /-- Between characters. -/
  | start
  /-- `more + 1` continuation octets are owed. -/
  | tail (more acc : ℕ) (ok : Started more acc)
  /-- After `E0`. -/
  | afterE0
  /-- After `ED`. -/
  | afterED
  /-- After `F0`. -/
  | afterF0
  /-- After `F4`. -/
  | afterF4

/-- What the machine reports when an octet is read: a malformed part is `none`. -/
abbrev Report := List (Option CodePoint)

/-- The first octet of a character. -/
def lead (b : ℕ) : Report × State :=
  if h : b < 0x80 then ([some ⟨b, by omega⟩], .start)
  else if h : 0xC2 ≤ b ∧ b ≤ 0xDF then ([], .tail 0 (b - 0xC0) ⟨by omega, by omega⟩)
  else if b = 0xE0 then ([], .afterE0)
  else if b = 0xED then ([], .afterED)
  else if h : 0xE1 ≤ b ∧ b ≤ 0xEF then ([], .tail 1 (b - 0xE0) ⟨by omega, by omega⟩)
  else if b = 0xF0 then ([], .afterF0)
  else if b = 0xF4 then ([], .afterF4)
  else if h : 0xF1 ≤ b ∧ b ≤ 0xF3 then ([], .tail 2 (b - 0xF0) ⟨by omega, by omega⟩)
  else ([none], .start)

/-- An octet that does not continue the character: the part read so far is
malformed, and the octet is read from the start. -/
def restart (b : ℕ) : Report × State := (none :: (lead b).1, (lead b).2)

/-- One more continuation octet of a started character. -/
theorem Started.next {more acc b : ℕ} (h : Started (more + 1) acc) (hb : b < 64) :
    Started more (acc * 64 + b) := by
  have h1 := h.pos
  refine ⟨by omega, le_trans ?_ h.bound⟩
  calc (acc * 64 + b + 1) * 64 ^ (more + 1) ≤ (acc + 1) * 64 * 64 ^ (more + 1) :=
        Nat.mul_le_mul_right _ (by omega)
    _ = (acc + 1) * 64 ^ (more + 1 + 1) := by ring

/-- The last continuation octet makes a code point, above ASCII. -/
theorem Started.last {acc b : ℕ} (h : Started 0 acc) (hb : b < 64) :
    0x40 ≤ acc * 64 + b ∧ acc * 64 + b < 0x110000 := by
  have h1 := h.pos
  have h2 := h.bound
  omega

/-- One octet. With `pass`, surrogates are characters. -/
def step (pass : Bool) (s : State) (b : ℕ) : Report × State :=
  match s with
  | .start => lead b
  | .tail 0 acc ok =>
    if h : 0x80 ≤ b ∧ b ≤ 0xBF then
      ([some ⟨acc * 64 + (b - 0x80), (ok.last (by omega)).2⟩], .start) else restart b
  | .tail (m + 1) acc ok =>
    if h : 0x80 ≤ b ∧ b ≤ 0xBF then ([], .tail m (acc * 64 + (b - 0x80)) (ok.next (by omega)))
    else restart b
  | .afterE0 =>
    if h : 0xA0 ≤ b ∧ b ≤ 0xBF then ([], .tail 0 (b - 0x80) ⟨by omega, by omega⟩) else restart b
  | .afterED =>
    if h : 0x80 ≤ b ∧ b ≤ 0xBF ∧ (pass ∨ b ≤ 0x9F) then
      ([], .tail 0 (0xD * 64 + (b - 0x80)) ⟨by omega, by omega⟩) else restart b
  | .afterF0 =>
    if h : 0x90 ≤ b ∧ b ≤ 0xBF then ([], .tail 1 (b - 0x80) ⟨by omega, by omega⟩) else restart b
  | .afterF4 =>
    if h : 0x80 ≤ b ∧ b ≤ 0x8F then ([], .tail 1 (4 * 64 + (b - 0x80)) ⟨by omega, by omega⟩)
    else restart b

/-- At the end of the octets, a started character is malformed. -/
def finish : State → Report
  | .start => []
  | _ => [none]

def scan (pass : Bool) (s : State) : Bytes → Report
  | [] => finish s
  | b :: r => (step pass s b.toNat).1 ++ scan pass (step pass s b.toNat).2 r

def replacement : CodePoint := 0xFFFD

/-- `data.decode("utf-8", errors="replace")`. -/
def decodeReplace (data : Bytes) : Str := (scan false .start data).map (·.getD replacement)

/-- `data.decode("utf-8")`; `none` is `UnicodeDecodeError`. -/
def decodeStrict (data : Bytes) : Option Str := (scan false .start data).mapM id

/-- `data.decode("utf-8", "surrogatepass")`. -/
def decodeSurrogatePass (data : Bytes) : Option Str := (scan true .start data).mapM id

example : decodeReplace [0x41, 0xE0, 0x80, 0xC3, 0xA4, 0xF0, 0x9F] =
    [0x41, replacement, replacement, 0xE4, replacement] := by decide

/-! ### Line feeds -/

/-- An octet below 0x80 ends a started character and is itself one. -/
theorem step_ascii (pass : Bool) (s : State) {b : ℕ} (h : b < 0x80) :
    step pass s b = (finish s ++ [some ⟨b, by omega⟩], .start) := by
  have hl : lead b = ([some ⟨b, by omega⟩], .start) := by rw [lead, dif_pos h]
  have hr : restart b = ([none, some ⟨b, by omega⟩], .start) := by rw [restart, hl]
  unfold step
  split
  · exact hl
  all_goals rw [dif_neg (by omega), hr]; rfl

/-- A line feed is reported only for the octet. -/
theorem lineFeed_mem_lead {b : ℕ} (h : some lineFeed ∈ (lead b).1) : b = 0x0A := by
  unfold lead at h
  split_ifs at h with h0
  · have := List.mem_singleton.mp h
    exact (congrArg Fin.val (Option.some.inj this)).symm
  all_goals simp at h

theorem lineFeed_mem_step {pass : Bool} {s : State} {b : ℕ}
    (h : some lineFeed ∈ (step pass s b).1) : b = 0x0A := by
  have hr (h : some lineFeed ∈ (restart b).1) : b = 0x0A :=
    lineFeed_mem_lead ((List.mem_cons.mp h).resolve_left (by simp))
  unfold step at h
  split at h
  case h_1 => exact lineFeed_mem_lead h
  case h_2 acc ok =>
    split_ifs at h with hc
    · have h1 := congrArg Fin.val (Option.some.inj (List.mem_singleton.mp h))
      have h2 := (ok.last (b := b - 0x80) (by omega)).1
      simp only [lineFeed] at h1
      omega
    · exact hr h
  all_goals
    split_ifs at h
    · simp at h
    · exact hr h

theorem lineFeed_mem_scan {pass : Bool} :
    ∀ {s : State} {data : Bytes}, some lineFeed ∈ scan pass s data → 0x0A ∈ data
  | s, [], h => by cases s <;> simp [scan, finish] at h
  | s, b :: r, h => by
    rcases List.mem_append.mp h with h | h
    · have := lineFeed_mem_step h
      exact List.mem_cons.mpr (.inl (UInt8.toNat.inj this.symm))
    · exact List.mem_cons_of_mem _ (lineFeed_mem_scan h)

/-- What follows a line feed is decoded on its own. -/
theorem scan_append_lineFeed (pass : Bool) (r : Bytes) : ∀ (s : State) (a : Bytes),
    scan pass s (a ++ 0x0A :: r) = scan pass s a ++ some lineFeed :: scan pass .start r
  | s, [] => by
    change (step pass s 0x0A).1 ++ scan pass (step pass s 0x0A).2 r = _
    rw [step_ascii pass s (by decide), List.append_assoc]
    rfl
  | s, b :: a => by
    simp only [List.cons_append, scan]
    rw [scan_append_lineFeed pass r _ a, List.append_assoc]

theorem decodeReplace_append_lineFeed (a r : Bytes) :
    decodeReplace (a ++ 0x0A :: r) = decodeReplace a ++ lineFeed :: decodeReplace r := by
  unfold decodeReplace
  rw [scan_append_lineFeed, List.map_append]
  rfl

theorem lineFeed_mem_decodeReplace {data : Bytes} (h : lineFeed ∈ decodeReplace data) :
    0x0A ∈ data := by
  obtain ⟨x, hx, he⟩ := List.mem_map.mp h
  cases x with
  | none => exact absurd he (by decide)
  | some c =>
    have : c = lineFeed := he
    exact lineFeed_mem_scan (this ▸ hx)

/-- **Decoding commutes with the cut at line feeds.** -/
theorem splitOn_decodeReplace (data : Bytes) :
    (decodeReplace data).splitOn lineFeed = (data.splitOn 0x0A).map decodeReplace := by
  by_cases h : 0x0A ∈ data
  · obtain ⟨a, r, hd, ha⟩ := List.eq_append_cons_of_mem h
    have hlt : r.length < data.length := by
      rw [hd, List.length_append, List.length_cons]
      omega
    have ih := splitOn_decodeReplace r
    rw [hd, decodeReplace_append_lineFeed, List.splitOn_append_cons_self_of_not_mem ha,
      List.splitOn_append_cons_self_of_not_mem (mt lineFeed_mem_decodeReplace ha), List.map_cons, ih]
  · rw [List.splitOn_eq_singleton h, List.splitOn_eq_singleton (mt lineFeed_mem_decodeReplace h)]
    rfl
termination_by data.length

/-! ### Encoding -/

/-- A code point that only pairs of which stand for a character. -/
def isSurrogate (c : CodePoint) : Bool := 0xD800 ≤ c.val && c.val ≤ 0xDFFF

/-- The octets of a code point that is not a surrogate. -/
def encodeChar (c : CodePoint) : Bytes :=
  let n := c.val
  if n < 0x80 then [.ofNat n]
  else if n < 0x800 then [.ofNat (0xC0 + n / 64), .ofNat (0x80 + n % 64)]
  else if n < 0x10000 then
    [.ofNat (0xE0 + n / 4096), .ofNat (0x80 + n / 64 % 64), .ofNat (0x80 + n % 64)]
  else
    [.ofNat (0xF0 + n / 262144), .ofNat (0x80 + n / 4096 % 64), .ofNat (0x80 + n / 64 % 64),
      .ofNat (0x80 + n % 64)]

/-- `text.encode("utf-8")`; `none` is `UnicodeEncodeError`. -/
def encode (text : Str) : Option Bytes :=
  if text.all (! isSurrogate ·) then some (text.flatMap encodeChar) else none

theorem encode_of_noSurrogate {text : Str} (h : text.any isSurrogate = false) :
    encode text = some (text.flatMap encodeChar) := by
  have hall : text.all (! isSurrogate ·) = true := by
    rw [List.all_eq_true]
    intro c hc
    rw [List.any_eq_false] at h
    simpa using h c hc
  rw [encode, if_pos hall]

theorem encode_isSome {text : Str} : (∃ data, encode text = some data) ↔ text.any isSurrogate = false := by
  constructor
  · rintro ⟨data, h⟩
    unfold encode at h
    split_ifs at h with hall
    rw [List.any_eq_false]
    intro c hc
    simpa using List.all_eq_true.mp hall c hc
  · exact fun h => ⟨_, encode_of_noSurrogate h⟩

theorem length_encodeChar_le (c : CodePoint) : (encodeChar c).length ≤ 4 := by
  unfold encodeChar
  dsimp only
  split_ifs <;> simp

theorem length_flatMap_encodeChar_le : ∀ text : Str, (text.flatMap encodeChar).length ≤ 4 * text.length
  | [] => le_rfl
  | c :: text => by
    have hc := length_encodeChar_le c
    have ht := length_flatMap_encodeChar_le text
    rw [List.flatMap_cons, List.length_append, List.length_cons]
    omega

theorem scan_cons (pass : Bool) (s : State) (b : UInt8) (r : Bytes) :
    scan pass s (b :: r) = (step pass s b.toNat).1 ++ scan pass (step pass s b.toNat).2 r := rfl

theorem toNat_ofNat {n : ℕ} (h : n < 256) : (UInt8.ofNat n).toNat = n :=
  UInt8.toNat_ofNat_of_lt' h

/-- A continuation octet. -/
abbrev cont (n : ℕ) : UInt8 := .ofNat (0x80 + n % 64)

theorem toNat_cont (n : ℕ) : (cont n).toNat = 0x80 + n % 64 := toNat_ofNat (by omega)

theorem scan_tail_zero {pass : Bool} {acc : ℕ} {ok : Started 0 acc} {n : ℕ} {c : CodePoint} (r : Bytes)
    (h : c.val = acc * 64 + n % 64) :
    scan pass (.tail 0 acc ok) (cont n :: r) = some c :: scan pass .start r := by
  rw [scan_cons, toNat_cont, step, dif_pos (by omega)]
  have : acc * 64 + (0x80 + n % 64 - 0x80) = c.val := by omega
  simp only [this, List.cons_append, List.nil_append]

theorem scan_tail_succ (pass : Bool) {m acc acc' : ℕ} (ok : Started (m + 1) acc) {n : ℕ} (r : Bytes)
    (h : acc' = acc * 64 + n % 64) :
    ∃ ok' : Started m acc', scan pass (.tail (m + 1) acc ok) (cont n :: r) = scan pass (.tail m acc' ok') r := by
  subst h
  refine ⟨ok.next (by omega), ?_⟩
  rw [scan_cons, toNat_cont, step, dif_pos (by omega)]
  simp only [Nat.add_sub_cancel_left, List.nil_append]

/-- The machine after the first two octets of a character of three. -/
theorem scan_three (pass : Bool) {n : ℕ} (h : 0x800 ≤ n) (h' : n < 0x10000)
    (hs : ¬ (0xD800 ≤ n ∧ n ≤ 0xDFFF)) (r : Bytes) : ∃ ok : Started 0 (n / 64),
    scan pass .start (.ofNat (0xE0 + n / 4096) :: cont (n / 64) :: r) = scan pass (.tail 0 (n / 64) ok) r := by
  refine ⟨⟨by omega, by omega⟩, ?_⟩
  have h0 : (UInt8.ofNat (0xE0 + n / 4096)).toNat = 0xE0 + n / 4096 := toNat_ofNat (by omega)
  rw [scan_cons, h0, step, lead, dif_neg (by omega), dif_neg (by omega)]
  by_cases he : n / 4096 = 0
  · rw [if_pos (by omega), scan_cons, toNat_cont]
    dsimp only
    rw [step, dif_pos (by omega)]
    have : 0x80 + n / 64 % 64 - 0x80 = n / 64 := by omega
    simp only [this, List.nil_append]
  rw [if_neg (by omega)]
  by_cases hd : n / 4096 = 0xD
  · rw [if_pos (by omega), scan_cons, toNat_cont]
    dsimp only
    rw [step, dif_pos (by omega)]
    have : 0xD * 64 + (0x80 + n / 64 % 64 - 0x80) = n / 64 := by omega
    simp only [this, List.nil_append]
  · rw [if_neg (by omega), dif_pos (by omega)]
    obtain ⟨_, h1⟩ := scan_tail_succ pass (m := 0) ⟨by omega, by omega⟩ r
      (show n / 64 = (0xE0 + n / 4096 - 0xE0) * 64 + n / 64 % 64 by omega)
    rw [List.nil_append, h1]

/-- The machine after the first two octets of a character of four. -/
theorem scan_four (pass : Bool) {n : ℕ} (h : 0x10000 ≤ n) (h' : n < 0x110000) (r : Bytes) :
    ∃ ok : Started 1 (n / 4096), scan pass .start (.ofNat (0xF0 + n / 262144) :: cont (n / 4096) :: r) =
      scan pass (.tail 1 (n / 4096) ok) r := by
  refine ⟨⟨by omega, by omega⟩, ?_⟩
  have h0 : (UInt8.ofNat (0xF0 + n / 262144)).toNat = 0xF0 + n / 262144 := toNat_ofNat (by omega)
  rw [scan_cons, h0, step, lead, dif_neg (by omega), dif_neg (by omega), if_neg (by omega), if_neg (by omega),
    dif_neg (by omega)]
  by_cases he : n / 262144 = 0
  · rw [if_pos (by omega), scan_cons, toNat_cont]
    dsimp only
    rw [step, dif_pos (by omega)]
    have : 0x80 + n / 4096 % 64 - 0x80 = n / 4096 := by omega
    simp only [this, List.nil_append]
  rw [if_neg (by omega)]
  by_cases hd : n / 262144 = 4
  · rw [if_pos (by omega), scan_cons, toNat_cont]
    dsimp only
    rw [step, dif_pos (by omega)]
    have : 4 * 64 + (0x80 + n / 4096 % 64 - 0x80) = n / 4096 := by omega
    simp only [this, List.nil_append]
  · rw [if_neg (by omega), dif_pos (by omega)]
    obtain ⟨_, h1⟩ := scan_tail_succ pass (m := 1) ⟨by omega, by omega⟩ r
      (show n / 4096 = (0xF0 + n / 262144 - 0xF0) * 64 + n / 4096 % 64 by omega)
    rw [List.nil_append, h1]

/-- The machine reads the octets of a code point back. -/
theorem scan_encodeChar {pass : Bool} {c : CodePoint} (h : isSurrogate c = false) (r : Bytes) :
    scan pass .start (encodeChar c ++ r) = some c :: scan pass .start r := by
  have hs : ¬ (0xD800 ≤ c.val ∧ c.val ≤ 0xDFFF) := by simpa [isSurrogate] using h
  unfold encodeChar
  dsimp only
  split_ifs with h1 h2 h3
  · have h0 : (UInt8.ofNat c.val).toNat = c.val := toNat_ofNat (by omega)
    rw [List.cons_append, List.nil_append, scan_cons, h0, step, lead, dif_pos h1]
    rfl
  · have h0 : (UInt8.ofNat (0xC0 + c.val / 64)).toNat = 0xC0 + c.val / 64 := toNat_ofNat (by omega)
    simp only [List.cons_append, List.nil_append]
    rw [scan_cons, h0, step, lead, dif_neg (by omega), dif_pos (by omega)]
    exact scan_tail_zero r (by omega)
  · obtain ⟨_, h4⟩ := scan_three pass (n := c.val) (by omega) h3 hs (cont c.val :: r)
    exact h4.trans (scan_tail_zero r (by omega))
  · obtain ⟨_, h4⟩ := scan_four pass (n := c.val) (by omega) c.isLt
      (cont (c.val / 64) :: cont c.val :: r)
    obtain ⟨_, h5⟩ := scan_tail_succ pass _ (cont c.val :: r)
      (show c.val / 64 = c.val / 4096 * 64 + c.val / 64 % 64 by omega)
    exact (h4.trans h5).trans (scan_tail_zero r (by omega))

theorem scan_encode {pass : Bool} : ∀ {text : Str}, text.all (! isSurrogate ·) = true →
    scan pass .start (text.flatMap encodeChar) = text.map some
  | [], _ => rfl
  | c :: text, h => by
    rw [List.all_cons, Bool.and_eq_true, Bool.not_eq_true'] at h
    rw [List.flatMap_cons, scan_encodeChar h.1, scan_encode h.2, List.map_cons]

theorem mapM_id_map_some {α : Type} : ∀ l : List α, (l.map some).mapM id = some l
  | [] => rfl
  | a :: l => by
    rw [List.map_cons, List.mapM_cons, mapM_id_map_some l]
    rfl

theorem mapM_scan_encode {pass : Bool} {text : Str} {data : Bytes} (h : encode text = some data) :
    (scan pass .start data).mapM id = some text := by
  unfold encode at h
  split_ifs at h with hs
  cases h
  rw [scan_encode hs, mapM_id_map_some]

/-- **Decoding inverts encoding.** -/
theorem decodeStrict_encode {text : Str} {data : Bytes} (h : encode text = some data) :
    decodeStrict data = some text := mapM_scan_encode h

theorem decodeSurrogatePass_encode {text : Str} {data : Bytes} (h : encode text = some data) :
    decodeSurrogatePass data = some text := mapM_scan_encode h

theorem decodeReplace_encode {text : Str} {data : Bytes} (h : encode text = some data) :
    decodeReplace data = text := by
  unfold encode at h
  split_ifs at h with hs
  cases h
  rw [decodeReplace, scan_encode hs, List.map_map]
  exact List.map_id text

/-- An octet is reported, or it starts a character. -/
theorem lead_report (b : ℕ) : (lead b).1 ≠ [] ∨ (lead b).2 ≠ .start := by
  unfold lead
  split_ifs <;> simp

theorem step_report (pass : Bool) (s : State) (b : ℕ) :
    (step pass s b).1 ≠ [] ∨ (step pass s b).2 ≠ .start := by
  unfold step
  split
  · exact lead_report b
  all_goals split_ifs <;> simp [restart]

theorem scan_ne_nil (pass : Bool) : ∀ {s : State} {data : Bytes}, s ≠ .start ∨ data ≠ [] → scan pass s data ≠ []
  | s, [], h => by
    have hs := h.resolve_right (not_not_intro rfl)
    cases s <;> first | exact absurd rfl hs | exact List.cons_ne_nil _ _
  | s, b :: r, _ => by
    rw [scan_cons]
    rcases step_report pass s b.toNat with h | h
    · exact List.append_ne_nil_of_left_ne_nil h _
    · exact List.append_ne_nil_of_right_ne_nil _ (scan_ne_nil pass (.inl h))

/-- Of the octets of a character, only one of ASCII is one of ASCII. -/
theorem eq_of_mem_encodeChar {c : CodePoint} {b : UInt8} (h : b ∈ encodeChar c) (hb : b.toNat < 0x80) :
    b.toNat = c.val := by
  have hc := c.isLt
  unfold encodeChar at h
  dsimp only at h
  split_ifs at h
  · obtain rfl := List.mem_singleton.mp h
    exact toNat_ofNat (by omega)
  all_goals
    simp only [List.mem_cons, List.not_mem_nil, or_false] at h
    exfalso
  · rcases h with rfl | rfl <;> rw [toNat_ofNat (by omega)] at hb <;> omega
  · rcases h with rfl | rfl | rfl <;> rw [toNat_ofNat (by omega)] at hb <;> omega
  · rcases h with rfl | rfl | rfl | rfl <;> rw [toNat_ofNat (by omega)] at hb <;> omega

/-- An octet of ASCII is in the encoding of a text if its character is in the
text. -/
theorem mem_encode_ascii {text : Str} {data : Bytes} (h : encode text = some data) {b : UInt8} (hb : b.toNat < 0x80) :
    b ∈ data ↔ ∃ c ∈ text, c.val = b.toNat := by
  unfold encode at h
  split_ifs at h
  obtain rfl := Option.some.inj h
  rw [List.mem_flatMap]
  refine exists_congr fun c => and_congr_right fun _ => ⟨fun hm => (eq_of_mem_encodeChar hm hb).symm, fun he => ?_⟩
  rw [encodeChar, if_pos (by omega), List.mem_singleton, he]
  exact (UInt8.ofNat_toNat).symm

/-- The octets of a text without line feed have none. -/
theorem lineFeed_not_mem_encode {text : Str} {data : Bytes} (h : encode text = some data)
    (ht : lineFeed ∉ text) : 0x0A ∉ data := by
  intro hm
  obtain ⟨a, r, rfl, -⟩ := List.eq_append_cons_of_mem hm
  refine ht ?_
  rw [← decodeReplace_encode h, decodeReplace_append_lineFeed]
  exact List.mem_append_right _ List.mem_cons_self

theorem encode_append {s t : Str} {data : Bytes} (h : encode (s ++ t) = some data) :
    ∃ a b, encode s = some a ∧ encode t = some b ∧ data = a ++ b := by
  unfold encode at h ⊢
  split_ifs at h with hs
  rw [List.all_append, Bool.and_eq_true] at hs
  cases h
  rw [if_pos hs.1, if_pos hs.2]
  exact ⟨_, _, rfl, rfl, List.flatMap_append⟩

/-- Octets that are not none are decoded to a text that is not empty. -/
theorem decodeReplace_eq_nil {data : Bytes} : decodeReplace data = [] ↔ data = [] := by
  constructor
  · intro h
    by_contra hd
    exact scan_ne_nil false (.inr hd) (List.map_eq_nil_iff.mp h)
  · rintro rfl
    rfl

/-! ### ASCII text -/

/-- The states in which a character above ASCII has been started, or none. -/
def State.Above : State → Prop
  | .tail 0 acc _ => 2 ≤ acc
  | _ => True

theorem lead_above {b : ℕ} (h : 0x80 ≤ b) :
    (lead b).2.Above ∧ ((lead b).1 = [none] ∨ (lead b).1 = [] ∧ (lead b).2 ≠ .start) := by
  unfold lead
  split_ifs with h1 h2 h3 h4 h5 h6 h7 h8 <;> simp [State.Above]
  · omega
  · omega

/-- An octet after the start of a character ends it, above ASCII, goes on with
it, or starts anew. -/
theorem step_above {pass : Bool} {s : State} {b : ℕ} (hs : s ≠ .start) (ha : s.Above) :
    (∃ c : CodePoint, 0x80 ≤ c.val ∧ step pass s b = ([some c], .start)) ∨
      (∃ s' : State, s' ≠ .start ∧ s'.Above ∧ step pass s b = ([], s')) ∨ step pass s b = restart b := by
  unfold step
  split
  case h_1 => exact absurd rfl hs
  case h_2 acc ok =>
    split_ifs with h
    · have h2 : 2 ≤ acc := ha
      exact .inl ⟨_, by dsimp only; omega, rfl⟩
    · exact .inr (.inr rfl)
  case h_3 more acc ok =>
    split_ifs with h
    · refine .inr (.inl ⟨_, by simp, ?_, rfl⟩)
      have := ok.pos
      cases more with
      | zero =>
        change 2 ≤ acc * 64 + (b - 0x80)
        omega
      | succ more => trivial
    · exact .inr (.inr rfl)
  all_goals
    split_ifs with h
    · refine .inr (.inl ⟨_, by simp, ?_, rfl⟩)
      first
      | trivial
      | (simp only [State.Above]; omega)
    · exact .inr (.inr rfl)

/-- A character that was started is reported as one above ASCII, or not at all. -/
theorem scan_above (pass : Bool) : ∀ {s : State} (data : Bytes), s ≠ .start → s.Above →
    ∃ o r, scan pass s data = o :: r ∧ ∀ c, o = some c → 0x80 ≤ c.val
  | s, [], hs, _ => by
    cases s with
    | start => exact absurd rfl hs
    | _ => exact ⟨none, [], rfl, fun c hc => by cases hc⟩
  | s, b :: data, hs, ha => by
    rw [scan_cons]
    rcases step_above (b := b.toNat) hs ha with ⟨c, hc, h⟩ | ⟨s', hs', ha', h⟩ | h
    · refine ⟨some c, _, by rw [h]; rfl, fun c' hc' => ?_⟩
      rwa [← Option.some.inj hc']
    · rw [h]
      exact scan_above pass data hs' ha'
    · refine ⟨none, (lead b.toNat).1 ++ scan pass (lead b.toNat).2 data, by rw [h]; rfl, ?_⟩
      intro c hc
      cases hc

/-- Nothing but its octets is decoded to an ASCII text. -/
theorem eq_of_scan_ascii (pass : Bool) : ∀ {data : Bytes} {text : Str}, (∀ c ∈ text, c.val < 0x80) →
    scan pass .start data = text.map some → data = text.map fun c => .ofNat c.val
  | [], [], _, _ => rfl
  | [], _ :: _, _, h => by cases h
  | b :: data, text, ht, h => by
    rw [scan_cons] at h
    change (lead b.toNat).1 ++ scan pass (lead b.toNat).2 data = _ at h
    by_cases hb : b.toNat < 0x80
    · have hl : lead b.toNat = ([some ⟨b.toNat, by omega⟩], .start) := by rw [lead, dif_pos hb]
      rw [hl] at h
      cases text with
      | nil => simp at h
      | cons c text =>
        rw [List.map_cons, List.singleton_append, List.cons.injEq] at h
        rw [List.forall_mem_cons] at ht
        rw [List.map_cons, ← eq_of_scan_ascii pass ht.2 h.2, ← Option.some.inj h.1, UInt8.ofNat_toNat]
    · have hhead : ∀ o r, (lead b.toNat).1 ++ scan pass (lead b.toNat).2 data = o :: r →
          (∀ c, o = some c → 0x80 ≤ c.val) → False := by
        intro o r ho hc
        rw [ho] at h
        cases text with
        | nil => simp at h
        | cons c text =>
          rw [List.map_cons, List.cons.injEq] at h
          have h1 := hc c h.1
          have h2 := ht c List.mem_cons_self
          omega
      obtain ⟨ha, hr | ⟨hr, hs⟩⟩ := lead_above (b := b.toNat) (by omega)
      · exact (hhead none _ (by rw [hr]; rfl) fun c hc => by cases hc).elim
      · obtain ⟨o, r, ho, hc⟩ := scan_above pass data hs ha
        exact (hhead o r (by rw [hr]; exact ho) hc).elim

/-- The text of ASCII octets is encoded to them. -/
theorem encode_ascii : ∀ {data : Bytes}, (∀ b ∈ data, b.toNat < 0x80) →
    encode (data.map fun b => Fin.ofNat _ b.toNat) = some data
  | [], _ => rfl
  | b :: data, h => by
    rw [List.forall_mem_cons] at h
    have hval : (Fin.ofNat 0x110000 b.toNat).val = b.toNat := Nat.mod_eq_of_lt (by omega)
    have hsurrogate : isSurrogate (Fin.ofNat 0x110000 b.toNat) = false := by
      simp only [isSurrogate, hval, Bool.and_eq_false_iff, decide_eq_false_iff_not]
      omega
    have hchar : encodeChar (Fin.ofNat 0x110000 b.toNat) = [b] := by
      simp only [encodeChar, hval, if_pos h.1, UInt8.ofNat_toNat]
    have ih := encode_ascii h.2
    unfold encode at ih ⊢
    split_ifs at ih with hall
    rw [List.map_cons, List.all_cons, hsurrogate, hall, List.flatMap_cons, hchar, Option.some.inj ih]
    rfl

theorem encode_decodeReplace_ascii {data : Bytes} (h : ∀ b ∈ data, b.toNat < 0x80) :
    encode (decodeReplace data) = some data := by
  rw [decodeReplace_encode (encode_ascii h), encode_ascii h]

theorem eq_of_decodeStrict_ascii {data : Bytes} {text : Str} (ht : ∀ c ∈ text, c.val < 0x80)
    (h : decodeStrict data = some text) : data = text.map fun c => .ofNat c.val := by
  refine eq_of_scan_ascii false ht ?_
  unfold decodeStrict at h
  generalize scan false .start data = report at h
  induction report generalizing text with
  | nil =>
    rw [List.mapM_nil] at h
    obtain rfl := Option.some.inj h
    rfl
  | cons o report ih =>
    rw [List.mapM_cons] at h
    cases o with
    | none => simp at h
    | some c =>
      cases hr : report.mapM id with
      | none => simp [hr] at h
      | some text' =>
        simp only [hr, id_eq, Option.bind_eq_bind, Option.bind_some, pure, Option.some.injEq] at h
        subst h
        rw [List.forall_mem_cons] at ht
        rw [ih ht.2 hr, List.map_cons]

end Utf8
end GpgMeister
