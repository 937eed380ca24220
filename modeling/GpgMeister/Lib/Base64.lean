/-
# Base64

The standard alphabet with padding. Decoding is strict: nothing but groups of
four characters, padding at the end only; the bits that a padded group has
left over are not looked at.
-/
import GpgMeister.Lib.Text

namespace GpgMeister
namespace Base64

def alphabet : Str := lit "ABCDEFGHIJKLMNOPQRSTUVWXYZabcdefghijklmnopqrstuvwxyz0123456789+/"

def pad : CodePoint := 0x3D

/-- The character of six bits. -/
def digit (n : ℕ) : CodePoint := alphabet.getD n pad

/-- The six bits of a character. -/
def value (c : CodePoint) : Option ℕ := alphabet.idxOf? c

def encode : Bytes → Str
  | [] => []
  | [a] => [digit (a.toNat / 4), digit (a.toNat % 4 * 16), pad, pad]
  | [a, b] =>
    [digit (a.toNat / 4), digit (a.toNat % 4 * 16 + b.toNat / 16), digit (b.toNat % 16 * 4), pad]
  | a :: b :: c :: r =>
    digit (a.toNat / 4) :: digit (a.toNat % 4 * 16 + b.toNat / 16) ::
      digit (b.toNat % 16 * 4 + c.toNat / 64) :: digit (c.toNat % 64) :: encode r

/-- `base64.b64decode(text, validate=True)`; `none` is its `ValueError`. -/
def decode : Str → Option Bytes
  | [] => some []
  | p :: q :: x :: y :: r => do
    let i ← value p
    let j ← value q
    let a := .ofNat (i * 4 + j / 16)
    if x = pad ∧ y = pad ∧ r = [] then return [a]
    let k ← value x
    let b := .ofNat (j % 16 * 16 + k / 4)
    if y = pad ∧ r = [] then return [a, b]
    let l ← value y
    return a :: b :: .ofNat (k % 4 * 64 + l) :: (← decode r)
  | _ => none

theorem value_digit {n : ℕ} (h : n < 64) : value (digit n) = some n := by
  have hall : (List.range 64).all (fun n => value (digit n) = some n) = true := by decide +kernel
  simpa using List.all_eq_true.mp hall n (List.mem_range.mpr h)

theorem digit_ne_pad {n : ℕ} (h : n < 64) : digit n ≠ pad := by
  intro he
  have hv := value_digit h
  have hp : value pad = none := by decide
  rw [he, hp] at hv
  cases hv

theorem encode_eq_nil : ∀ {b : Bytes}, encode b = [] ↔ b = []
  | [] => by simp [encode]
  | [a] => by simp [encode]
  | [a, b] => by simp [encode]
  | a :: b :: c :: r => by simp [encode]

/-- The bits of one octet, or of the parts of it in two characters. -/
theorem ofNat_eq (a : UInt8) {n : ℕ} (h : n = a.toNat) : UInt8.ofNat n = a := by
  rw [h]
  exact UInt8.ofNat_toNat

theorem decode_encode : ∀ b : Bytes, decode (encode b) = some b
  | [] => rfl
  | [a] => by
    have ha := a.toNat_lt
    simp only [encode, decode, value_digit (show a.toNat / 4 < 64 by omega),
      value_digit (show a.toNat % 4 * 16 < 64 by omega), Option.bind_eq_bind, Option.bind_some, and_self, if_true,
      pure]
    rw [ofNat_eq a (by omega)]
  | [a, b] => by
    have ha := a.toNat_lt
    have hb := b.toNat_lt
    have hx : digit (b.toNat % 16 * 4) ≠ pad := digit_ne_pad (by omega)
    simp only [encode, decode, value_digit (show a.toNat / 4 < 64 by omega),
      value_digit (show a.toNat % 4 * 16 + b.toNat / 16 < 64 by omega),
      value_digit (show b.toNat % 16 * 4 < 64 by omega), hx, Option.bind_eq_bind, Option.bind_some, false_and,
      if_false, and_self, if_true, pure]
    rw [ofNat_eq a (by omega), ofNat_eq b (by omega)]
  | a :: b :: c :: r => by
    have ha := a.toNat_lt
    have hb := b.toNat_lt
    have hc := c.toNat_lt
    have hx : digit (b.toNat % 16 * 4 + c.toNat / 64) ≠ pad := digit_ne_pad (by omega)
    have hy : digit (c.toNat % 64) ≠ pad := digit_ne_pad (by omega)
    simp only [encode, decode, value_digit (show a.toNat / 4 < 64 by omega),
      value_digit (show a.toNat % 4 * 16 + b.toNat / 16 < 64 by omega),
      value_digit (show b.toNat % 16 * 4 + c.toNat / 64 < 64 by omega),
      value_digit (show c.toNat % 64 < 64 by omega), hx, hy, decode_encode r, Option.bind_eq_bind,
      Option.bind_some, false_and, if_false, pure]
    rw [ofNat_eq a (by omega), ofNat_eq b (by omega), ofNat_eq c (by omega)]

end Base64
end GpgMeister
