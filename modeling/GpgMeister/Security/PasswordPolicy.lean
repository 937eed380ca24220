/-
# The password policy

`security/password_policy.py`: which texts are strong enough to protect a key
or a vault. A text is judged in its normal form (NFKC); `assess_accepts_iff`
says which are accepted. What Unicode says about characters is a parameter.
-/
import GpgMeister.Models.Config
import GpgMeister.World

namespace GpgMeister
namespace PasswordPolicy

/-- The tables of Unicode that the policy asks. -/
structure Unicode where
  /-- `unicodedata.normalize("NFKC", …)` -/
  nfkc : Str → Str
  nfkc_nfkc : ∀ s, nfkc (nfkc s) = nfkc s
  /-- No surrogates come in. -/
  nfkc_noSurrogate : ∀ s, s.any Utf8.isSurrogate = false → (nfkc s).any Utf8.isSurrogate = false
  lower : Str → Str
  /-- `\w` -/
  isWord : CodePoint → Bool
  isLower : CodePoint → Bool
  isUpper : CodePoint → Bool
  isDigit : CodePoint → Bool
  isAlnum : CodePoint → Bool

/-- `_COMMON_PASSWORDS` -/
def commonPasswords : List Str :=
  [lit "password", lit "passw0rd", lit "passwort", lit "123456", lit "12345678", lit "qwerty", lit "qwertz",
    lit "letmein", lit "iloveyou", lit "admin", lit "welcome", lit "monkey", lit "dragon", lit "baseball",
    lit "football", lit "test1234", lit "abc123", lit "p@ssw0rd", lit "changeme", lit "secret", lit "master",
    lit "sunshine", lit "princess", lit "azerty", lit "hunter2"]

def minPassphraseBytes : ℕ := 12
def minPasswordBytes : ℕ := 16

inductive PasswordStrength
  | rejected
  | weak
  | acceptable
  | strong
  deriving DecidableEq

structure PasswordAssessment where
  strength : PasswordStrength
  accepted : Bool
  reason : Option Str := none
  deriving DecidableEq

variable (unicode : Unicode)

/-- `_word_count`: the runs of word characters -/
def wordCount (value : Str) : ℕ := ((value.splitOnP fun c => ! unicode.isWord c).filter (· ≠ [])).length

/-- `_character_classes` -/
def characterClasses (value : Str) : ℕ :=
  (value.any unicode.isLower).toNat + (value.any unicode.isUpper).toNat + (value.any unicode.isDigit).toNat +
    (value.any fun c => ! unicode.isAlnum c).toNat

/-- What `assess` makes of a text in its normal form, with its octets. -/
def assessNormal (normalised : Str) (encodedLen : ℕ) : PasswordAssessment :=
  if unicode.lower normalised ∈ commonPasswords then
    { strength := .rejected, accepted := false, reason := some (lit "passphrase appears in a list of common passwords") }
  else if normalised.any isSpace = true ∧ 4 ≤ wordCount unicode normalised ∧ minPassphraseBytes ≤ encodedLen then
    { strength := if 24 ≤ encodedLen then .strong else .acceptable, accepted := true }
  else if minPasswordBytes ≤ encodedLen ∧ 3 ≤ characterClasses unicode normalised then
    { strength := if 20 ≤ encodedLen then .strong else .acceptable, accepted := true }
  else if encodedLen < minPassphraseBytes then
    { strength := .rejected
      accepted := false
      reason := some (lit "too short — use at least 4 unrelated words or " ++ Json.decimal minPasswordBytes ++
        lit " mixed characters") }
  else
    { strength := .weak
      accepted := false
      reason := some (lit "too easy to guess — use more words or add mixed character types") }

/-- `assess` -/
def assess (passphrase : Str) : Except Exc PasswordAssessment :=
  let normalised := unicode.nfkc passphrase
  if normalised = [] then
    .ok { strength := .rejected, accepted := false, reason := some (lit "passphrase is empty") }
  else do
    let encoded ← encodeUtf8 normalised
    return assessNormal unicode normalised encoded.length

/-- `assess(passphrase).accepted` -/
def Accepts (passphrase : Str) : Prop := ∃ a, assess unicode passphrase = .ok a ∧ a.accepted = true

/-- Four words with white space among them, or a long text of several kinds of
characters; and no password that everybody knows. -/
def IsStrong (normalised : Str) (encodedLen : ℕ) : Prop :=
  normalised ≠ [] ∧ unicode.lower normalised ∉ commonPasswords ∧
    (normalised.any isSpace = true ∧ 4 ≤ wordCount unicode normalised ∧ minPassphraseBytes ≤ encodedLen ∨
      minPasswordBytes ≤ encodedLen ∧ 3 ≤ characterClasses unicode normalised)

variable {unicode}

theorem assessNormal_accepted_iff {normalised : Str} {n : ℕ} (hne : normalised ≠ []) :
    (assessNormal unicode normalised n).accepted = true ↔ IsStrong unicode normalised n := by
  unfold assessNormal IsStrong
  by_cases hcommon : unicode.lower normalised ∈ commonPasswords
  · rw [if_pos hcommon]
    exact iff_of_false (by simp) fun h => h.2.1 hcommon
  · rw [if_neg hcommon]
    by_cases hwords : normalised.any isSpace = true ∧ 4 ≤ wordCount unicode normalised ∧ minPassphraseBytes ≤ n
    · rw [if_pos hwords]
      exact iff_of_true rfl ⟨hne, hcommon, .inl hwords⟩
    · rw [if_neg hwords]
      by_cases hmixed : minPasswordBytes ≤ n ∧ 3 ≤ characterClasses unicode normalised
      · rw [if_pos hmixed]
        exact iff_of_true rfl ⟨hne, hcommon, .inr hmixed⟩
      · rw [if_neg hmixed]
        refine iff_of_false ?_ fun h => h.2.2.elim hwords hmixed
        split <;> simp

/-- Which texts are accepted. -/
theorem assess_accepts_iff (passphrase : Str) : Accepts unicode passphrase ↔
    ∃ octets, Utf8.encode (unicode.nfkc passphrase) = some octets ∧
      IsStrong unicode (unicode.nfkc passphrase) octets.length := by
  unfold Accepts assess
  by_cases hne : unicode.nfkc passphrase = []
  · rw [if_pos hne]
    refine iff_of_false ?_ ?_
    · intro h
      obtain ⟨a, ha, hacc⟩ := h
      obtain rfl := Except.ok.inj ha
      cases hacc
    · intro h
      obtain ⟨octets, -, hs⟩ := h
      exact hs.1 hne
  · rw [if_neg hne]
    cases he : Utf8.encode (unicode.nfkc passphrase) with
    | none => simp [encodeUtf8, he, bind, Except.bind]
    | some octets =>
      simp only [encodeUtf8, he, bind, Except.bind, pure, Except.pure, Except.ok.injEq, Option.some.injEq,
        exists_eq_left']
      exact assessNormal_accepted_iff hne

/-- A text is judged as its normal form is. -/
theorem accepts_nfkc (passphrase : Str) : Accepts unicode (unicode.nfkc passphrase) ↔ Accepts unicode passphrase := by
  rw [assess_accepts_iff, assess_accepts_iff, unicode.nfkc_nfkc]

/-- Unicode, on ASCII text. -/
def sampleUnicode : Unicode where
  nfkc s := s
  nfkc_nfkc _ := rfl
  nfkc_noSurrogate _ h := h
  lower s := s.map fun c => if isAsciiUpper c then c + 32 else c
  isWord c := isAsciiAlnum c || c.val == 95
  isLower := isAsciiLower
  isUpper := isAsciiUpper
  isDigit := Json.isDigit
  isAlnum := isAsciiAlnum

end PasswordPolicy
end GpgMeister
