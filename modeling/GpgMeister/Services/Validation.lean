/-
# User IDs and expiry dates

The rest of `services/validation.py`: names, email addresses and expiry dates.
In each of its patterns `$` also matches in front of a final line feed, so that
a value may end with one; a name may not, since it is stripped first.
-/
import GpgMeister.Services.GpgService

namespace GpgMeister
namespace Validation

open GPGService

/-! ### Characters -/

def isLower (c : CodePoint) : Bool := 0x61 ≤ c.val && c.val ≤ 0x7A
def isUpper (c : CodePoint) : Bool := 0x41 ≤ c.val && c.val ≤ 0x5A

/-- `[A-Za-z]` -/
def isLetter (c : CodePoint) : Bool := isLower c || isUpper c

/-- `[A-Za-z0-9]` -/
def isAlnum (c : CodePoint) : Bool := isLetter c || Json.isDigit c

/-- A pattern that ends with `$`. -/
def matchesToEnd (pattern : Str → Bool) (s : Str) : Bool :=
  pattern s || (s.getLast? = some lineFeed && pattern s.dropLast)

/-- A run of `inner` of this length, whose ends are letters or digits. -/
def isLabel (inner : CodePoint → Bool) (limit : ℕ) (s : Str) : Bool :=
  s.length ≤ limit && s.all inner && s.head?.any isAlnum && s.getLast?.any isAlnum

/-! ### Email addresses -/

/-- What stands in front of the `@`. -/
def isLocalPart (s : Str) : Bool :=
  isLabel (fun c => isAlnum c || c ∈ lit "._%+-") 64 s

/-- Labels, and a last one of letters. -/
def isDomain (s : Str) : Bool :=
  let labels := s.splitOn (codePoint '.')
  let top := labels.getLastD []
  2 ≤ labels.length && labels.dropLast.all (isLabel (fun c => isAlnum c || c = codePoint '-') 63) &&
    2 ≤ top.length && top.length ≤ 63 && top.all isLetter

/-- `_EMAIL_RE` without its end; no part of it matches an `@`. -/
def isAddress (s : Str) : Bool :=
  match s.splitOn (codePoint '@') with
  | [localPart, domain] => isLocalPart localPart && isDomain domain
  | _ => false

/-- `validate_email` -/
def validateEmail (repr : Str → Str) (email : Str) : Except Exc Str :=
  if matchesToEnd isAddress email then .ok email
  else .error (validationError (lit "invalid email address: " ++ repr email))

/-! ### Names -/

/-- `_USER_NAME_RE` without its end -/
def isUserName (s : Str) : Bool :=
  s.length ≤ 64 && s.head?.any isAlnum && s.all fun c => isAlnum c || c ∈ lit " ._-"

/-- `validate_user_name` -/
def validateUserName (name : Str) : Except Exc Str :=
  let stripped := strip name
  if stripped = [] then .error (validationError (lit "user name must not be empty"))
  else if matchesToEnd isUserName stripped = false ∨ contains stripped (lit "--") = true then
    .error (validationError
      (lit "user name must contain only ASCII letters, digits, spaces, dots, underscores and hyphens"))
  else .ok stripped

/-! ### Expiry dates -/

/-- `NO_EXPIRY` -/
def noExpiry : Str := lit "0"

/-- `_EXPIRY_OFFSET_RE` without its end -/
def isExpiryOffset (s : Str) : Bool :=
  s.dropLast.all Json.isDigit && s.dropLast.head?.any (· ≠ codePoint '0') && s.getLast?.any (· ∈ lit "ymwd")

/-- `validate_expiry`. `isoDate` is what `date.fromisoformat` accepts. -/
def validateExpiry (isoDate : Str → Bool) (repr : Str → Str) (value : Str) : Except Exc Str :=
  if value = noExpiry then .ok value
  else if matchesToEnd isExpiryOffset value then .ok value
  else if isoDate value then .ok value
  else .error (validationError (lit "expiry must be ISO 8601 date or offset like '2y'/'30d'; got " ++ repr value))

end Validation
end GpgMeister
