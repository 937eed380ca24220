/-
# Listings with colons

`_parse_colons_keys` of `services/gpg_service.py`: GnuPG lists keys as records
of fields between colons; a record `pub` or `sec` begins a key, and the records
after it describe the key or the subkey that came last.
-/
import GpgMeister.Services.GpgService

namespace GpgMeister
namespace GPGService

/-- A row of `_parse_colons_keys`. -/
structure ColonsRow where
  type : Str
  trust : Str
  length : Str
  algo : Str
  date : Str
  expires : Str
  fingerprint : Option Str := none
  uids : List Str := []
  subkeys : List Str := []
  tokenSn : Str
  cardSn : Str

/-- `_token_state`: the serial number of the token, and whether the secret half
is not here. -/
def tokenState (raw : Str) : Str × Bool :=
  let value := strip raw
  if value = [] ∨ value = lit "+" then ([], false)
  else if value = lit "#" then ([], true)
  else (value, true)

/-- The rows so far, the one that is being read, and whether the last key of it
was a subkey. -/
structure ColonsState where
  done : List ColonsRow := []
  current : Option ColonsRow := none
  inSubkey : Bool := false

/-- The row that a record `pub` or `sec` begins. -/
def beginRow (recType : Str) (fields : List Str) : ColonsRow where
  type := recType
  trust := fields.getD 1 []
  length := fields.getD 2 []
  algo := fields.getD 3 []
  date := fields.getD 5 []
  expires := fields.getD 6 []
  tokenSn := fields.getD 14 []
  cardSn := (tokenState (fields.getD 14 [])).1

/-- A fingerprint, of the key if it has none yet, or of a subkey. -/
def addFingerprint (inSubkey : Bool) (row : ColonsRow) (fpr : Str) : ColonsRow :=
  if inSubkey then { row with subkeys := row.subkeys ++ [fpr] }
  else { row with fingerprint := row.fingerprint.or (some fpr) }

/-- The body of the loop of `_parse_colons_keys`. -/
def colonsLine (s : ColonsState) (line : Str) : ColonsState :=
  let fields := line.splitOn (ch ':')
  let recType := fields.getD 0 []
  if recType = lit "pub" ∨ recType = lit "sec" then
    { done := s.done ++ s.current.toList, current := some (beginRow recType fields), inSubkey := false }
  else
    match s.current with
    | none => s
    | some row =>
      if recType = lit "ssb" ∨ recType = lit "sub" then
        { s with
          current := some (if row.cardSn = [] then { row with cardSn := (tokenState (fields.getD 14 [])).1 } else row)
          inSubkey := true }
      else if recType = lit "fpr" ∧ 9 < fields.length then
        { s with current := some (addFingerprint s.inSubkey row (fields.getD 9 [])) }
      else if recType = lit "uid" ∧ 9 < fields.length ∧ fields.getD 9 [] ≠ [] then
        { s with current := some { row with uids := row.uids ++ [fields.getD 9 []] } }
      else s

/-- `_parse_colons_keys` -/
def parseColonsKeys (data : Bytes) : List ColonsRow :=
  let s := (splitlines (Gpg.decodeOutput data)).foldl colonsLine {}
  (s.done ++ s.current.toList).filter fun row => row.fingerprint.getD [] ≠ []

end GPGService
end GpgMeister
