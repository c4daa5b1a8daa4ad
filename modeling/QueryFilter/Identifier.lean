import QueryFilter.Text.Utf8

/-!
# Identifiers

Names of tables and columns go into a statement as they are, so only plain names are admitted: an
ASCII letter or underscore, then ASCII letters, digits and underscores, 63 bytes in all at most.

* `isIdentifier`: the check;
* `InvalidIdentifier`: a name that fails it, and what it was to name;
* `checkIdentifier`: the check as a computation that may fail.
-/

namespace QueryFilter

/-- The greatest length of an identifier, in bytes. -/
def maxIdentifierSize : Nat := 63

/-- Whether a character may start an identifier. -/
def isIdentifierStart (c : Char) : Bool :=
  c.isAlpha || c == '_'

/-- Whether a character may stand in an identifier. -/
def isIdentifierChar (c : Char) : Bool :=
  c.isAlphanum || c == '_'

/-- Whether a text is an identifier. -/
def isIdentifier (s : String) : Bool :=
  match s.toList with
  | [] => false
  | c :: rest =>
    isIdentifierStart c && rest.all isIdentifierChar && Utf8.size s ≤ maxIdentifierSize

/-- A name that is not an identifier, with the role it was given. -/
structure InvalidIdentifier where
  role : String
  name : String
  deriving DecidableEq

/-- The wording of the failure. -/
def InvalidIdentifier.message (e : InvalidIdentifier) : String :=
  "invalid SQL " ++ e.role ++ " name `" ++ e.name ++
    "`: expected an ASCII identifier of at most " ++ toString maxIdentifierSize ++ " bytes"

/-- Fails for a name that is not an identifier. -/
def checkIdentifier (role name : String) : Except InvalidIdentifier Unit :=
  if isIdentifier name then .ok () else .error ⟨role, name⟩

end QueryFilter
