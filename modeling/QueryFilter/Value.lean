import QueryFilter.Binary64.Text

/-!
# Filter values

* `Value`: the right-hand side of a comparison: a truth value, an integer, a floating-point number
  or a text;
* `Value.display`: a value as text;
* `Value.agrees`: equality of values of one kind, where numbers are compared as numbers.
-/

namespace QueryFilter

/-- The right-hand side of a comparison. -/
inductive Value where
  | bool (b : Bool)
  | int (i : Int64)
  | float (x : Binary64)
  | text (s : String)
  deriving DecidableEq

namespace Value

/-- The value as text. -/
def display : Value → String
  | bool b => if b then "true" else "false"
  | int i => Numeral.decimalInt i.toInt
  | float x => x.plain
  | text s => s

/-- The text of a text value. -/
def asText? : Value → Option String
  | text s => some s
  | _ => none

/-- The floating-point number nearest to a number. -/
def asFloat? : Value → Option Binary64
  | int i => some (.ofInt i.toInt)
  | float x => some x
  | _ => none

/-- Equality of values of one kind. Floating-point values are compared as numbers: the zeros agree,
and a non-number agrees with nothing. -/
def agrees : Value → Value → Bool
  | bool a, bool b => a == b
  | int a, int b => a == b
  | float a, float b => a.numericallyEqual b
  | text a, text b => a == b
  | _, _ => false

/-- Whether the value is no infinity and no non-number. -/
def isFinite : Value → Bool
  | float x => x.isFinite
  | _ => true

end Value

end QueryFilter
