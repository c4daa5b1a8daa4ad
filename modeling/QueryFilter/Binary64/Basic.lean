import QueryFilter.Text.Decimal

/-!
# Binary floating point of 64 bits

A number of the interchange format is its sign and the 63 bits below it, read as a natural number.
In this reading the finite magnitudes, smallest first, are `0, 1, 2, …`, so that rounding up to a
power of two is addition of one, and the infinity follows the largest finite magnitude.

* `Binary64`, with `bits`, `isFinite` and the comparison `numericallyEqual`;
* `Binary64.grid`: a finite magnitude as a multiple of a power of two;
* **`Binary64.nearest`**: the magnitude nearest to a fraction, a tie going to the even one;
* `Binary64.ofInt`, `Binary64.ofDecimal`: the numbers nearest to an integer and to a decimal;
* `Binary64.parse?`: reads a decimal or the name of an infinity or of a non-number.
-/

namespace QueryFilter

/-- A floating-point number: its sign bit and the bits below it. -/
structure Binary64 where
  negative : Bool
  magnitude : Nat
  magnitude_lt : magnitude < 1 <<< 63
  deriving DecidableEq

namespace Binary64

/-! ## The format -/

/-- The magnitude of the infinities. -/
def infinite : Nat := 0x7FF <<< 52

/-- The magnitude of the quiet non-number. -/
def quiet : Nat := infinite + (1 <<< 51)

/-- The 64 bits, as a number. -/
def bits (x : Binary64) : Nat :=
  (if x.negative then 1 <<< 63 else 0) + x.magnitude

/-- Whether the number is neither an infinity nor a non-number. -/
def isFinite (x : Binary64) : Bool :=
  x.magnitude < infinite

/-- Whether this is a non-number. -/
def isNaN (x : Binary64) : Bool :=
  infinite < x.magnitude

/-- Equality of the numbers: the two zeros are equal, and a non-number equals nothing. -/
def numericallyEqual (x y : Binary64) : Bool :=
  !x.isNaN && !y.isNaN && (x.magnitude == y.magnitude) &&
    (x.negative == y.negative || x.magnitude == 0)

/-- The pair `(m, q)` such that a finite magnitude means `m · 2 ^ q`. -/
def grid (magnitude : Nat) : Nat × Int :=
  let biased : Nat := magnitude >>> 52
  let fraction := magnitude % (1 <<< 52)
  if biased = 0 then (fraction, -1074) else ((1 <<< 52) + fraction, (biased : Int) - 1075)

/-! ## Rounding -/

/-- The natural number nearest to a fraction; a tie goes to the even one. -/
def roundHalfEven (num den : Nat) : Nat :=
  let quotient := num / den
  let remainder := num % den
  if 2 * remainder < den then quotient
  else if den < 2 * remainder then quotient + 1
  else quotient + quotient % 2

/-- The fraction `num / den` divided by `base ^ power`. -/
def scale (base num den : Nat) (power : Int) : Nat × Nat :=
  (num * Nat.pow base (-power).toNat, den * Nat.pow base power.toNat)

/-- The exponent of the grid that a positive fraction is rounded to: it leaves a quotient of 53
bits, and is at least the exponent of the smallest grid. -/
def gridExponent (num den : Nat) : Int :=
  let q : Int := (num.log2 : Int) - (den.log2 : Int) - 52
  let (n, d) := scale 2 num den q
  max (-1074) (if n < d <<< 52 then q - 1 else q)

/-- **The magnitude nearest to a fraction**, a tie going to the even one. A fraction beyond the
largest finite magnitude by half a step or more gives the infinity. -/
def nearest (num den : Nat) : Nat :=
  if num = 0 then 0
  else
    let q := gridExponent num den
    let (n, d) := scale 2 num den q
    min infinite (((q + 1074).toNat <<< 52) + roundHalfEven n d)

theorem nearest_le_infinite (num den : Nat) : nearest num den ≤ infinite := by
  unfold nearest
  split
  · exact Nat.zero_le _
  · exact Nat.min_le_left _ _

/-- The number of a sign and the magnitude nearest to a fraction. -/
def ofFraction (negative : Bool) (num den : Nat) : Binary64 :=
  ⟨negative, nearest num den, Nat.lt_of_le_of_lt (nearest_le_infinite num den) (by decide)⟩

/-- The number nearest to an integer. -/
def ofInt (i : Int) : Binary64 :=
  ofFraction (i < 0) i.natAbs 1

/-- The number nearest to a decimal. A power of ten so large that every digit lies beyond the
largest number, or so small that all of them lie below the smallest one, is not computed. -/
def ofDecimal (d : Decimal) : Binary64 :=
  let top := (d.coefficient.log2 : Int) + 1 + d.exponent
  if d.coefficient = 0 ∨ top < -400 then ⟨d.negative, 0, by decide⟩
  else if 400 < d.exponent then ⟨d.negative, infinite, by decide⟩
  else
    let (num, den) := scale 10 d.coefficient 1 (-d.exponent)
    ofFraction d.negative num den

/-! ## Literals -/

/-- The magnitude that a name stands for: `inf`, `infinity` or `nan` in letters of either case. -/
def named? (cs : List Char) : Option Binary64 :=
  match String.ofList (cs.map Char.toLower) with
  | "inf" | "infinity" => some ⟨false, infinite, by decide⟩
  | "nan" => some ⟨false, quiet, by decide⟩
  | _ => none

/-- Reads a decimal, or a name after an optional sign. -/
def parse? (s : String) : Option Binary64 :=
  match Decimal.parse? s.toList with
  | some d => some (ofDecimal d)
  | none =>
    let (negative, name) := Numeral.takeSign s.toList
    (named? name).map fun x => { x with negative }

end Binary64

end QueryFilter
