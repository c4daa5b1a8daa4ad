import QueryFilter.Text.Numeral

/-!
# Decimal numbers

A number with a decimal point or a power of ten, and its written forms.

* `Decimal`: a sign, a coefficient and a power of ten;
* `Decimal.parse?`: reads a sign, digits with an optional point, and an optional exponent;
* `Decimal.trim`: moves the trailing zeros of the coefficient into the exponent;
* `Decimal.positional`, `Decimal.scientific`: the number without and with a power of ten.
-/

namespace QueryFilter

/-- The number `± coefficient · 10 ^ exponent`. -/
structure Decimal where
  negative : Bool
  coefficient : Nat
  exponent : Int
  deriving DecidableEq

namespace Decimal

open Numeral

/-! ## Reading -/

/-- The absolute value of an exponent. Once it has reached `2 ^ 16`, further digits do not count, so
that it stays small however long it is written. -/
def cappedExponent (digits : List Char) : Nat :=
  digits.foldl (fun n c => if n < 1 <<< 16 then 10 * n + (digit? 10 c).getD 0 else n) 0

/-- The power of ten that ends a literal: nothing, or `e` or `E`, an optional sign and digits. -/
def exponent? : List Char → Option Int
  | [] => some 0
  | c :: rest =>
    let (negative, digits) := takeSign rest
    if (c = 'e' ∨ c = 'E') ∧ digits ≠ [] ∧ digits.all (isDigit 10) then
      some (signed negative (cappedExponent digits))
    else none

/-- Reads an optional sign, digits with at most one point among or beside them, and an optional
exponent. -/
def parse? (cs : List Char) : Option Decimal :=
  let (negative, unsigned) := takeSign cs
  let whole := unsigned.takeWhile (isDigit 10)
  let (fraction, rest) := match unsigned.dropWhile (isDigit 10) with
    | '.' :: tail => (tail.takeWhile (isDigit 10), tail.dropWhile (isDigit 10))
    | tail => ([], tail)
  if whole.isEmpty && fraction.isEmpty then none
  else (exponent? rest).map fun e =>
    ⟨negative, ofDigits 10 (whole ++ fraction), e - fraction.length⟩

/-! ## Writing -/

/-- Moves the trailing zeros of a coefficient into the exponent. -/
def trim (coefficient : Nat) (exponent : Int) : Nat × Int :=
  if h : coefficient ≠ 0 ∧ coefficient % 10 = 0 then trim (coefficient / 10) (exponent + 1)
  else (coefficient, exponent)
termination_by coefficient
decreasing_by omega

/-- The digits of the coefficient. -/
def digits (d : Decimal) : List Char :=
  Nat.toDigits 10 d.coefficient

/-- The place of the point, counted in digits from the first one. -/
def point (d : Decimal) : Int :=
  d.digits.length + d.exponent

/-- The sign as it is written. -/
def sign (d : Decimal) : List Char :=
  if d.negative then ['-'] else []

/-- The number without a power of ten: digits, and a point only before a fraction. -/
def positional (d : Decimal) : List Char :=
  d.sign ++
    if 0 ≤ d.exponent then d.digits ++ List.replicate d.exponent.toNat '0'
    else if 0 < d.point then
      d.digits.take d.point.toNat ++ '.' :: d.digits.drop d.point.toNat
    else '0' :: '.' :: List.replicate (-d.point).toNat '0' ++ d.digits

/-- The number with its first digit before the point and a signed power of ten after it. -/
def scientific (d : Decimal) : List Char :=
  let power := d.point - 1
  let fraction := match d.digits.drop 1 with
    | [] => []
    | tail => '.' :: tail
  d.sign ++ d.digits.take 1 ++ fraction ++ 'e' :: (if power < 0 then '-' else '+') ::
    Nat.toDigits 10 power.natAbs

end Decimal

end QueryFilter
