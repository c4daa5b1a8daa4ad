import QueryFilter.Binary64.Basic

/-!
# The shortest decimal of a floating-point number

Of the decimals that read back as a number, those with the fewest digits are candidates, and the
nearest candidate is chosen. On the grid of `n` digits only the two neighbours of the number can
be the nearest candidate, so these are tried for `n = 1, 2, …, 17`.

* `Binary64.Tie`: the choice between two candidates that are equally near;
* `Binary64.leadingPower`: the power of ten of the first digit;
* **`Binary64.shortest`**: the shortest decimal that reads back.
-/

namespace QueryFilter.Binary64

/-- Which of two equally near decimals is chosen. -/
inductive Tie where
  /-- The one that is greater in magnitude. -/
  | away
  /-- The one whose last digit is even. -/
  | even
  deriving DecidableEq

/-- The finite magnitude as a fraction. -/
def fraction (magnitude : Nat) : Nat × Nat :=
  let (m, q) := grid magnitude
  scale 2 m 1 (-q)

/-- The power of ten of the first digit of a positive fraction. The estimate from the binary
logarithm is off by one at most. -/
def leadingPower (num den : Nat) : Int :=
  let estimate := (((num.log2 : Int) - den.log2) * 30103).fdiv 100000
  let reaches (power : Int) : Bool :=
    let (n, d) := scale 10 num den power
    d ≤ n
  if reaches (estimate + 1) then estimate + 1
  else if reaches estimate then estimate
  else estimate - 1

/-- The decimal `coefficient · 10 ^ exponent` without trailing zeros, with the sign of `x`. -/
def candidate (x : Binary64) (coefficient : Nat) (exponent : Int) : Decimal :=
  let (c, e) := Decimal.trim coefficient exponent
  ⟨x.negative, c, e⟩

/-- The nearest decimal with `n` digits that reads back as `x`, if there is one. -/
def shortestOn? (tie : Tie) (x : Binary64) (num den : Nat) (power : Int) (n : Nat) :
    Option Decimal :=
  let exponent := power + 1 - n
  let (scaledNum, scaledDen) := scale 10 num den exponent
  let below := scaledNum / scaledDen
  let remainder := scaledNum % scaledDen
  let low := candidate x below exponent
  let high := candidate x (below + 1) exponent
  let upward :=
    if 2 * remainder = scaledDen then tie = .away ∨ below % 2 = 1 else scaledDen < 2 * remainder
  let (first, second) := if upward then (high, low) else (low, high)
  if ofDecimal first = x then some first
  else if ofDecimal second = x then some second
  else none

/-- All digits of a finite number: `m · 2 ^ q` is `m · 5 ^ (-q)` over a power of ten. -/
def exact (x : Binary64) : Decimal :=
  let (m, q) := grid x.magnitude
  candidate x (m <<< q.toNat * Nat.pow 5 (-q).toNat) (min q 0)

/-- **The shortest decimal that reads back as a finite number**, and of those the nearest. -/
def shortest (tie : Tie) (x : Binary64) : Decimal :=
  if x.magnitude = 0 then ⟨x.negative, 0, 0⟩
  else
    let (num, den) := fraction x.magnitude
    let power := leadingPower num den
    ((List.range 17).findSome? fun n => shortestOn? tie x num den power (n + 1)).getD (exact x)

end QueryFilter.Binary64
