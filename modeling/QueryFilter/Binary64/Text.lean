import QueryFilter.Binary64.Shortest

/-!
# Floating-point numbers as text

Two written forms of a number, each with the digits of the shortest decimal.

* `Binary64.plain`: never a power of ten, and a point only before a fraction;
* `Binary64.literal?`: a number token, which always shows that it is no integer; only finite
  numbers have one.
-/

namespace QueryFilter.Binary64

/-- The plain form: digits with a point where there is a fraction, or a name. Of two equally near
decimals it takes the greater. -/
def plain (x : Binary64) : String :=
  if x.isNaN then "NaN"
  else if !x.isFinite then (if x.negative then "-inf" else "inf")
  else String.ofList (shortest .away x).positional

/-- The token of a finite number. The power of ten of the first digit decides its form: from -5 to
15 the number is positional, with a zero after the point if there is no fraction, and otherwise
scientific. Of two equally near decimals it takes the even one. -/
def literal? (x : Binary64) : Option String :=
  if !x.isFinite then none
  else
    let d := shortest .even x
    let power := d.point - 1
    some <| String.ofList <|
      if -5 ≤ power ∧ power ≤ 15 then
        d.positional ++ if 0 ≤ d.exponent then ['.', '0'] else []
      else d.scientific

end QueryFilter.Binary64
