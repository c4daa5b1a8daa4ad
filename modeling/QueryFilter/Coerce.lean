import QueryFilter.Rejection
import QueryFilter.Value

/-!
# Coercion of values

The text of a value becomes what its operator compares with. A comparison by size needs a number;
`ne` takes a number where there is one and `eq` a truth value or a number, else the text; `like`
takes the text as it is.

* `number?`: an integer of 64 bits, else a finite floating-point number;
* **`coerce`**.
-/

namespace QueryFilter

/-- The truth value that a text names. -/
def truthValue? : String → Option Value
  | "true" => some (.bool true)
  | "false" => some (.bool false)
  | _ => none

/-- The integer that a text writes, if it fits into 64 bits with sign. -/
def integerValue? (raw : String) : Option Value :=
  (Numeral.int64? raw).map .int

/-- The finite number nearest to the decimal that a text writes. -/
def decimalValue? (raw : String) : Option Value :=
  ((Decimal.parse? raw.toList).map Binary64.ofDecimal).bind fun x =>
    if x.isFinite then some (.float x) else none

/-- The number that a text writes. -/
def number? (raw : String) : Option Value :=
  integerValue? raw <|> decimalValue? raw

/-- **The value to compare with**, or why there is none. -/
def coerce (op : Operator) (raw : String) : Except Reason Value :=
  match op with
  | .gt | .gte | .lt | .lte =>
    match number? raw with
    | some v => .ok v
    | none => .error (.notANumber op raw)
  | .ne => .ok ((number? raw).getD (.text raw))
  | .like => .ok (.text raw)
  | .eq => .ok ((truthValue? raw <|> number? raw).getD (.text raw))

end QueryFilter
