/-!
# Numerals

Integers written in decimal, and the digits of other bases.

* `ofDigits`: the number that a string of digits of some base writes; `ofDigits_eq_foldl` reads it
  digit by digit;
* `natural?`, `int64?`, `uint32?`: numerals, with the signs and ranges that each kind admits;
* `decimal`, `hexadecimal`: numbers written out.
-/

namespace QueryFilter.Numeral

/-! ## Digits -/

/-- The value of a hexadecimal digit; letters of either case count from ten. -/
def value? (c : Char) : Option Nat :=
  if '0' ≤ c ∧ c ≤ '9' then some (c.toNat - '0'.toNat)
  else if 'a' ≤ c ∧ c ≤ 'f' then some (c.toNat - 'a'.toNat + 10)
  else if 'A' ≤ c ∧ c ≤ 'F' then some (c.toNat - 'A'.toNat + 10)
  else none

/-- The value of a digit of a base up to sixteen. -/
def digit? (base : Nat) (c : Char) : Option Nat :=
  (value? c).filter (· < base)

/-- Whether a character is a digit of a base. -/
def isDigit (base : Nat) (c : Char) : Bool :=
  (digit? base c).isSome

/-- The number that a number becomes with one more digit behind it. -/
def pushDigit (base n : Nat) (c : Char) : Nat :=
  base * n + (digit? base c).getD 0

/-- The number that digits write, computed from those of its two halves, which are halved in turn
`depth` times. A long numeral thus takes few multiplications of long numbers. -/
def halved (base : Nat) : Nat → List Char → Nat
  | 0, digits => digits.foldl (pushDigit base) 0
  | depth + 1, digits =>
    let high := digits.take (digits.length / 2)
    let low := digits.drop (digits.length / 2)
    halved base depth high * Nat.pow base low.length + halved base depth low

/-- The number that digits of a base write, the most significant first. -/
def ofDigits (base : Nat) (digits : List Char) : Nat :=
  halved base (digits.length / 32).log2 digits

theorem foldl_pushDigit (base n : Nat) (digits : List Char) :
    digits.foldl (pushDigit base) n =
      n * Nat.pow base digits.length + digits.foldl (pushDigit base) 0 := by
  induction digits generalizing n with
  | nil => simp
  | cons c digits ih =>
    rw [List.foldl_cons, List.foldl_cons, ih (pushDigit base n c), ih (pushDigit base 0 c)]
    simp only [pushDigit, List.length_cons, Nat.mul_zero, Nat.zero_add, Nat.add_mul]
    rw [Nat.mul_comm base n, Nat.mul_assoc, Nat.mul_comm base, Nat.add_assoc]
    rfl

theorem halved_eq_foldl (base depth : Nat) (digits : List Char) :
    halved base depth digits = digits.foldl (pushDigit base) 0 := by
  induction depth generalizing digits with
  | zero => rfl
  | succ depth ih =>
    conv => rhs; rw [← List.take_append_drop (digits.length / 2) digits, List.foldl_append,
      foldl_pushDigit]
    simp only [halved, ih]

/-- Digits are read one by one, each multiplying what stands before it by the base. -/
theorem ofDigits_eq_foldl (base : Nat) (digits : List Char) :
    ofDigits base digits = digits.foldl (pushDigit base) 0 :=
  halved_eq_foldl base _ digits

/-- The digit of a value below sixteen, letters in lower case. -/
def digitChar (value : Nat) : Char :=
  if value < 10 then Char.ofNat ('0'.toNat + value) else Char.ofNat ('a'.toNat + value - 10)

/-! ## Reading -/

/-- The number that one or more digits of a base write. -/
def naturalIn? (base : Nat) (cs : List Char) : Option Nat :=
  if !cs.isEmpty && cs.all (isDigit base) then some (ofDigits base cs) else none

/-- The number that one or more decimal digits write. -/
def natural? (cs : List Char) : Option Nat :=
  naturalIn? 10 cs

/-- Splits off one leading sign; the first component tells whether it was a minus. -/
def takeSign : List Char → Bool × List Char
  | '-' :: rest => (true, rest)
  | '+' :: rest => (false, rest)
  | cs => (false, cs)

/-- The integer of a sign and an absolute value. -/
def signed (negative : Bool) (n : Nat) : Int :=
  if negative then -(n : Int) else n

/-- The integer that an optional sign and decimal digits write. -/
def integer? (cs : List Char) : Option Int :=
  let (negative, digits) := takeSign cs
  (natural? digits).map (signed negative)

/-- An integer numeral whose value fits into 64 bits with sign. -/
def int64? (s : String) : Option Int64 :=
  (integer? s.toList).bind fun i =>
    if Int64.minValue.toInt ≤ i ∧ i ≤ Int64.maxValue.toInt then some (Int64.ofInt i) else none

/-- A natural number below 2^32 as a word. -/
def word32? (n : Nat) : Option UInt32 :=
  if n < UInt32.size then some (UInt32.ofNat n) else none

/-- A numeral with at most a plus sign whose value fits into 32 bits. -/
def uint32? (s : String) : Option UInt32 :=
  let digits := match s.toList with
    | '+' :: rest => rest
    | cs => cs
  (natural? digits).bind word32?

/-! ## Writing -/

/-- The decimal digits of a number, without leading zeros. -/
def decimal (n : Nat) : String :=
  String.ofList (Nat.toDigits 10 n)

/-- The decimal digits of an integer, after a minus sign if it is negative. -/
def decimalInt (i : Int) : String :=
  match i with
  | .ofNat n => decimal n
  | .negSucc n => "-" ++ decimal (n + 1)

/-- The last `width` hexadecimal digits of a number, in lower case. -/
def hexadecimal : Nat → Nat → List Char
  | 0, _ => []
  | width + 1, n => digitChar (n / Nat.pow 16 width % 16) :: hexadecimal width n

end QueryFilter.Numeral
