import QueryFilter.Text.Cut
import QueryFilter.Toml.Reader
import QueryFilter.Toml.Value

/-!
# Reading TOML: numbers, truth values and points in time

* `Toml.underscoresFit`: where underscores may stand in a number;
* `Toml.based?`, `Toml.decimal?`, `Toml.isFloat`: numbers;
* `Toml.dateTime`: dates, times, and both together with or without an offset;
* `Toml.word?`: the value of any of these;
* **`Toml.scalar`**: reads one.
-/

namespace QueryFilter.Toml

open Numeral

/-! ## Numbers -/

/-- Whether every underscore stands right behind a digit and right before one; `behind` tells
whether a digit stands before the text. -/
def underscoresFitBehind (digit : Char → Bool) (behind : Bool) : List Char → Bool
  | [] => true
  | c :: rest =>
    if c = '_' then behind && rest.head?.any digit && underscoresFitBehind digit false rest
    else underscoresFitBehind digit (digit c) rest

/-- Whether every underscore of a text stands right behind a digit and right before one. -/
def underscoresFit (digit : Char → Bool) (cs : List Char) : Bool :=
  underscoresFitBehind digit false cs

/-- Whether a text consists of digits and underscores, with at least one digit. -/
def isDigits (cs : List Char) : Bool :=
  cs.any (isDigit 10) && cs.all fun c => isDigit 10 c || c == '_'

/-- Whether no further character follows a zero at the beginning. -/
def noLeadingZero (cs : List Char) : Bool :=
  cs.head? != some '0' || cs.length == 1

/-- The integer literal of a base with the characters of a text, less its underscores. -/
def literal (base : Nat) (negative : Bool) (cs : List Char) : IntegerLiteral :=
  ⟨base, negative, cs.filter (· ≠ '_')⟩

/-- An integer behind the mark of its base, which no digit has to follow. -/
def based? (base : Nat) (cs : List Char) : Option IntegerLiteral :=
  if (cs.all fun c => isDigit base c || c == '_') && underscoresFit (isDigit base) cs then
    some (literal base false cs)
  else none

/-- A decimal integer behind its sign. Behind the first underscore any characters may follow, but
hexadecimal digits surround each underscore and no space stands among them. -/
def decimal? (negative : Bool) (unsigned : List Char) : Option IntegerLiteral :=
  let rest := unsigned.dropWhile (isDigit 10)
  if !unsigned.isEmpty && noLeadingZero unsigned && (rest.isEmpty || rest.head? == some '_') &&
      !rest.contains ' ' && underscoresFit (isDigit 16) unsigned then
    some (literal 10 negative unsigned)
  else none

/-- Whether a text is a floating-point number behind its sign: digits with a fraction, an exponent
or both. -/
def isFloat (unsigned : List Char) : Bool :=
  let isMark (c : Char) : Bool := c == 'e' || c == 'E'
  let mantissa := unsigned.takeWhile (!isMark ·)
  let whole := Text.before '.' mantissa
  let fractionFits := !mantissa.contains '.' || isDigits (Text.after '.' mantissa)
  let exponentFits := match unsigned.dropWhile (!isMark ·) with
    | [] => true
    | _ :: exponent => isDigits (takeSign exponent).2
  isDigits whole && noLeadingZero whole && fractionFits && exponentFits &&
    underscoresFit (isDigit 10) unsigned

/-! ## Points in time -/

/-- Reads a number of exactly `width` digits between two bounds. -/
def field (width low high : Nat) : Reader Nat := fun cs =>
  let digits := cs.take width
  if digits.length = width then
    (natural? digits).bind fun n =>
      if low ≤ n ∧ n ≤ high then some (n, cs.drop width) else none
  else none

/-- The number of days of a month. -/
def daysOf (year month : Nat) : Nat :=
  if month = 2 then
    if year % 4 = 0 ∧ (year % 100 ≠ 0 ∨ year % 400 = 0) then 29 else 28
  else if [4, 6, 9, 11].contains month then 30
  else 31

/-- Reads a date. -/
def date : Reader Unit := do
  let year ← field 4 0 9999
  expect '-'
  let month ← field 2 1 12
  expect '-'
  let _ ← field 2 1 (daysOf year month)

/-- Reads a time of day; seconds, and a fraction of them, may be left out. -/
def time : Reader Unit := do
  let _ ← field 2 0 23
  expect ':'
  let _ ← field 2 0 59
  if ← accept ':' then
    let _ ← field 2 0 60
    if ← accept '.' then
      let rest ← get
      if (rest.takeWhile (isDigit 10)).isEmpty then failure
      set (rest.dropWhile (isDigit 10))

/-- Reads an offset from universal time. -/
def offset : Reader Unit := fun cs =>
  match cs with
  | c :: rest =>
    if c = 'Z' ∨ c = 'z' then some ((), rest)
    else if c = '+' ∨ c = '-' then
      (do let _ ← field 2 0 23; expect ':'; let _ ← field 2 0 59 : Reader Unit) rest
    else none
  | [] => none

/-- Reads the end of the text. -/
def ending : Reader Unit
  | [] => some ((), [])
  | _ => none

/-- Reads a time and an optional offset, up to the end of the text. -/
def timeAndOffset : Reader Unit := do
  time
  ending <|> (do offset; ending)

/-- Reads what may follow a date: nothing, or a time and an optional offset. -/
def dayTime : Reader Unit
  | [] => some ((), [])
  | c :: rest => if c = 'T' ∨ c = 't' ∨ c = ' ' then timeAndOffset rest else none

/-- Reads a date, a date and a time, or a time, up to the end of the text. -/
def dateTime : Reader Unit :=
  (do date; dayTime) <|> (do time; ending)

/-! ## Scalars -/

/-- The number or point in time that a text writes. What stands behind its first digits tells its
kind: a time or a date has `:` or `-` there, and only floating-point numbers have `.`, `e` or `E`
further on. -/
def number? (cs : List Char) : Option Value :=
  let (negative, unsigned) := takeSign cs
  let rest := unsigned.dropWhile (isDigit 10)
  if rest.head? = some '-' ∨ rest.head? = some ':' then
    (dateTime.run cs).map fun _ => .moment (String.ofList cs)
  else if unsigned = ['i', 'n', 'f'] ∨ unsigned = ['n', 'a', 'n'] then
    some (.float (String.ofList cs))
  else if rest.any (['.', 'e', 'E'].contains ·) then
    if isFloat unsigned then some (.float (String.ofList cs)) else none
  else (decimal? negative unsigned).map .integer

/-- The value that the text of a scalar writes. -/
def word? (cs : List Char) : Option Value :=
  match cs with
  | '0' :: 'x' :: rest => (based? 16 rest).map .integer
  | '0' :: 'o' :: rest => (based? 8 rest).map .integer
  | '0' :: 'b' :: rest => (based? 2 rest).map .integer
  | _ =>
    if cs = ['t', 'r', 'u', 'e'] then some (.boolean true)
    else if cs = ['f', 'a', 'l', 's', 'e'] then some (.boolean false)
    else number? cs

/-- Splits the text of a scalar off. Blanks belong to it if more characters of it follow, as between
a date and a time, but not if a quote follows them. `done` and `blanks` are what has been read, both
reversed. -/
def spanScalar (done blanks : List Char) : List Char → List Char × List Char
  | [] => (done.reverse, blanks.reverse)
  | c :: rest =>
    if isSpace c then spanScalar done (c :: blanks) rest
    else if isScalarChar c && (blanks.isEmpty || !isQuote c) then
      spanScalar (c :: (blanks ++ done)) [] rest
    else (done.reverse, blanks.reverse ++ c :: rest)

/-- Reads a number, a truth value or a point in time. -/
def scalar : Reader Value := fun cs =>
  let (text, rest) := spanScalar [] [] cs
  (word? text).map (·, rest)

end QueryFilter.Toml
