import QueryFilter.Toml.Reader

/-!
# Reading TOML: strings

Strings in double quotes know escapes, strings in single quotes do not. Three quotes open a string
that may run over several lines; a line end right behind them is not part of it.

* `Toml.escape?`: an escape sequence, which writes a scalar value;
* `Toml.shortString`: strings on one line, which also serve as keys;
* `Toml.string`: all strings.
-/

namespace QueryFilter.Toml

/-! ## Escapes -/

/-- The character that a letter stands for behind a backslash. -/
def simpleEscape? (c : Char) : Option Char :=
  match c with
  | 'b' => some '\x08'
  | 'e' => some '\x1b'
  | 'f' => some '\x0c'
  | 'n' => some '\n'
  | 'r' => some '\r'
  | 't' => some '\t'
  | '"' => some '"'
  | '\\' => some '\\'
  | _ => none

/-- The number of hexadecimal digits behind a letter that writes a character by its number. -/
def escapeWidth? (c : Char) : Option Nat :=
  match c with
  | 'x' => some 2
  | 'u' => some 4
  | 'U' => some 8
  | _ => none

/-- The character whose number is written by the first `width` characters. Surrogates and numbers
above U+10FFFF write none. -/
def numbered? (width : Nat) (cs : List Char) : Option Char :=
  let digits := cs.take width
  if digits.length = width then
    (Numeral.naturalIn? 16 digits).bind fun n =>
      if n.isValidChar then some (Char.ofNat n) else none
  else none

/-- The character that an escape writes, and the length of the escape behind the backslash. -/
def escape? : List Char → Option (Char × Nat)
  | [] => none
  | c :: rest =>
    match simpleEscape? c with
    | some d => some (d, 1)
    | none => (escapeWidth? c).bind fun width => (numbered? width rest).map (·, width + 1)

/-! ## Strings on one line -/

/-- Reads a string in double quotes behind the opening quote; `done` is reversed. -/
def basicRest (done cs : List Char) : Option (String × List Char) :=
  match cs with
  | [] => none
  | c :: rest =>
    if c = '"' then some (String.ofList done.reverse, rest)
    else if c = '\\' then
      match escape? rest with
      | some (d, n) => basicRest (d :: done) (rest.drop n)
      | none => none
    else if isTextChar c then basicRest (c :: done) rest
    else none
termination_by cs.length
decreasing_by all_goals (simp only [List.length_cons, List.length_drop]; omega)

/-- Reads a string in single quotes behind the opening quote. -/
def literalRest (cs : List Char) : Option (String × List Char) :=
  let body := cs.takeWhile (· ≠ '\'')
  match cs.dropWhile (· ≠ '\'') with
  | [] => none
  | _ :: rest => if body.all isTextChar then some (String.ofList body, rest) else none

/-- Reads a string on one line. -/
def shortString : Reader String
  | '"' :: rest => basicRest [] rest
  | '\'' :: rest => literalRest rest
  | _ => none

/-! ## Strings over several lines -/

/-- Whether nothing but spaces stands before the end of the line. -/
def blankToLineEnd (cs : List Char) : Bool :=
  match cs.dropWhile isSpace with
  | '\n' :: _ => true
  | '\r' :: '\n' :: _ => true
  | _ => false

/-- Drops a line end. -/
def dropLineEnd : List Char → List Char
  | '\n' :: rest => rest
  | '\r' :: '\n' :: rest => rest
  | cs => cs

/-- Reads a string behind three opening quotes; `done` is reversed. Up to two quotes may stand
right before the three closing ones. In double quotes, a backslash before a line end drops the
blanks behind it: `folding` tells whether they are being dropped. -/
def multilineRest (quote : Char) (folding : Bool) (done cs : List Char) :
    Option (String × List Char) :=
  match cs with
  | [] => none
  | '\r' :: '\n' :: rest =>
    multilineRest quote folding (if folding then done else '\n' :: '\r' :: done) rest
  | c :: rest =>
    if c = quote then
      let run := (rest.takeWhile (· = quote)).length + 1
      if 3 ≤ run then
        let inner := min (run - 3) 2
        some (String.ofList (done.reverse ++ List.replicate inner quote), cs.drop (inner + 3))
      else multilineRest quote false (c :: done) rest
    else if folding && (c == '\n' || isSpace c) then multilineRest quote true done rest
    else if quote = '"' ∧ c = '\\' then
      if blankToLineEnd rest then multilineRest quote true done rest
      else match escape? rest with
        | some (d, n) => multilineRest quote false (d :: done) (rest.drop n)
        | none => none
    else if c = '\n' ∨ isTextChar c then multilineRest quote false (c :: done) rest
    else none
termination_by cs.length
decreasing_by all_goals (simp only [List.length_cons, List.length_drop]; omega)

/-- Reads a string of any kind. -/
def string : Reader String
  | '"' :: '"' :: '"' :: rest => multilineRest '"' false [] (dropLineEnd rest)
  | '\'' :: '\'' :: '\'' :: rest => multilineRest '\'' false [] (dropLineEnd rest)
  | cs => shortString cs

end QueryFilter.Toml
