import QueryFilter.Text.Numeral

/-!
# Reading TOML: characters and blanks

A reader takes characters from the front of a text; it fails on text that it does not admit.

* `Toml.Reader`, with `expect` and `accept`;
* the character classes of the format;
* `Toml.skipSpace`, `Toml.skipBlank`: what may stand between the parts of a line and between lines.
-/

namespace QueryFilter.Toml

/-- A computation that takes characters from the front of a text, or fails. -/
abbrev Reader : Type → Type := StateT (List Char) Option

/-! ## Character classes -/

/-- Space and tab. -/
def isSpace (c : Char) : Bool :=
  c == ' ' || c == '\t'

/-- The characters of comments and of strings on one line: tab, the printable ASCII characters and
everything beyond ASCII. -/
def isTextChar (c : Char) : Bool :=
  c == '\t' || (' ' ≤ c && c != '\x7f')

/-- The characters of a key that is not quoted. -/
def isBareKeyChar (c : Char) : Bool :=
  c.isAlphanum || c == '-' || c == '_'

/-- Double and single quotes. -/
def isQuote (c : Char) : Bool :=
  c == '"' || c == '\''

/-- The characters of a value that is neither quoted nor bracketed. -/
def isScalarChar (c : Char) : Bool :=
  !(isSpace c || ['\n', '\r', '#', ',', '=', '[', ']', '\x7b', '\x7d'].contains c)

/-! ## Single characters -/

/-- Takes a given character. -/
def expect (c : Char) : Reader Unit
  | d :: rest => if d = c then some ((), rest) else none
  | [] => none

/-- Takes a given character if it is the next one, and tells whether it was. -/
def accept (c : Char) : Reader Bool
  | d :: rest => if d = c then some (true, rest) else some (false, d :: rest)
  | [] => some (false, [])

/-! ## Blanks -/

/-- What remains behind spaces, line ends and comments; `comment` tells whether the text starts
inside a comment. A carriage return must stand before a line feed. -/
def dropBlank? (comment : Bool) : List Char → Option (List Char)
  | [] => some []
  | '\n' :: rest => dropBlank? false rest
  | '\r' :: '\n' :: rest => dropBlank? false rest
  | c :: rest =>
    if comment then if isTextChar c then dropBlank? true rest else none
    else if isSpace c then dropBlank? false rest
    else if c = '#' then dropBlank? true rest
    else some (c :: rest)

/-- Skips spaces, line ends and comments. -/
def skipBlank : Reader Unit := fun cs =>
  (dropBlank? false cs).map ((), ·)

/-- Skips spaces. -/
def skipSpace : Reader Unit := fun cs =>
  some ((), cs.dropWhile isSpace)

/-- Skips spaces up to the end of a line or the comment that ends it. -/
def endOfLine : Reader Unit := fun cs =>
  match cs.dropWhile isSpace with
  | [] => some ((), [])
  | c :: rest => if c = '\n' ∨ c = '\r' ∨ c = '#' then some ((), c :: rest) else none

end QueryFilter.Toml
