import QueryFilter.Toml.Scalar
import QueryFilter.Toml.Text

/-!
# Reading TOML: documents

* `Toml.path`: dotted keys;
* `Toml.value`: values, with a bound on how deep arrays and inline tables are nested;
* `Toml.Statement`: a header, or a key and its value;
* **`Toml.parse`**: the entries of a document.
-/

namespace QueryFilter.Toml

/-- The greatest depth of arrays and inline tables inside each other. -/
def maxDepth : Nat := 80

/-- The greatest number of names in a dotted key. -/
def maxNames : Nat := 80

/-! ## Keys -/

/-- Reads one name: bare, or quoted on one line. -/
def keyName : Reader String := fun cs =>
  match cs.takeWhile isBareKeyChar with
  | [] => shortString cs
  | name => some (String.ofList name, cs.dropWhile isBareKeyChar)

/-- Reads the names behind the first one, at most `left` of them; `parents` is reversed. -/
def pathRest (left : Nat) (parents : List String) (name : String) : Reader Path := do
  skipSpace
  if ← accept '.' then
    match left with
    | 0 => failure
    | left + 1 => do
      skipSpace
      let next ← keyName
      pathRest left (name :: parents) next
  else return ⟨parents.reverse, name⟩

/-- Reads a dotted key, and the spaces behind it. -/
def path : Reader Path := do
  let name ← keyName
  pathRest (maxNames - 1) [] name

/-! ## Values -/

/-- Reads the items of an array behind its opening bracket; `done` is reversed. Here and below,
`fuel` is at least the length of the text, and each item or entry takes at least one character. -/
def itemsRest (item : Reader Value) (fuel : Nat) (done : List Value) : Reader (List Value) := do
  skipBlank
  if ← accept ']' then return done.reverse
  match fuel with
  | 0 => failure
  | fuel + 1 => do
    let v ← item
    skipBlank
    if ← accept ',' then itemsRest item fuel (v :: done)
    else do
      expect ']'
      return (v :: done).reverse

/-- Reads the entries of an inline table behind its opening brace. -/
def entriesRest (item : Reader Value) (fuel : Nat) (done : Entries) : Reader Entries := do
  skipBlank
  if ← accept '\x7d' then return done
  match fuel with
  | 0 => failure
  | fuel + 1 => do
    let p ← path
    skipBlank
    expect '='
    skipBlank
    let v ← item
    let es ← (addPair p.name v p.parents done : Option Entries)
    skipBlank
    if ← accept ',' then entriesRest item fuel es
    else do
      expect '\x7d'
      return es

/-- Reads a string or a scalar. -/
def leaf : Reader Value := fun cs =>
  match cs with
  | '"' :: _ | '\'' :: _ => (string cs).map fun (s, rest) => (.string s, rest)
  | _ => scalar cs

/-- Reads a value in which arrays and inline tables are nested at most to a depth. -/
def value (fuel : Nat) : Nat → Reader Value
  | 0 => leaf
  | depth + 1 => do
    if ← accept '[' then return .array false (← itemsRest (value fuel depth) fuel [])
    else if ← accept '\x7b' then
      return .table .inline (← entriesRest (value fuel depth) fuel [])
    else leaf

/-! ## Documents -/

/-- A part of a document. -/
inductive Statement where
  /-- The header of a table. -/
  | header (path : Path)
  /-- The header of the next table of an array. -/
  | element (path : Path)
  /-- A key and its value. -/
  | pair (path : Path) (v : Value)

/-- Reads a statement up to the end of its line. -/
def statement (fuel : Nat) : Reader Statement := do
  if ← accept '[' then
    if ← accept '[' then
      skipSpace
      let p ← path
      expect ']'
      expect ']'
      endOfLine
      return .element p
    else
      skipSpace
      let p ← path
      expect ']'
      endOfLine
      return .header p
  else
    let p ← path
    expect '='
    skipSpace
    let v ← value fuel maxDepth
    endOfLine
    return .pair p v

/-- Reads statements up to the end of the text; `done` is reversed. -/
def statements (fuel : Nat) (done : List Statement) : Reader (List Statement) := do
  skipBlank
  if (← get).isEmpty then return done.reverse
  match fuel with
  | 0 => failure
  | fuel + 1 => do
    let s ← statement fuel
    statements fuel (s :: done)

/-- A document while it is put together: its entries, and the table that the last header opened. -/
structure Assembly where
  current : List String
  entries : Entries

/-- The effect of a statement. -/
def Assembly.add (a : Assembly) : Statement → Option Assembly
  | .header p => (within (openTable p.name) p.parents a.entries).map
      (⟨p.parents ++ [p.name], ·⟩)
  | .element p => (within (openElement p.name) p.parents a.entries).map
      (⟨p.parents ++ [p.name], ·⟩)
  | .pair p v => (within (addPair p.name v p.parents) a.current a.entries).map (⟨a.current, ·⟩)

/-- **The entries of a document**; a byte order mark before it is skipped. -/
def parse (document : String) : Option Entries := do
  let cs := match document.toList with
    | '\uFEFF' :: rest => rest
    | cs => cs
  let (parts, _) ← (statements (cs.length + 1) []).run cs
  let assembly ← parts.foldlM Assembly.add ⟨[], []⟩
  return assembly.entries

end QueryFilter.Toml
