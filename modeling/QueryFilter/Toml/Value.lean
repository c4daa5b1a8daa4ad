import QueryFilter.Text.Numeral

/-!
# TOML values

A table remembers how it was written, since that decides what may be added to it: a table of a
header is closed to dotted keys, a table that a longer header implies may still get a header of its
own, and an inline table is closed to everything.

* `Toml.IntegerLiteral`, whose value is only asked for where it is used;
* `Toml.Value`, `Toml.TableForm`;
* `Toml.Path`: the names that lead to an entry;
* `Toml.addPair`: an entry under a dotted key;
* `Toml.within`, `Toml.openTable`, `Toml.openElement`: the effect of headers.
-/

namespace QueryFilter.Toml

/-- How a table was written. -/
inductive TableForm where
  /-- Under a header of its own. -/
  | header
  /-- By the header of a table inside it. -/
  | implied
  /-- By a dotted key. -/
  | dotted
  /-- In braces. -/
  | inline
  deriving DecidableEq

/-- An integer as it is written: its base, its sign, and the characters behind them without
underscores. A document may hold an integer whose characters are no digits of its base. -/
structure IntegerLiteral where
  base : Nat
  negative : Bool
  digits : List Char
  deriving DecidableEq

/-- The value of an integer, which digits of its base have to write. -/
def IntegerLiteral.value? (l : IntegerLiteral) : Option Int :=
  (Numeral.naturalIn? l.base l.digits).map (Numeral.signed l.negative)

/-- A value. Numbers and points in time are kept as they are written, and an array tells whether
headers wrote it. -/
inductive Value where
  | string (s : String)
  | integer (literal : IntegerLiteral)
  | float (literal : String)
  | boolean (b : Bool)
  | moment (literal : String)
  | array (ofHeaders : Bool) (items : List Value)
  | table (form : TableForm) (entries : List (String × Value))

mutual

/-- Whether two values are the same. -/
def Value.decEq : (v w : Value) → Decidable (v = w)
  | .string s, w => match w with
    | .string t => decidable_of_iff (s = t) (by simp)
    | .integer _ | .float _ | .boolean _ | .moment _ | .array .. | .table .. => isFalse nofun
  | .integer l, w => match w with
    | .integer m => decidable_of_iff (l = m) (by simp)
    | .string _ | .float _ | .boolean _ | .moment _ | .array .. | .table .. => isFalse nofun
  | .float s, w => match w with
    | .float t => decidable_of_iff (s = t) (by simp)
    | .string _ | .integer _ | .boolean _ | .moment _ | .array .. | .table .. => isFalse nofun
  | .boolean a, w => match w with
    | .boolean b => decidable_of_iff (a = b) (by simp)
    | .string _ | .integer _ | .float _ | .moment _ | .array .. | .table .. => isFalse nofun
  | .moment s, w => match w with
    | .moment t => decidable_of_iff (s = t) (by simp)
    | .string _ | .integer _ | .float _ | .boolean _ | .array .. | .table .. => isFalse nofun
  | .array a vs, w => match w with
    | .array b ws =>
      have := decEqItems vs ws
      decidable_of_iff (a = b ∧ vs = ws) (by simp)
    | .string _ | .integer _ | .float _ | .boolean _ | .moment _ | .table .. => isFalse nofun
  | .table f es, w => match w with
    | .table g ds =>
      have := decEqEntries es ds
      decidable_of_iff (f = g ∧ es = ds) (by simp)
    | .string _ | .integer _ | .float _ | .boolean _ | .moment _ | .array .. => isFalse nofun

/-- Whether two arrays have the same items. -/
def Value.decEqItems : (vs ws : List Value) → Decidable (vs = ws)
  | [], [] => isTrue rfl
  | v :: vs, w :: ws =>
    have := v.decEq w
    have := decEqItems vs ws
    decidable_of_iff (v = w ∧ vs = ws) (by simp)
  | [], _ :: _ | _ :: _, [] => isFalse nofun

/-- Whether two tables have the same entries. -/
def Value.decEqEntries : (es ds : List (String × Value)) → Decidable (es = ds)
  | [], [] => isTrue rfl
  | (m, v) :: es, (n, w) :: ds =>
    have := v.decEq w
    have := decEqEntries es ds
    decidable_of_iff (m = n ∧ v = w ∧ es = ds) (by simp [and_assoc])
  | [], _ :: _ | _ :: _, [] => isFalse nofun

end

instance : DecidableEq Value := Value.decEq

/-- The names and values of a table, in written order. -/
abbrev Entries : Type := List (String × Value)

/-- A dotted key: the tables on the way, and the last name. -/
structure Path where
  parents : List String
  name : String

/-- Gives a name a value, at its place if it has one already. -/
def setEntry (name : String) (v : Value) : Entries → Entries
  | [] => [(name, v)]
  | (n, w) :: rest => if n = name then (n, v) :: rest else (n, w) :: setEntry name v rest

/-- Adds an entry under a dotted key. The tables on the way have to be new or made by dotted keys,
and the last name has to be new. -/
def addPair (name : String) (v : Value) : List String → Entries → Option Entries
  | [], es => if (es.lookup name).isSome then none else some (setEntry name v es)
  | parent :: parents, es =>
    match es.lookup parent with
    | none => (addPair name v parents []).map fun inner =>
        setEntry parent (.table .dotted inner) es
    | some (.table .dotted inner) => (addPair name v parents inner).map fun inner =>
        setEntry parent (.table .dotted inner) es
    | some _ => none

/-- Changes the table that the names of a header lead to. A missing table is implied; of an array
that headers wrote, the last table is meant. -/
def within (change : Entries → Option Entries) : List String → Entries → Option Entries
  | [], es => change es
  | name :: names, es =>
    match es.lookup name with
    | none => (within change names []).map fun inner => setEntry name (.table .implied inner) es
    | some (.table .inline _) => none
    | some (.table form inner) => (within change names inner).map fun inner =>
        setEntry name (.table form inner) es
    | some (.array true items) =>
      match items.getLast? with
      | some (.table form inner) => (within change names inner).map fun inner =>
          setEntry name (.array true (items.dropLast ++ [.table form inner])) es
      | _ => none
    | some _ => none

/-- Opens a table for its header: a new one, or one that was only implied. -/
def openTable (name : String) (es : Entries) : Option Entries :=
  match es.lookup name with
  | none => some (setEntry name (.table .header []) es)
  | some (.table .implied inner) => some (setEntry name (.table .header inner) es)
  | some _ => none

/-- Opens the next table of an array for its header. -/
def openElement (name : String) (es : Entries) : Option Entries :=
  match es.lookup name with
  | none => some (setEntry name (.array true [.table .header []]) es)
  | some (.array true items) =>
    some (setEntry name (.array true (items ++ [.table .header []])) es)
  | some _ => none

end QueryFilter.Toml
