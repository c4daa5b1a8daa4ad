import QueryFilter.CompiledQuery
import QueryFilter.Identifier
import QueryFilter.Sql.Dialect

/-!
# Statements

A compiled query as a statement with bound parameters. A statement is a sequence of words with one
space between them. Values are never part of it: each stands behind a placeholder, numbered in the
order of the parameters.

* `Sql.conditionWords`, `Sql.conjunction`: the conditions of a filter;
* **`Sql.whereClause`**: the conditions as text, with their parameters;
* **`Sql.select`**, **`Sql.count`**: the statements for a page of a listing and for its total.
-/

namespace QueryFilter.Sql

/-! ## Conditions -/

/-- The sign that compares a column with a parameter; containment has none. -/
def comparison? : Operator → Option String
  | .eq => some "="
  | .ne => some "!="
  | .gt => some ">"
  | .gte => some ">="
  | .lt => some "<"
  | .lte => some "<="
  | .like => none

/-- The words of one condition, whose value is the parameter of a number. -/
def conditionWords (d : Dialect) (p : Predicate) (n : UInt64) : List String :=
  match comparison? p.operator with
  | some sign => [p.attr, sign, d.placeholder n]
  | none => d.containment p.attr n

/-- The words of conditions that all have to hold, with parameters numbered from `n`. -/
def conjunction (d : Dialect) (n : UInt64) : List Predicate → List String
  | [] => []
  | [p] => conditionWords d p n
  | p :: q :: rest => conditionWords d p n ++ "AND" :: conjunction d (n + 1) (q :: rest)

/-- The text of a sequence of words. -/
def text (words : List String) : String :=
  " ".intercalate words

/-- The conditions of a filter, their parameters, and the first number that is free after them. -/
structure WhereClause where
  sql : String
  params : List Value
  next : UInt64

/-- The parameters of a filter, in the order of its predicates. -/
def params (f : Filter) : List Value :=
  f.predicates.map (·.value)

/-- **The conditions of a filter**, with parameters numbered from `start`; the text is empty if the
filter is. -/
def whereClause (d : Dialect) (f : Filter) (start : UInt64) : WhereClause where
  sql := text (conjunction d start f.predicates)
  params := params f
  next := start + UInt64.ofNat f.predicates.length

/-! ## Statements -/

/-- A statement and the parameters bound to its placeholders. -/
structure Statement where
  sql : String
  params : List Value
  deriving DecidableEq

/-- The words of a list of columns, with commas between them; no column means all. -/
def columnWords : List String → List String
  | [] => ["*"]
  | [column] => [column]
  | column :: next :: rest => (column ++ ",") :: columnWords (next :: rest)

/-- The words of the restriction to a filter; none if it requires nothing. -/
def restrictionWords (d : Dialect) (f : Filter) : List String :=
  match f.predicates with
  | [] => []
  | ps => "WHERE" :: conjunction d 1 ps

/-- The words that cut out a page. -/
def pageWords (p : Pagination) : List String :=
  ["LIMIT", Numeral.decimal p.take.toNat, "OFFSET", Numeral.decimal p.skip.toNat]

/-- **The statement for a page of a listing.** Fails for a name that is not an identifier, of
several for the table or else the first column. -/
def select (d : Dialect) (table : String) (columns : List String) (q : CompiledQuery) :
    Except InvalidIdentifier Statement := do
  checkIdentifier "table" table
  columns.forM (checkIdentifier "column")
  return {
    sql := text ("SELECT" :: columnWords columns ++ "FROM" :: table :: restrictionWords d q.filter
      ++ pageWords q.pagination)
    params := params q.filter }

/-- The statement for a page of a listing, with a report. -/
def selectTraced (d : Dialect) (table : String) (columns : List String) (q : CompiledQuery) :
    Traced (Except InvalidIdentifier Statement) :=
  match select d table columns q with
  | .error e => pure (.error e)
  | .ok statement => do
    Traced.emit (.selectRendered d.name table statement.params.length)
    return .ok statement

/-- **The statement for the total of a listing.** Fails if the table is not an identifier. -/
def count (d : Dialect) (table : String) (f : Filter) : Except InvalidIdentifier Statement := do
  checkIdentifier "table" table
  return {
    sql := text ("SELECT" :: "COUNT(*)" :: "FROM" :: table :: restrictionWords d f)
    params := params f }

end QueryFilter.Sql
