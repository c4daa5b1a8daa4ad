import QueryFilter.Text.Numeral

/-!
# Dialects

What differs between the databases: the placeholder of a bound parameter, and the comparison that
ignores case.

* `Sql.Dialect`, with `name`, `placeholder` and `containment`.
-/

namespace QueryFilter.Sql

/-- The language of a database. -/
inductive Dialect where
  /-- Placeholders are written `$n`, and `ILIKE` ignores case. -/
  | postgres
  /-- Placeholders are written `?n`, and `LIKE` ignores the case of ASCII letters. -/
  | sqlite
  deriving DecidableEq

namespace Dialect

/-- The name of a dialect. -/
def name : Dialect → String
  | postgres => "postgres"
  | sqlite => "sqlite"

/-- The mark of a placeholder. -/
def mark : Dialect → String
  | postgres => "$"
  | sqlite => "?"

/-- The keyword of a pattern match that ignores case. -/
def likeKeyword : Dialect → String
  | postgres => "ILIKE"
  | sqlite => "LIKE"

/-- The placeholder of a numbered parameter. -/
def placeholder (d : Dialect) (n : UInt64) : String :=
  d.mark ++ Numeral.decimal n.toNat

/-- The words that require a column to contain a numbered parameter. -/
def containment (d : Dialect) (column : String) (n : UInt64) : List String :=
  [column, d.likeKeyword, "'%'", "||", d.placeholder n, "||", "'%'"]

end Dialect

end QueryFilter.Sql
