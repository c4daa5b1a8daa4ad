/-!
# Comparison operators

* `Operator`: the seven comparisons that a query key can carry;
* `Operator.token`: the name of an operator;
* `Operator.ofSuffix?`: the operator that a key's suffix names. Exact match has no suffix.
-/

namespace QueryFilter

/-- A comparison between an attribute and a value. -/
inductive Operator where
  /-- Exact match. -/
  | eq
  /-- Not equal. -/
  | ne
  /-- Greater than. -/
  | gt
  /-- Greater than or equal. -/
  | gte
  /-- Less than. -/
  | lt
  /-- Less than or equal. -/
  | lte
  /-- Contains, ignoring case. -/
  | like
  deriving DecidableEq, Inhabited

namespace Operator

/-- Every operator. -/
def all : List Operator := [eq, ne, gt, gte, lt, lte, like]

/-- The operators that a key names by a suffix. -/
def suffixed : List Operator := [lte, gte, lt, gt, ne, like]

/-- The name of an operator. -/
def token : Operator → String
  | eq => "eq"
  | ne => "ne"
  | gt => "gt"
  | gte => "gte"
  | lt => "lt"
  | lte => "lte"
  | like => "like"

/-- The operator of a name. -/
def ofToken? (token : String) : Option Operator :=
  all.find? (·.token = token)

/-- The operator that a suffix names; exact match is never written as one. -/
def ofSuffix? (suffix : String) : Option Operator :=
  suffixed.find? (·.token = suffix)

/-- Whether the operator compares by size, so that it needs a number. -/
def isRange : Operator → Bool
  | gt | gte | lt | lte => true
  | eq | ne | like => false

theorem token_injective {a b : Operator} (h : a.token = b.token) : a = b := by
  cases a <;> cases b <;> first | rfl | exact absurd h (by decide)

theorem mem_suffixed_iff {op : Operator} : op ∈ suffixed ↔ op ≠ eq := by
  cases op <;> decide

theorem ofSuffix?_eq_some_iff {suffix : String} {op : Operator} :
    ofSuffix? suffix = some op ↔ op ≠ eq ∧ op.token = suffix := by
  constructor
  · intro h
    have hm := List.mem_of_find?_eq_some h
    exact ⟨mem_suffixed_iff.1 hm, by simpa using List.find?_some h⟩
  · rintro ⟨h, rfl⟩
    cases op <;> first | rfl | exact absurd rfl h

end Operator

end QueryFilter
