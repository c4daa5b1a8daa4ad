import QueryFilter.Operator

/-!
# Rejected queries

A query is rejected as a whole, with one error for each key at fault.

* `Reason`, `KeyError`: why a key is rejected, and the key;
* `QueryError`: one or more key errors, with `QueryError.message`, `QueryError.details` and
  `QueryError.get?`;
* `QueryError.ofErrors?`: the rejection for a list of errors; an empty list is no rejection.
-/

namespace QueryFilter

/-- Why a key is rejected. -/
inductive Reason where
  /-- The attribute cannot be filtered by. -/
  | unknownAttribute (attr : String)
  /-- The attribute admits exact match only. -/
  | illegalOperator (attr : String) (operator : Operator)
  /-- The operator needs a number, and the value is none. -/
  | notANumber (operator : Operator) (value : String)
  deriving DecidableEq

namespace Reason

/-- The name of the kind of reason. -/
def kind : Reason → String
  | unknownAttribute .. => "unknown_attribute"
  | illegalOperator .. => "illegal_operator_for_field"
  | notANumber .. => "value_coercion_failure"

/-- The wording of a reason. -/
def message : Reason → String
  | unknownAttribute a => "unknown attribute `" ++ a ++ "`"
  | illegalOperator a op =>
    "operator `" ++ op.token ++ "` is not allowed on `" ++ a ++ "`, only exact match is"
  | notANumber op value => "operator `" ++ op.token ++ "` needs a number, got `" ++ value ++ "`"

end Reason

/-- A rejected key. -/
structure KeyError where
  key : String
  reason : Reason
  deriving DecidableEq

/-- The wording of a key error. -/
def KeyError.message (e : KeyError) : String :=
  "`" ++ e.key ++ "`: " ++ e.reason.message

/-- A rejected query: its key errors, of which there is at least one. -/
structure QueryError where
  errors : List KeyError
  errors_ne_nil : errors ≠ []
  deriving DecidableEq

namespace QueryError

/-- The rejection for a list of errors, if there are any. -/
def ofErrors? (errors : List KeyError) : Option QueryError :=
  if h : errors ≠ [] then some ⟨errors, h⟩ else none

/-- The rejected keys. -/
def keys (e : QueryError) : List String :=
  e.errors.map (·.key)

/-- The reason for which a key was rejected. -/
def get? (e : QueryError) (key : String) : Option Reason :=
  (e.errors.find? (·.key = key)).map (·.reason)

/-- One line for each rejected key. -/
def details (e : QueryError) : List String :=
  e.errors.map KeyError.message

/-- The wording of a rejection: all its keys. -/
def message (e : QueryError) : String :=
  "invalid query parameters: " ++ ", ".intercalate e.keys

end QueryError

end QueryFilter
