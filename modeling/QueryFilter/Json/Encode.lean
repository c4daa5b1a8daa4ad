import QueryFilter.CompiledQuery
import QueryFilter.Json.Basic

/-!
# JSON forms

The JSON values of operators, values, filters, compiled queries and rejections.

* `Value.toJson`: truth values, numbers and texts as what they are; a floating-point number that is
  not finite is `null`;
* `Filter.toJson`: an object from attributes to lists of conditions;
* **`CompiledQuery.toJson`**, **`QueryError.toJson`**.
-/

namespace QueryFilter

/-- A natural number as JSON. -/
def Json.natural (n : Nat) : Json :=
  .number (Numeral.decimal n)

/-- An operator as JSON: its name. -/
def Operator.toJson (op : Operator) : Json :=
  .string op.token

/-- A value as JSON. -/
def Value.toJson : Value → Json
  | bool b => .bool b
  | int i => .number (Numeral.decimalInt i.toInt)
  | float x => match x.literal? with
    | some token => .number token
    | none => .null
  | text s => .string s

/-- A condition as JSON. -/
def Condition.toJson (c : Condition) : Json :=
  .object [("op", c.operator.toJson), ("value", c.value.toJson)]

/-- A predicate as JSON. -/
def Predicate.toJson (p : Predicate) : Json :=
  .object [("attribute", .string p.attr), ("op", p.operator.toJson), ("value", p.value.toJson)]

/-- A filter as JSON: the conditions of each attribute. -/
def Filter.toJson (f : Filter) : Json :=
  .object (f.byAttribute.entries.map fun (attr, conditions) =>
    (attr, .array (conditions.map Condition.toJson)))

/-- A page as JSON. -/
def Pagination.toJson (p : Pagination) : Json :=
  .object [("page", .natural p.page.toNat), ("limit", .natural p.limit.toNat)]

/-- **A compiled query as JSON.** -/
def CompiledQuery.toJson (q : CompiledQuery) : Json :=
  .object [("filter", q.filter.toJson), ("pagination", q.pagination.toJson),
    ("reserved", .object (q.reserved.entries.map fun (key, value) => (key, .string value)))]

/-- The reason of a rejection as JSON: its kind, and what it is about. -/
def Reason.toJson (r : Reason) : Json :=
  .object <| ("kind", .string r.kind) :: match r with
    | unknownAttribute attr => [("attribute", .string attr)]
    | illegalOperator attr op => [("attribute", .string attr), ("operator", op.toJson)]
    | notANumber op value => [("operator", op.toJson), ("value", .string value)]

/-- A key error as JSON. -/
def KeyError.toJson (e : KeyError) : Json :=
  .object [("key", .string e.key), ("reason", e.reason.toJson)]

/-- **A rejected query as JSON.** -/
def QueryError.toJson (e : QueryError) : Json :=
  .object [("errors", .array (e.errors.map KeyError.toJson))]

end QueryFilter
