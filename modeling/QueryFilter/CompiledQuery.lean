import QueryFilter.Coerce
import QueryFilter.FieldSpec.Route
import QueryFilter.Filter

/-!
# Compiled queries

A query is compiled in stages: every key is routed, then every value is coerced, and only then the
result is put together. A stage looks at all parameters before it decides, so that a rejection
names every key at fault in that stage; nothing partial is returned.

* `CompiledQuery`: a filter, a page and the parameters handed on untouched;
* `routingErrors`, `coercionErrors`: the rejections of the two stages, in key order;
* `acceptedPredicates`, `reservedParameters`: what the parameters become;
* **`compile`**: the result, with its report (`compileTraced`).
-/

namespace QueryFilter

/-- What an accepted query asks for. -/
structure CompiledQuery where
  filter : Filter
  pagination : Pagination
  reserved : KeyMap String
  deriving DecidableEq

namespace FieldSpec

/-! ## The stages -/

/-- The error of a key that has no route. -/
def routingError? (spec : FieldSpec) (key : String) : Option KeyError :=
  match spec.route key with
  | .ok _ => none
  | .error reason => some ⟨key, reason⟩

/-- The token of a key that is routed to the filter. -/
def filterToken? (spec : FieldSpec) (key : String) : Option Token :=
  match spec.route key with
  | .ok (.filter token) => some token
  | _ => none

/-- Whether a key is routed past the filter untouched. -/
def handsOn (spec : FieldSpec) (key : String) : Bool :=
  match spec.route key with
  | .ok .reserved => true
  | _ => false

/-- The error of a parameter whose value does not suit its operator. -/
def coercionError? (spec : FieldSpec) (key value : String) : Option KeyError :=
  (spec.filterToken? key).bind fun token =>
    match coerce token.operator value with
    | .ok _ => none
    | .error reason => some ⟨key, reason⟩

/-- The predicate that a parameter becomes. -/
def predicate? (spec : FieldSpec) (key value : String) : Option Predicate :=
  (spec.filterToken? key).bind fun token =>
    match coerce token.operator value with
    | .ok v => some ⟨token.attr, token.operator, v⟩
    | .error _ => none

/-- The errors of all keys that have no route. -/
def routingErrors (spec : FieldSpec) (raw : RawQuery) : List KeyError :=
  raw.entries.filterMap fun e => spec.routingError? e.1

/-- The errors of all values that do not suit their operators. -/
def coercionErrors (spec : FieldSpec) (raw : RawQuery) : List KeyError :=
  raw.entries.filterMap fun e => spec.coercionError? e.1 e.2

/-- The predicates of all parameters that become one, in key order. -/
def acceptedPredicates (spec : FieldSpec) (raw : RawQuery) : List Predicate :=
  raw.entries.filterMap fun e => spec.predicate? e.1 e.2

/-- The parameters that are handed on untouched. -/
def reservedParameters (spec : FieldSpec) (raw : RawQuery) : KeyMap String :=
  raw.filter fun key _ => spec.handsOn key

/-! ## Compilation -/

/-- Reports and returns a rejection. -/
def reject (error : QueryError) : Traced (Except QueryError CompiledQuery) := do
  Traced.emit (.filterRejected error.errors.length error.message)
  return .error error

/-- Compiles a query, with a report of the outcome. -/
def compileTraced (spec : FieldSpec) (raw : RawQuery) :
    Traced (Except QueryError CompiledQuery) :=
  match QueryError.ofErrors? (spec.routingErrors raw) <|>
      QueryError.ofErrors? (spec.coercionErrors raw) with
  | some error => reject error
  | none => do
    let filter := Filter.ofPredicates (spec.acceptedPredicates raw)
    let pagination ← spec.limits.extract raw
    Traced.emit (.filterCompiled filter.size pagination.page pagination.limit)
    return .ok ⟨filter, pagination, spec.reservedParameters raw⟩

/-- **Compiles a query** to what it asks for, or rejects it with every key at fault. -/
def compile (spec : FieldSpec) (raw : RawQuery) : Except QueryError CompiledQuery :=
  (spec.compileTraced raw).value

end FieldSpec

end QueryFilter
