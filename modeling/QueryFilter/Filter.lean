import QueryFilter.KeyMap
import QueryFilter.Operator
import QueryFilter.Value

/-!
# Filters

A filter holds the conditions of a query, grouped by attribute. The attributes are in ascending
order, and the conditions of one attribute in the order in which they were added.

* `Condition`, `Predicate`: a comparison, and a comparison with its attribute;
* `Filter`, with `push`, `extend`, `ofPredicates` and `get`;
* **`Filter.predicates`**: all predicates of a filter, in its order.
-/

namespace QueryFilter

/-- A comparison with a value. -/
structure Condition where
  operator : Operator
  value : Value
  deriving DecidableEq

/-- A comparison of an attribute with a value. -/
structure Predicate where
  attr : String
  operator : Operator
  value : Value
  deriving DecidableEq

/-- The condition of a predicate. -/
def Predicate.condition (p : Predicate) : Condition :=
  ⟨p.operator, p.value⟩

/-- The predicate that puts a condition on an attribute. -/
def Condition.on (attr : String) (c : Condition) : Predicate :=
  ⟨attr, c.operator, c.value⟩

/-- Whether two conditions have one operator and agreeing values. -/
def Condition.agrees (a b : Condition) : Bool :=
  a.operator == b.operator && a.value.agrees b.value

/-- The conditions of a query by attribute. All of them have to hold. -/
structure Filter where
  byAttribute : KeyMap (List Condition)
  deriving DecidableEq

namespace Filter

/-- The filter that admits everything. -/
def empty : Filter := ⟨.empty⟩

/-- The conditions on an attribute, in the order in which they were added. -/
def get (f : Filter) (attr : String) : List Condition :=
  (f.byAttribute.get? attr).getD []

/-- Adds a predicate behind those of its attribute. -/
def push (f : Filter) (p : Predicate) : Filter :=
  ⟨f.byAttribute.insert p.attr (f.get p.attr ++ [p.condition])⟩

/-- Adds predicates in order. -/
def extend (f : Filter) (ps : List Predicate) : Filter :=
  ps.foldl push f

/-- The filter of some predicates. -/
def ofPredicates (ps : List Predicate) : Filter :=
  empty.extend ps

/-- The attributes with conditions, in ascending order. -/
def attributes (f : Filter) : List String :=
  f.byAttribute.keys

/-- **The predicates**, by ascending attribute and then in the order in which they were added. -/
def predicates (f : Filter) : List Predicate :=
  f.byAttribute.entries.flatMap fun (attr, conditions) =>
    conditions.map (Condition.on attr)

/-- The number of predicates. -/
def size (f : Filter) : Nat :=
  (f.byAttribute.values.map List.length).foldl (· + ·) 0

/-- Whether nothing is required. -/
def isEmpty (f : Filter) : Bool :=
  f.byAttribute.isEmpty

/-- Whether two filters have the same attributes with agreeing conditions. -/
def agrees (f g : Filter) : Bool :=
  f.byAttribute.entries.isEqv g.byAttribute.entries fun a b =>
    a.1 == b.1 && a.2.isEqv b.2 Condition.agrees

end Filter

end QueryFilter
