import QueryFilter.Pagination

/-!
# Field specifications

The filter rules of an endpoint: the attributes that admit exact match only, those that admit every
operator, the further keys that are handed on untouched, and the page sizes. Whatever is not named
is refused.

* `FieldSpec`.
-/

namespace QueryFilter

/-- The filter rules of an endpoint. -/
structure FieldSpec where
  equalityOnly : NameSet
  anyOperator : NameSet
  reserved : NameSet
  limits : PageLimits
  deriving DecidableEq

namespace FieldSpec

/-- Whether an attribute admits exact match only. -/
def isEqualityOnly (spec : FieldSpec) (attr : String) : Bool :=
  spec.equalityOnly.contains attr

/-- Whether an attribute admits every operator. -/
def isAnyOperator (spec : FieldSpec) (attr : String) : Bool :=
  spec.anyOperator.contains attr

/-- Whether a key is handed on untouched. -/
def isReserved (spec : FieldSpec) (key : String) : Bool :=
  spec.reserved.contains key

end FieldSpec

end QueryFilter
