import QueryFilter.FieldSpec.Basic
import QueryFilter.Identifier
import QueryFilter.Key

/-!
# Building field specifications

A builder collects names and limits in any order. Building checks them and reports the first fault:
first names of both kinds, then faulty attributes, then reserved keys that are attributes, then
limits, and within each step the names in ascending order.

* `FieldSpecError`: the faults, with `FieldSpecError.message`;
* `FieldSpec.Builder`, with a function for each kind of name and limit;
* **`FieldSpec.Builder.build`**.
-/

namespace QueryFilter

/-- A page size of an endpoint that can be configured. -/
inductive LimitField where
  | default
  | max
  deriving DecidableEq

/-- The configuration name of a page size. -/
def LimitField.name : LimitField → String
  | default => "default_limit"
  | max => "max_limit"

/-- A fault in the filter rules of an endpoint. -/
inductive FieldSpecError where
  /-- An attribute is both equality-only and any-operator. -/
  | overlap (attr : String)
  /-- A name is empty. -/
  | emptyName
  /-- An attribute is not an identifier. -/
  | invalidName (attr : String)
  /-- An attribute ends in an operator suffix, so that it is not the attribute of its own key. -/
  | unaddressable (attr : String)
  /-- A reserved key is also an attribute. -/
  | reservedConflict (key : String)
  /-- A page size is zero. -/
  | zeroLimit (field : LimitField)
  /-- The default page size is greater than the greatest one. -/
  | defaultAboveMax (default max : UInt32)
  deriving DecidableEq

/-- The wording of a fault. -/
def FieldSpecError.message : FieldSpecError → String
  | overlap a => "attribute `" ++ a ++ "` is both equality-only and any-operator"
  | emptyName => "attribute names must not be empty"
  | invalidName a => "attribute `" ++ a ++ "` must be an ASCII identifier of at most 63 chars"
  | unaddressable a => "attribute `" ++ a ++ "` ends in an operator suffix and cannot be queried"
  | reservedConflict k => "reserved key `" ++ k ++ "` is also a filterable attribute"
  | zeroLimit field => field.name ++ " must be at least 1"
  | defaultAboveMax default max =>
    "default limit " ++ Numeral.decimal default.toNat ++ " exceeds max limit " ++
      Numeral.decimal max.toNat

namespace FieldSpec

/-- The names and limits collected so far. -/
structure Builder where
  equalityOnly : List String := []
  anyOperator : List String := []
  reserved : List String := []
  defaultLimit : Option UInt32 := none
  maxLimit : Option UInt32 := none

namespace Builder

/-! ## Collecting -/

/-- Adds attributes that admit exact match only. -/
def addEqualityOnly (b : Builder) (names : List String) : Builder :=
  { b with equalityOnly := b.equalityOnly ++ names }

/-- Adds attributes that admit every operator. -/
def addAnyOperator (b : Builder) (names : List String) : Builder :=
  { b with anyOperator := b.anyOperator ++ names }

/-- Adds keys that are handed on untouched. -/
def addReserved (b : Builder) (keys : List String) : Builder :=
  { b with reserved := b.reserved ++ keys }

/-- Sets the default page size. -/
def setDefaultLimit (b : Builder) (limit : UInt32) : Builder :=
  { b with defaultLimit := some limit }

/-- Sets the greatest page size. -/
def setMaxLimit (b : Builder) (limit : UInt32) : Builder :=
  { b with maxLimit := some limit }

/-! ## Checking -/

/-- The first name, in ascending order, that is in both sets. -/
def overlap? (equalityOnly anyOperator : NameSet) : Option FieldSpecError :=
  (equalityOnly.keys.find? anyOperator.contains).map .overlap

/-- The fault of an attribute name. -/
def attributeFault? (attr : String) : Option FieldSpecError :=
  if attr.isEmpty then some .emptyName
  else if !isIdentifier attr then some (.invalidName attr)
  else if !isAddressable attr then some (.unaddressable attr)
  else none

/-- The fault of a key that is kept from filtering. -/
def reservedFault? (isAttribute : String → Bool) (key : String) : Option FieldSpecError :=
  if key.isEmpty then some .emptyName
  else if isAttribute key then some (.reservedConflict key)
  else none

/-- The page sizes, or the first fault in them. -/
def checkLimits (default? max? : Option UInt32) : Except FieldSpecError PageLimits :=
  if default? = some 0 then .error (.zeroLimit .default)
  else
    let default := default?.getD QueryFilter.defaultLimit
    match max? with
    | none => .ok { default }
    | some max =>
      if max = 0 then .error (.zeroLimit .max)
      else if max < default then .error (.defaultAboveMax default max)
      else .ok { default, max := some max }

/-- **Builds the filter rules**, or reports the first fault. -/
def build (b : Builder) : Except FieldSpecError FieldSpec :=
  let equalityOnly := NameSet.ofList b.equalityOnly
  let anyOperator := NameSet.ofList b.anyOperator
  let reserved := NameSet.ofList b.reserved
  let attributes := equalityOnly.keys ++ anyOperator.keys
  let isAttribute name := equalityOnly.contains name || anyOperator.contains name
  let fault? :=
    overlap? equalityOnly anyOperator <|>
    attributes.findSome? attributeFault? <|>
    (reserved.keys ++ paginationKeys).findSome? (reservedFault? isAttribute)
  match fault? with
  | some fault => .error fault
  | none => (checkLimits b.defaultLimit b.maxLimit).map fun limits =>
    ⟨equalityOnly, anyOperator, reserved, limits⟩

end Builder

end FieldSpec

end QueryFilter
