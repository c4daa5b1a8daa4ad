import QueryFilter.FieldSpec.Basic
import QueryFilter.Key
import QueryFilter.Rejection

/-!
# Routing of keys

* `Route`: where a key of a query goes;
* **`FieldSpec.route`**: the route of a key, or why the key is rejected.
-/

namespace QueryFilter

/-- Where a key goes. -/
inductive Route where
  /-- It selects the page. -/
  | pagination
  /-- It is handed on untouched. -/
  | reserved
  /-- It becomes a predicate. -/
  | filter (token : Token)
  deriving DecidableEq

/-- **The route of a key.** The pagination keys and the reserved keys are matched whole; any other
key is split, and its attribute and operator have to be admitted. -/
def FieldSpec.route (spec : FieldSpec) (key : String) : Except Reason Route :=
  if paginationKeys.contains key then .ok .pagination
  else if spec.isReserved key then .ok .reserved
  else
    let token := Token.ofKey key
    if spec.isEqualityOnly token.attr then
      if token.operator = .eq then .ok (.filter token)
      else .error (.illegalOperator token.attr token.operator)
    else if spec.isAnyOperator token.attr then .ok (.filter token)
    else .error (.unknownAttribute token.attr)

end QueryFilter
