import QueryFilter.Key
import Mathlib.Data.String.Basic

/-!
# Keys of an attribute

A key is an attribute, or an attribute with a suffix behind an underscore, and it can be told which.

* `Token.ofKey_cases`, `Token.ofKey_suffix`: how a key is split;
* `Token.ofKey_injective`: no two keys are split alike;
* `isAddressable_iff`, `isAddressable_eq_false_iff`: the names that are attributes of their own
  keys, and those that are split;
* `Operator.inKeyOrder`, **`Token.key_lt_key_iff`**: the order of the keys of one attribute.
-/

namespace QueryFilter

namespace Token

variable {attr : String} {op : Operator}

/-! ## Splitting -/

theorem key_of_ne_eq (h : op ≠ .eq) : key ⟨attr, op⟩ = attr ++ "_" ++ op.token := by
  rw [String.append_assoc]
  cases op <;> first | exact absurd rfl h | rfl

theorem key_eq : key ⟨attr, .eq⟩ = attr := rfl

theorem ofKey_suffix (ha : attr ≠ "") (ho : op ≠ .eq) :
    ofKey (attr ++ "_" ++ op.token) = ⟨attr, op⟩ := by
  rw [String.append_assoc]
  exact ofKey_suffixed ha ho

theorem ofKey_cases (key : String) :
    (∃ attr op, attr ≠ "" ∧ op ≠ Operator.eq ∧ key = attr ++ "_" ++ op.token ∧
      ofKey key = ⟨attr, op⟩) ∨ ofKey key = ⟨key, .eq⟩ := by
  rcases ofKey_eq key with ⟨attr, op, ha, ho, hkey, h⟩ | h
  · exact .inl ⟨attr, op, ha, ho, by rw [String.append_assoc]; exact hkey, h⟩
  · exact .inr h

theorem exists_suffix_of_ne_eq {key : String} (h : (ofKey key).operator ≠ .eq) :
    ∃ attr op, attr ≠ "" ∧ op ≠ Operator.eq ∧ key = attr ++ "_" ++ op.token ∧
      ofKey key = ⟨attr, op⟩ :=
  (ofKey_cases key).resolve_right fun e => h (by rw [e])

/-- No two keys are split alike. -/
theorem ofKey_injective {k k' : String} (h : ofKey k = ofKey k') : k = k' := by
  rw [← key_ofKey k, h, key_ofKey]

end Token

theorem isAddressable_iff {attr : String} :
    isAddressable attr = true ↔ Token.ofKey attr = ⟨attr, .eq⟩ := by
  rw [isAddressable, decide_eq_true_eq]
  constructor
  · intro h
    rcases Token.ofKey_cases attr with ⟨a, op, -, -, hkey, hof⟩ | hof
    · have ha : a = attr := by rw [hof] at h; exact h
      have hl := congrArg String.length hkey
      rw [ha, String.length_append, String.length_append] at hl
      have hone : ("_" : String).length = 1 := rfl
      omega
    · exact hof
  · intro h
    rw [h]

/-- The names that are split as keys are those that end in a suffix. -/
theorem isAddressable_eq_false_iff {name : String} : isAddressable name = false ↔
    ∃ stem op, stem ≠ "" ∧ op ≠ Operator.eq ∧ name = stem ++ "_" ++ op.token := by
  rw [← Bool.not_eq_true, isAddressable_iff]
  constructor
  · intro h
    obtain ⟨stem, op, hstem, hop, hname, -⟩ := (Token.ofKey_cases name).resolve_right h
    exact ⟨stem, op, hstem, hop, hname⟩
  · rintro ⟨stem, op, hstem, hop, rfl⟩ h
    rw [Token.ofKey_suffix hstem hop] at h
    exact hop (congrArg Token.operator h)

/-! ## Order -/

/-- The operators in the order of their keys. -/
def Operator.inKeyOrder : List Operator := [eq, gt, gte, like, lt, lte, ne]

theorem Operator.mem_inKeyOrder (op : Operator) : op ∈ inKeyOrder := by
  cases op <;> decide

namespace Token

variable {attr : String} {op op' : Operator}

/-- What an operator adds to the key of an attribute. -/
def suffix : Operator → List Char
  | .eq => []
  | op => separator :: op.token.toList

theorem toList_key : (key ⟨attr, op⟩).toList = attr.toList ++ suffix op := by
  by_cases h : op = .eq
  · rw [h, key_eq, suffix, List.append_nil]
  · rw [key_of_ne_eq h, String.toList_append, String.toList_append, List.append_assoc]
    cases op <;> first | exact absurd rfl h | rfl

theorem suffix_lt_suffix (h : Operator.inKeyOrder.idxOf op < Operator.inKeyOrder.idxOf op') :
    suffix op < suffix op' := by
  revert h
  cases op <;> cases op' <;> decide

theorem key_lt_key (h : Operator.inKeyOrder.idxOf op < Operator.inKeyOrder.idxOf op') :
    key ⟨attr, op⟩ < key ⟨attr, op'⟩ := by
  rw [String.lt_iff_toList_lt, toList_key, toList_key]
  exact List.append_left_lt (suffix_lt_suffix h)

/-- **The keys of one attribute** are in the order of their operators. -/
theorem key_lt_key_iff : key ⟨attr, op⟩ < key ⟨attr, op'⟩ ↔
    Operator.inKeyOrder.idxOf op < Operator.inKeyOrder.idxOf op' := by
  refine ⟨fun h => ?_, key_lt_key⟩
  rcases lt_trichotomy (Operator.inKeyOrder.idxOf op) (Operator.inKeyOrder.idxOf op') with
    lt | eq | gt
  · exact lt
  · rw [(List.idxOf_inj (Operator.mem_inKeyOrder op)).1 eq] at h
    exact absurd h (lt_irrefl _)
  · exact absurd h (lt_asymm (key_lt_key gt))

end Token

end QueryFilter
