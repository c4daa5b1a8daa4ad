import QueryFilter.Operator

/-!
# Query keys

A key names an attribute and an operator. It is split at its last underscore if the part behind it
is an operator suffix and the part before it is not empty; otherwise the whole key is the
attribute, and the operator is exact match.

* `Token`: an attribute and an operator;
* `splitLast?`: a text cut at the last separator;
* **`Token.ofKey`**: the token of a key, and `Token.key`, a key of a token;
* `isAddressable`: whether a name, as a key, names itself;
* **`Token.key_ofKey`**, `Token.ofKey_suffixed`: splitting loses nothing, and every suffix behind a
  name is split off.
-/

namespace QueryFilter

/-- The character between an attribute and an operator suffix. -/
def separator : Char := '_'

/-- The parts of a text before and after its last separator. -/
def splitLast? (cs : List Char) : Option (List Char × List Char) :=
  match cs.reverse.dropWhile (· ≠ separator) with
  | [] => none
  | _ :: before => some (before.reverse, (cs.reverse.takeWhile (· ≠ separator)).reverse)

/-- A cut is found where a separator is followed by none. -/
theorem splitLast?_eq_some_iff {cs before after : List Char} :
    splitLast? cs = some (before, after) ↔
      cs = before ++ separator :: after ∧ separator ∉ after := by
  constructor
  · intro h
    unfold splitLast? at h
    have whole := List.takeWhile_append_dropWhile (p := (· ≠ separator)) (l := cs.reverse)
    split at h
    · cases h
    · next c front eq =>
      simp only [Option.some.injEq, Prod.mk.injEq] at h
      obtain ⟨rfl, rfl⟩ := h
      have hc : c = separator := by
        have := List.head?_dropWhile_not (· ≠ separator) cs.reverse
        rw [eq] at this
        simpa using this
      subst hc
      rw [eq] at whole
      refine ⟨?_, fun hm => ?_⟩
      · have := congrArg List.reverse whole
        simpa using this.symm
      · have := List.all_eq_true.1 List.all_takeWhile _ (List.mem_reverse.1 hm)
        simp at this
  · rintro ⟨rfl, h⟩
    unfold splitLast?
    have hr : (before ++ separator :: after).reverse =
        after.reverse ++ separator :: before.reverse := by simp
    have hall : ∀ c ∈ after.reverse, (decide (c ≠ separator)) = true := by
      intro c hc
      simp only [ne_eq, decide_eq_true_eq]
      rintro rfl
      exact h (List.mem_reverse.1 hc)
    rw [hr, List.dropWhile_append_of_pos hall, List.takeWhile_append_of_pos hall]
    simp

/-- An attribute and the operator to compare it with. -/
structure Token where
  attr : String
  operator : Operator
  deriving DecidableEq

namespace Token

/-- The token of a key. -/
def ofKey (key : String) : Token :=
  match splitLast? key.toList with
  | some (c :: before, after) =>
    match Operator.ofSuffix? (String.ofList after) with
    | some op => ⟨String.ofList (c :: before), op⟩
    | none => ⟨key, .eq⟩
  | _ => ⟨key, .eq⟩

/-- The key that writes a token: the attribute alone for exact match, and the attribute with a
suffix for any other operator. -/
def key (t : Token) : String :=
  match t.operator with
  | .eq => t.attr
  | op => t.attr ++ (separator.toString ++ op.token)

end Token

/-- Whether a name, read as a key, is the attribute of that key. A name that ends in an operator
suffix is not, since the suffix is split off. -/
def isAddressable (attr : String) : Bool :=
  (Token.ofKey attr).attr = attr

/-! ## Splitting loses nothing -/

theorem Operator.separator_not_mem_token (op : Operator) : separator ∉ op.token.toList := by
  cases op <;> decide

namespace Token

/-- A key is cut before a suffix, or kept whole. -/
theorem ofKey_eq (key : String) :
    (∃ attr op, attr ≠ "" ∧ op ≠ Operator.eq ∧ key = attr ++ (separator.toString ++ op.token) ∧
      ofKey key = ⟨attr, op⟩) ∨ ofKey key = ⟨key, .eq⟩ := by
  unfold ofKey
  split
  · next c before after h =>
    split
    · next op hop =>
      obtain ⟨hne, htoken⟩ := Operator.ofSuffix?_eq_some_iff.1 hop
      obtain ⟨hkey, -⟩ := splitLast?_eq_some_iff.1 h
      refine .inl ⟨String.ofList (c :: before), op, by simp, hne, ?_, rfl⟩
      rw [htoken, ← String.toList_inj, hkey]
      simp
    · exact .inr rfl
  · exact .inr rfl

/-- **The key of the token of a key is that key.** -/
theorem key_ofKey (key : String) : (ofKey key).key = key := by
  rcases ofKey_eq key with ⟨attr, op, -, hop, hkey, h⟩ | h
  · rw [h, Token.key]
    cases op <;> first | exact absurd rfl hop | exact hkey.symm
  · rw [h]; rfl

/-- A key with an operator suffix behind a name is split there. -/
theorem ofKey_suffixed {attr : String} {op : Operator} (ha : attr ≠ "") (hop : op ≠ .eq) :
    ofKey (attr ++ (separator.toString ++ op.token)) = ⟨attr, op⟩ := by
  have hsplit : splitLast? (attr ++ (separator.toString ++ op.token)).toList =
      some (attr.toList, op.token.toList) :=
    splitLast?_eq_some_iff.2 ⟨by simp, op.separator_not_mem_token⟩
  unfold ofKey
  rw [hsplit]
  cases hl : attr.toList with
  | nil => exact absurd (String.toList_inj.1 (by simpa using hl)) ha
  | cons c rest =>
    simp only [String.ofList_toList, Operator.ofSuffix?_eq_some_iff.2 ⟨hop, rfl⟩, ← hl]

end Token

end QueryFilter
