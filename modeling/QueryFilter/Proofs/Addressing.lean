import QueryFilter.Proofs.Building

/-!
# The keys of an attribute

A key is split in one way, and nothing of it is lost. The keys that name an attribute are therefore
known: the attribute with each suffix behind it, and the attribute itself unless it ends in one.

* `Token.ofKey_eq_suffixed_iff`, `Token.ofKey_eq_whole_iff`: the key of each token;
* **`Token.splitting_exact`**: how keys are split, that no two are split alike, and which are kept
  whole;
* `Token.attr_ofKey_eq_iff`: the keys that name an attribute;
* **`addressable_exact`**: the addressable names, and what leads to the others;
  `unaddressable_reached`, a name that is refused although a key names it.
-/

namespace QueryFilter

open FieldSpec (Builder Given)

/-! ## Suffixes -/

/-- The suffixes are the names of all operators but exact match. -/
theorem exists_suffix_iff {p : String → Prop} :
    (∃ suffix ∈ Given.suffixes, p suffix) ↔ ∃ op, op ≠ Operator.eq ∧ p op.token := by
  constructor
  · rintro ⟨suffix, hsuffix, hp⟩
    obtain ⟨op, hop, rfl⟩ : ∃ op ∈ Operator.suffixed, op.token = suffix := List.mem_map.1 hsuffix
    exact ⟨op, Operator.mem_suffixed_iff.1 hop, hp⟩
  · rintro ⟨op, hop, hp⟩
    exact ⟨op.token, List.mem_map_of_mem (Operator.mem_suffixed_iff.2 hop), hp⟩

theorem isAddressable_iff_forall_ne {name : String} : isAddressable name = true ↔
    ∀ stem suffix, stem ≠ "" → suffix ∈ Given.suffixes → name ≠ stem ++ "_" ++ suffix := by
  rw [← Bool.not_eq_false, Builder.isAddressable_eq_false_iff_exists_suffix]
  constructor
  · exact fun h stem suffix hstem hsuffix hname => h ⟨stem, suffix, hstem, hsuffix, hname⟩
  · rintro h ⟨stem, suffix, hstem, hsuffix, hname⟩
    exact h stem suffix hstem hsuffix hname

namespace Token

variable {key attr name : String} {op : Operator}

/-! ## Splitting -/

theorem ofKey_eq_suffixed_iff (ho : op ≠ .eq) :
    ofKey key = ⟨attr, op⟩ ↔ attr ≠ "" ∧ key = attr ++ "_" ++ op.token := by
  constructor
  · intro h
    have hne : (ofKey key).operator ≠ .eq := by rwa [h]
    obtain ⟨stem, op', hstem, -, hkey, hof⟩ := exists_suffix_of_ne_eq hne
    cases h.symm.trans hof
    exact ⟨hstem, hkey⟩
  · rintro ⟨hattr, rfl⟩
    exact ofKey_suffix hattr ho

theorem ofKey_eq_whole_iff :
    ofKey key = ⟨attr, .eq⟩ ↔ attr = key ∧ isAddressable key = true := by
  constructor
  · intro h
    have hattr : attr = key := by rw [← key_ofKey key, h, key_eq]
    subst hattr
    exact ⟨rfl, isAddressable_iff.2 h⟩
  · rintro ⟨rfl, h⟩
    exact isAddressable_iff.1 h

/-- **Splitting is exact.** A key has an operator with a suffix if and only if it is a name, an
underscore and that suffix, whatever the name consists of; it is kept whole if and only if it is no
name with a suffix. So no two keys are split alike, and the addressable names are the keys that are
kept whole. -/
theorem splitting_exact :
    (∀ key attr op, op ≠ Operator.eq →
      (ofKey key = ⟨attr, op⟩ ↔ attr ≠ "" ∧ key = attr ++ "_" ++ op.token)) ∧
    (∀ key attr, ofKey key = ⟨attr, .eq⟩ ↔ attr = key ∧
      ∀ stem suffix, stem ≠ "" → suffix ∈ Given.suffixes → key ≠ stem ++ "_" ++ suffix) ∧
    Function.Injective ofKey ∧
    ∀ key, isAddressable key = true ↔ ofKey key = ⟨key, .eq⟩ := by
  refine ⟨fun key attr op ho => ofKey_eq_suffixed_iff ho, fun key attr => ?_,
    fun key key' => ofKey_injective, fun key => isAddressable_iff⟩
  rw [ofKey_eq_whole_iff, isAddressable_iff_forall_ne]

/-- Names that consist of operators and underscores, and two keys of which one is kept whole. -/
theorem splitting_exact_stacked :
    ofKey "gt_lt_like" = ⟨"gt_lt", .like⟩ ∧ ofKey "__gt" = ⟨"_", .gt⟩ ∧
    ofKey "_gt" = ⟨"_gt", .eq⟩ ∧ "like_like_ne" = "like_like" ++ "_" ++ Operator.ne.token ∧
    (∀ stem suffix, stem ≠ "" → suffix ∈ Given.suffixes → "age_eq" ≠ stem ++ "_" ++ suffix) ∧
    ofKey "__gt" ≠ ofKey "_gt" ∧ isAddressable "_gt" = true := by
  obtain ⟨hsuffixed, hwhole, hinjective, haddressable⟩ := splitting_exact
  have hgt : ofKey "_gt" = ⟨"_gt", .eq⟩ := by decide +kernel
  have heq : ofKey "age_eq" = ⟨"age_eq", .eq⟩ := by decide +kernel
  have hne : ofKey "like_like_ne" = ⟨"like_like", .ne⟩ := by decide +kernel
  exact ⟨(hsuffixed _ "gt_lt" .like (by decide)).2 ⟨by decide, by decide⟩,
    (hsuffixed _ "_" .gt (by decide)).2 ⟨by decide, by decide⟩, hgt,
    ((hsuffixed _ _ .ne (by decide)).1 hne).2, ((hwhole _ _).1 heq).2,
    hinjective.ne (by decide), (haddressable _).2 hgt⟩

/-! ## Names and the keys that lead to them -/

/-- **The keys that name an attribute**: its own if it is addressable, and those with a suffix. -/
theorem attr_ofKey_eq_iff : (ofKey key).attr = name ↔
    (key = name ∧ isAddressable name = true) ∨
      name ≠ "" ∧ ∃ op, op ≠ Operator.eq ∧ key = name ++ "_" ++ op.token := by
  constructor
  · intro h
    have hof : ofKey key = ⟨name, (ofKey key).operator⟩ := by rw [← h]
    by_cases ho : (ofKey key).operator = .eq
    · rw [ho] at hof
      obtain ⟨rfl, haddressable⟩ := ofKey_eq_whole_iff.1 hof
      exact .inl ⟨rfl, haddressable⟩
    · obtain ⟨hname, hkey⟩ := (ofKey_eq_suffixed_iff ho).1 hof
      exact .inr ⟨hname, _, ho, hkey⟩
  · rintro (⟨rfl, h⟩ | ⟨hname, op, ho, rfl⟩)
    · rw [isAddressable_iff.1 h]
    · rw [ofKey_suffix hname ho]

/-- Every name is named by a key. -/
theorem exists_attr_ofKey_eq (name : String) : ∃ key, (ofKey key).attr = name := by
  by_cases hname : name = ""
  · exact ⟨"", by rw [hname]; decide +kernel⟩
  · exact ⟨name ++ "_" ++ Operator.gt.token,
      attr_ofKey_eq_iff.2 (.inr ⟨hname, .gt, by decide, rfl⟩)⟩

end Token

/-- A name that is refused as unaddressable ends in a suffix, with something before it. -/
theorem FieldSpec.Builder.isAddressable_of_build {b : Builder} {name : String}
    (h : b.build = .error (.unaddressable name)) : name ≠ "" ∧ isAddressable name = false := by
  have split {n : String} (hf : Given.NameFault n (.unaddressable name)) :
      name ≠ "" ∧ isAddressable name = false := by
    cases hf with
    | unaddressable hid hstem hsuffix hname =>
      exact ⟨ne_empty_of_isIdentifier (isIdentifier_iff.2 hid),
        isAddressable_eq_false_iff_exists_suffix.2 ⟨_, _, hstem, hsuffix, hname⟩⟩
  obtain ⟨step, n, hviolation, -⟩ := build_eq_error_iff.1 h
  cases hviolation with
  | equalityOnly _ hf | anyOperator _ hf => exact split hf
  | reserved _ hf | page hf | limit hf => cases hf

/-- **Addressable names.** A name is addressable if and only if some key compares it for an exact
match, which is the case unless it ends in a suffix. Other comparisons need no addressable name:
behind every name that is not empty a suffix leads to it, so that every name is named by a key, and
that some key names it tells the addressable names only where none ends in a suffix. A name that a
builder refuses as unaddressable is named by exactly the six keys with a suffix behind it. -/
theorem addressable_exact (name : String) :
    (isAddressable name = true ↔ ∃ key, Token.ofKey key = ⟨name, .eq⟩) ∧
    (isAddressable name = true ↔
      ∀ stem suffix, stem ≠ "" → suffix ∈ Given.suffixes → name ≠ stem ++ "_" ++ suffix) ∧
    (∀ key, (Token.ofKey key).attr = name ↔
      (key = name ∧ isAddressable name = true) ∨ name ≠ "" ∧
        ∃ suffix ∈ Given.suffixes, key = name ++ "_" ++ suffix) ∧
    (∃ key, (Token.ofKey key).attr = name) ∧
    ((isAddressable name = true ↔ ∃ key, (Token.ofKey key).attr = name) ↔
      ∀ stem suffix, stem ≠ "" → suffix ∈ Given.suffixes → name ≠ stem ++ "_" ++ suffix) ∧
    ∀ b : Builder, b.build = .error (.unaddressable name) →
      isAddressable name = false ∧ ∀ key, (Token.ofKey key).attr = name ↔
        ∃ suffix ∈ Given.suffixes, key = name ++ "_" ++ suffix := by
  have hnamed : ∃ key, (Token.ofKey key).attr = name := Token.exists_attr_ofKey_eq name
  refine ⟨⟨fun h => ⟨name, isAddressable_iff.1 h⟩, ?_⟩, isAddressable_iff_forall_ne,
    fun key => ?_, hnamed, ?_, fun b h => ?_⟩
  · rintro ⟨key, hof⟩
    obtain ⟨rfl, haddressable⟩ := Token.ofKey_eq_whole_iff.1 hof
    exact haddressable
  · rw [exists_suffix_iff]
    exact Token.attr_ofKey_eq_iff
  · rw [iff_true_right hnamed]
    exact isAddressable_iff_forall_ne
  · obtain ⟨hne, hfalse⟩ := Builder.isAddressable_of_build h
    refine ⟨hfalse, fun key => ?_⟩
    rw [exists_suffix_iff, Token.attr_ofKey_eq_iff, hfalse]
    simp [hne]

/-- A name of operators that is refused, with a key that names it and one that does not, and a name
that is kept whole. -/
theorem addressable_exact_stacked :
    let b : Builder := { equalityOnly := ["role"], anyOperator := ["age", "gt_lt"] }
    b.build = .error (.unaddressable "gt_lt") ∧ isAddressable "gt_lt" = false ∧
      (Token.ofKey "gt_lt_like").attr = "gt_lt" ∧ (Token.ofKey "gt_lt").attr ≠ "gt_lt" ∧
      (¬ ∃ key, Token.ofKey key = ⟨"gt_lt", .eq⟩) ∧
      ∃ key, Token.ofKey key = ⟨"_lt", .eq⟩ := by
  intro b
  have hb : b.build = .error (.unaddressable "gt_lt") := by decide +kernel
  obtain ⟨hexact, -, -, -, -, hrefused⟩ := addressable_exact "gt_lt"
  obtain ⟨hfalse, hkeys⟩ := hrefused b hb
  refine ⟨hb, hfalse, (hkeys _).2 ⟨"like", by decide, by decide⟩, fun h => ?_, fun h => ?_,
    (addressable_exact "_lt").1.1 (by decide +kernel)⟩
  · obtain ⟨suffix, hsuffix, hkey⟩ := (hkeys _).1 h
    revert suffix
    decide
  · rw [hexact.2 h] at hfalse
    cases hfalse

/-- **A name that is refused although a key names it**: what counts is whether the name is kept
whole as a key of its own, and not whether a key with a further suffix behind it names it. -/
theorem unaddressable_reached :
    let b : Builder := { anyOperator := ["price_lt"] }
    b.build = .error (.unaddressable "price_lt") ∧
      Token.ofKey "price_lt_gt" = ⟨"price_lt", .gt⟩ ∧
      ¬ (isAddressable "price_lt" = true ↔ ∃ key, (Token.ofKey key).attr = "price_lt") ∧
      ¬ ∀ (b : Builder) (name : String), b.build = .error (.unaddressable name) →
        ∀ key, (Token.ofKey key).attr ≠ name := by
  intro b
  have hb : b.build = .error (.unaddressable "price_lt") := by decide +kernel
  have hof : Token.ofKey "price_lt_gt" = ⟨"price_lt", .gt⟩ := by decide +kernel
  have hnamed : (Token.ofKey "price_lt_gt").attr = "price_lt" := by rw [hof]
  have hfalse : isAddressable "price_lt" = false := by decide +kernel
  refine ⟨hb, hof, fun h => ?_, fun h => h b _ hb _ hnamed⟩
  rw [h.2 ⟨_, hnamed⟩] at hfalse
  cases hfalse

end QueryFilter
