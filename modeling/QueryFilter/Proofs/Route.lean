import QueryFilter.Proofs.Acceptance

/-!
# The keys of built rules

Where the keys go that the names in accepted rules stand for. Every attribute is reached by its own
key. A key with a suffix is reached unless it was collected as a reserved key itself: the builder
compares reserved keys with attributes only, and routing puts them before any splitting.

* `FieldSpec.route_of_isReserved`, `FieldSpec.WellFormed.route_attribute`,
  `FieldSpec.WellFormed.route_suffixed`: the routes of the three kinds of keys;
* **`FieldSpec.route_configured`**: the routes in terms of the names that were collected, and
  `FieldSpec.route_shadowed`, a reserved key in the place of a comparison.
-/

namespace QueryFilter.FieldSpec

variable {spec : FieldSpec} {key attr : String}

theorem route_of_isReserved (h : spec.isReserved key = true) :
    spec.route key = if key = "page" ∨ key = "limit" then .ok .pagination else .ok .reserved := by
  by_cases hp : key = "page" ∨ key = "limit"
  · rw [if_pos hp, route_eq_pagination_iff, mem_paginationKeys_iff]
    exact hp
  · rw [if_neg hp, route_eq_reserved_iff, mem_paginationKeys_iff]
    exact ⟨hp, h⟩

namespace WellFormed

/-- Every attribute is reached by its own key. -/
theorem route_attribute (hs : spec.WellFormed) (ha : spec.IsAttribute attr) :
    spec.route attr = .ok (.filter ⟨attr, .eq⟩) := by
  have hplain : spec.IsPlain attr := ⟨hs.unpaged ha, hs.unreserved ha⟩
  have hof : Token.ofKey attr = ⟨attr, .eq⟩ := hs.addressable ha
  exact route_eq_filter_iff.2 ⟨hplain, hof.symm, ha, fun _ => rfl⟩

/-- A key with a suffix is reached unless it is reserved. -/
theorem route_suffixed (hs : spec.WellFormed) (ha : spec.isAnyOperator attr = true) {op : Operator}
    (ho : op ≠ .eq) : spec.route (attr ++ "_" ++ op.token) =
      if spec.isReserved (attr ++ "_" ++ op.token) = true then .ok .reserved
      else .ok (.filter ⟨attr, op⟩) := by
  have hne : attr ≠ "" := hs.ne_empty (.inr ha)
  have hof : Token.ofKey (attr ++ "_" ++ op.token) = ⟨attr, op⟩ := Token.ofKey_suffix hne ho
  have hunpaged : attr ++ "_" ++ op.token ∉ paginationKeys :=
    suffixed_not_mem_paginationKeys hne ho
  by_cases hr : spec.isReserved (attr ++ "_" ++ op.token) = true
  · rw [if_pos hr]
    exact route_eq_reserved_iff.2 ⟨hunpaged, hr⟩
  · rw [if_neg hr]
    have hplain : spec.IsPlain (attr ++ "_" ++ op.token) := ⟨hunpaged, by simpa using hr⟩
    exact route_eq_filter_iff.2 ⟨hplain, hof.symm, (hs.admits_suffix_iff ho).2 ha⟩

end WellFormed

/-- **Where the names of accepted rules go.** A reserved key is handed on, unless it selects the
page; an attribute is reached by its own key; and one that admits every operator is reached by each
of its other keys that is not reserved. -/
theorem route_configured {b : Builder} {spec : FieldSpec} (hb : b.build = .ok spec) :
    (∀ key ∈ b.reserved, spec.route key =
      if key = "page" ∨ key = "limit" then .ok .pagination else .ok .reserved) ∧
    (∀ attr ∈ b.equalityOnly, spec.route attr = .ok (.filter ⟨attr, .eq⟩)) ∧
    ∀ attr ∈ b.anyOperator, spec.route attr = .ok (.filter ⟨attr, .eq⟩) ∧
      ∀ op, op ≠ Operator.eq → spec.route (attr ++ "_" ++ op.token) =
        if attr ++ "_" ++ op.token ∈ b.reserved then .ok .reserved
        else .ok (.filter ⟨attr, op⟩) := by
  have hs := Builder.build_wellFormed hb
  have hnames := Builder.names_of_build hb
  refine ⟨fun key hkey => ?_, fun attr hattr => ?_, fun attr hattr => ?_⟩
  · exact route_of_isReserved ((hnames key).2.2.2 hkey)
  · exact hs.route_attribute (.inl ((hnames attr).1.2 hattr))
  · have ha : spec.isAnyOperator attr = true := (hnames attr).2.1.2 hattr
    refine ⟨hs.route_attribute (.inr ha), fun op ho => ?_⟩
    rw [hs.route_suffixed ha ho]
    exact if_congr (hnames _).2.2 rfl rfl

/-- Rules with a reserved key that has a suffix, another behind that key, and a reserved page
number. -/
theorem route_configured_ages :
    let b : Builder :=
      { equalityOnly := ["role"], anyOperator := ["age"], reserved := ["age_gt", "age_gt_lt", "page"] }
    let spec := b.rules {}
    b.build = .ok spec ∧ spec.route "age_gt" = .ok .reserved ∧
      spec.route "page" = .ok .pagination ∧ spec.route "role" = .ok (.filter ⟨"role", .eq⟩) ∧
      spec.route "age" = .ok (.filter ⟨"age", .eq⟩) ∧
      spec.route "age_gte" = .ok (.filter ⟨"age", .gte⟩) := by
  intro b spec
  have hb : b.build = .ok spec := by decide +kernel
  obtain ⟨hreserved, hequality, hany⟩ := route_configured hb
  obtain ⟨hattr, hsuffix⟩ := hany "age" (by decide)
  have hgte := hsuffix .gte (by decide)
  rw [if_neg (by decide)] at hgte
  exact ⟨hb, hreserved "age_gt" (by decide), hreserved "page" (by decide),
    hequality "role" (by decide), hattr, hgte⟩

/-- **A reserved key can take the place of a comparison**, and a reserved key can be one that selects
the page: the rules are accepted, and neither key goes where its entry says. -/
theorem route_shadowed :
    let b : Builder := { anyOperator := ["age"], reserved := ["age_gt", "page"] }
    ∃ spec, b.build = .ok spec ∧
      spec.isAnyOperator "age" = true ∧
      spec.route "age_gt" ≠ .ok (.filter ⟨"age", .gt⟩) ∧ spec.route "age_gt" = .ok .reserved ∧
      spec.isReserved "page" = true ∧
      spec.route "page" ≠ .ok .reserved ∧ spec.route "page" = .ok .pagination := by
  intro b
  have hb : b.build = .ok (b.rules {}) := by decide +kernel
  have hage : (b.rules {}).route "age_gt" = .ok .reserved := by decide +kernel
  have hpage : (b.rules {}).route "page" = .ok .pagination := by decide +kernel
  refine ⟨_, hb, by decide +kernel, ?_, hage, by decide +kernel, ?_, hpage⟩
  · rw [hage]
    exact nofun
  · rw [hpage]
    exact nofun

end QueryFilter.FieldSpec
