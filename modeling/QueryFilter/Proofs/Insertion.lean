import QueryFilter.Proofs.BoundValues
import QueryFilter.Proofs.Conservation

/-!
# One more parameter

What changes in the outcome of a query when one parameter is set, whether it is new or has had
another value: its own part, and nothing else.

* `Filter.Sets`: a filter with one comparison more, or with another value in it;
* `FieldSpec.sets_insert`: what a parameter of the filter does to the predicates of a query;
* `FieldSpec.compile_insert_rejected` and its like: the outcomes, one for each use of the key;
* **`FieldSpec.compile_insert`**: all of them, and what becomes of a query that was rejected.
-/

namespace QueryFilter

/-- **A filter in which one comparison has been set**: it is new, or it has another value, and every
other predicate is where it was. -/
structure Filter.Sets (f f' : Filter) (p : Predicate) : Prop where
  predicates : ∃ front back, f'.predicates = front ++ p :: back ∧
    (f.predicates = front ++ back ∨ ∃ v, f.predicates = front ++ { p with value := v } :: back) ∧
    ∀ r ∈ front ++ back, r.token ≠ p.token
  attributes : ∀ attr, attr ∈ f'.attributes ↔ attr = p.attr ∨ attr ∈ f.attributes

theorem exists_mem_append_append {front mid back : List Predicate} {attr : String} :
    (∃ r ∈ front ++ mid ++ back, r.attr = attr) ↔
      (∃ r ∈ mid, r.attr = attr) ∨ ∃ r ∈ front ++ back, r.attr = attr := by
  simp only [List.mem_append, or_and_right, exists_or]
  rw [or_assoc, or_left_comm]

/-- A predicate in the place of none or of one with the same comparison. -/
theorem Filter.sets_append {front old back : List Predicate} {p : Predicate}
    (hold : old = [] ∨ ∃ v, old = [{ p with value := v }])
    (hne : ∀ r ∈ front ++ back, r.token ≠ p.token) :
    (ofPredicates (front ++ old ++ back)).Sets (ofPredicates (front ++ [p] ++ back)) p := by
  have hnew : ∀ r ∈ [p], r.attr = p.attr := List.forall_mem_singleton.2 rfl
  have hattr : ∀ r ∈ old, r.attr = p.attr := by
    rcases hold with rfl | ⟨v, rfl⟩
    · exact List.forall_mem_nil _
    · exact List.forall_mem_singleton.2 rfl
  refine ⟨⟨sortedBefore p.attr front back, sortedBehind p.attr front back, ?_, ?_,
    fun r hr => hne r ?_⟩, fun attr => ?_⟩
  · rw [predicates_append_append hnew, List.append_assoc, List.singleton_append]
  · rw [predicates_append_append hattr]
    rcases hold with rfl | ⟨v, rfl⟩
    · exact .inl (by rw [List.append_nil])
    · exact .inr ⟨v, by rw [List.append_assoc, List.singleton_append]⟩
  · rcases List.mem_append.1 hr with hr | hr
    · exact (of_mem_sortedBefore hr).1
    · exact (of_mem_sortedBehind hr).1
  · rw [mem_attributes_ofPredicates, mem_attributes_ofPredicates, exists_mem_append_append,
      exists_mem_append_append, ← or_assoc]
    refine or_congr_left ⟨?_, ?_⟩
    · rintro ⟨r, hr, rfl⟩
      exact .inl (hnew r hr)
    · rintro (rfl | ⟨r, hr, rfl⟩)
      · exact ⟨p, List.mem_cons_self, rfl⟩
      · exact ⟨p, List.mem_cons_self, (hattr r hr).symm⟩

namespace FieldSpec

variable {spec : FieldSpec} {raw : RawQuery} {q : CompiledQuery} {key : String} {reason : Reason}
  {t : Token}

/-! ## What the stages collect -/

theorem filterToken?_of_route (h : spec.route key = .ok (.filter t)) :
    spec.filterToken? key = some t :=
  filterToken?_eq_some_iff.2 (route_eq_filter_iff.1 h)

theorem routingErrors_insert_of_eq_nil (h : spec.routingErrors raw = []) (key value : String) :
    spec.routingErrors (raw.insert key value) = (spec.routingError? key).toList :=
  raw.filterMap_insert_of_eq_nil h key value

theorem coercionErrors_insert_of_eq_nil (h : spec.coercionErrors raw = []) (key value : String) :
    spec.coercionErrors (raw.insert key value) = (spec.coercionError? key value).toList :=
  raw.filterMap_insert_of_eq_nil h key value

theorem reservedParameters_insert (spec : FieldSpec) (raw : RawQuery) (key value : String) :
    spec.reservedParameters (raw.insert key value) =
      if spec.handsOn key then (spec.reservedParameters raw).insert key value
      else spec.reservedParameters raw :=
  raw.filter_insert spec.handsOn key value

theorem extract_insert (h : key ∉ paginationKeys) (limits : PageLimits) (value : String) :
    limits.extract (raw.insert key value) = limits.extract raw := by
  have other {k : String} (hk : k ∈ paginationKeys) :
      (raw.insert key value).get? k = raw.get? k := by
    rw [KeyMap.get?_insert, if_neg]
    rintro rfl
    exact h hk
  exact PageLimits.extract_congr (other (by decide)) (other (by decide))

/-- Of the predicates of a query, no two make the same comparison. -/
theorem token_ne_of_split {front back : List Predicate} {p r : Predicate}
    (h : spec.acceptedPredicates raw = front ++ [p] ++ back) (hr : r ∈ front ++ back) :
    r.token ≠ p.token := by
  have hpair := spec.acceptedPredicates_pairwise raw
  rw [h, List.pairwise_append, List.pairwise_append] at hpair
  obtain ⟨⟨-, -, hfront⟩, -, hback⟩ := hpair
  intro heq
  have hkey : r.key = p.key := congrArg Token.key heq
  rcases List.mem_append.1 hr with hr | hr
  · exact absurd hkey (hfront r hr p List.mem_cons_self).ne
  · exact absurd hkey (hback p (by simp) r hr).ne'

/-- The parameter that a key had before made the same comparison, if any. -/
theorem old_predicates_cases (h : spec.filterToken? key = some t) (old? : Option String) :
    old?.toList.filterMap (spec.predicate? key) = [] ∨
      ∃ w, old?.toList.filterMap (spec.predicate? key) = [⟨t.attr, t.operator, w⟩] := by
  cases old? with
  | none => exact .inl rfl
  | some old =>
    cases hp : spec.predicate? key old with
    | none => exact .inl (by simp [hp])
    | some r =>
      obtain ⟨ht, -⟩ := predicate?_eq_some_iff.1 hp
      obtain rfl : t = ⟨r.attr, r.operator⟩ := Option.some.inj (h.symm.trans ht)
      exact .inr ⟨r.value, by simp [hp]⟩

/-- **Setting a parameter of the filter sets its comparison.** -/
theorem sets_insert {value : String} {v : Value} (h : spec.filterToken? key = some t)
    (hv : coerce t.operator value = .ok v) :
    (Filter.ofPredicates (spec.acceptedPredicates raw)).Sets
      (.ofPredicates (spec.acceptedPredicates (raw.insert key value))) ⟨t.attr, t.operator, v⟩ := by
  obtain ⟨front, back, hinsert, hraw⟩ :
      ∃ front back,
        spec.acceptedPredicates (raw.insert key value) =
          front ++ (spec.predicate? key value).toList ++ back ∧
        spec.acceptedPredicates raw =
          front ++ (raw.get? key).toList.filterMap (spec.predicate? key) ++ back :=
    raw.exists_filterMap_insert key value fun e => spec.predicate? e.1 e.2
  have hp : spec.predicate? key value = some ⟨t.attr, t.operator, v⟩ :=
    predicate?_eq_some_iff.2 ⟨h, hv⟩
  rw [hp, Option.toList_some] at hinsert
  rw [hinsert, hraw]
  exact Filter.sets_append (old_predicates_cases h (raw.get? key)) fun r hr =>
    token_ne_of_split hinsert hr

/-! ## Outcomes -/

theorem exists_error_of_routingErrors {errors : List KeyError} (h : spec.routingErrors raw = errors)
    (hne : errors ≠ []) : ∃ e, spec.compile raw = .error e ∧ e.errors = errors :=
  ⟨⟨errors, hne⟩, compile_eq_error_iff.2 (.inl h.symm), rfl⟩

theorem exists_error_of_coercionErrors {errors : List KeyError} (hr : spec.routingErrors raw = [])
    (h : spec.coercionErrors raw = errors) (hne : errors ≠ []) :
    ∃ e, spec.compile raw = .error e ∧ e.errors = errors :=
  ⟨⟨errors, hne⟩, compile_eq_error_iff.2 (.inr ⟨hr, h.symm⟩), rfl⟩

theorem compile_insert_rejected (hq : spec.compile raw = .ok q) (h : spec.route key = .error reason)
    (value : String) :
    ∃ e, spec.compile (raw.insert key value) = .error e ∧ e.errors = [⟨key, reason⟩] := by
  obtain ⟨hr, -, -⟩ := compile_eq_ok_iff.1 hq
  have herrors := routingErrors_insert_of_eq_nil hr key value
  rw [routingError?, h] at herrors
  exact exists_error_of_routingErrors herrors (List.cons_ne_nil _ _)

/-- A key without a place in the filter leaves it as it is. -/
theorem compile_insert_of_not_isPlain (hq : spec.compile raw = .ok q) (h : ¬ spec.IsPlain key)
    (value : String) : spec.compile (raw.insert key value) =
      .ok ⟨q.filter, (spec.limits.extract (raw.insert key value)).value,
        spec.reservedParameters (raw.insert key value)⟩ := by
  refine compile_congr (fun k hk => ?_) hq
  have hne : k ≠ key := by
    rintro rfl
    exact h hk
  rw [KeyMap.get?_insert, if_neg hne]

theorem compile_insert_pagination (hq : spec.compile raw = .ok q) (h : key ∈ paginationKeys)
    (value : String) : spec.compile (raw.insert key value) =
      .ok { q with pagination := (spec.limits.extract (raw.insert key value)).value } := by
  have hkept : spec.handsOn key = false := by rw [handsOn, route_eq_pagination_iff.2 h]
  rw [compile_insert_of_not_isPlain hq fun hk => hk.1 h, reservedParameters_insert, hkept]
  obtain ⟨-, -, rfl⟩ := compile_eq_ok_iff.1 hq
  rfl

theorem compile_insert_reserved (hq : spec.compile raw = .ok q) (h : spec.route key = .ok .reserved)
    (value : String) : spec.compile (raw.insert key value) =
      .ok { q with reserved := q.reserved.insert key value } := by
  obtain ⟨hunpaged, hreserved⟩ := route_eq_reserved_iff.1 h
  have hused : ¬ spec.IsPlain key := fun hk => Bool.false_ne_true (hk.2.symm.trans hreserved)
  have hkept : spec.handsOn key = true := by rw [handsOn, h]
  rw [compile_insert_of_not_isPlain hq hused, reservedParameters_insert, hkept,
    extract_insert hunpaged]
  obtain ⟨-, -, rfl⟩ := compile_eq_ok_iff.1 hq
  rfl

theorem routingErrors_insert_of_ok {r : Route} (hr : spec.routingErrors raw = [])
    (h : spec.route key = .ok r) (value : String) :
    spec.routingErrors (raw.insert key value) = [] := by
  rw [routingErrors_insert_of_eq_nil hr, routingError?, h]
  rfl

theorem compile_insert_invalid (hq : spec.compile raw = .ok q)
    (h : spec.route key = .ok (.filter t)) {value : String}
    (hv : coerce t.operator value = .error reason) :
    ∃ e, spec.compile (raw.insert key value) = .error e ∧ e.errors = [⟨key, reason⟩] := by
  obtain ⟨hr, hc, -⟩ := compile_eq_ok_iff.1 hq
  have hrouted := routingErrors_insert_of_ok hr h value
  have herrors := coercionErrors_insert_of_eq_nil hc key value
  rw [coercionError?, filterToken?_of_route h, Option.bind_some, hv] at herrors
  exact exists_error_of_coercionErrors hrouted herrors (List.cons_ne_nil _ _)

theorem compile_insert_comparison (hq : spec.compile raw = .ok q)
    (h : spec.route key = .ok (.filter t)) {value : String} {v : Value}
    (hv : coerce t.operator value = .ok v) :
    ∃ f, spec.compile (raw.insert key value) = .ok { q with filter := f } ∧
      q.filter.Sets f ⟨t.attr, t.operator, v⟩ := by
  obtain ⟨hr, hc, rfl⟩ := compile_eq_ok_iff.1 hq
  have ht : spec.filterToken? key = some t := filterToken?_of_route h
  have hunpaged : key ∉ paginationKeys := (route_eq_filter_iff.1 h).1.1
  have hkept : spec.handsOn key = false := by rw [handsOn, h]
  have herrors := coercionErrors_insert_of_eq_nil hc key value
  refine ⟨_, compile_eq_ok_iff.2 ⟨routingErrors_insert_of_ok hr h value, ?_, ?_⟩,
    sets_insert ht hv⟩
  · rw [herrors, coercionError?, ht, Option.bind_some, hv]
    rfl
  · rw [reservedParameters_insert, hkept, extract_insert hunpaged]
    rfl

/-- The errors of keys do not go away with one more key, or with another value of one. -/
theorem routingErrors_sublist_insert (spec : FieldSpec) (raw : RawQuery) (key value : String) :
    (spec.routingErrors raw).Sublist (spec.routingErrors (raw.insert key value)) := by
  obtain ⟨front, back, hinsert, hraw⟩ :
      ∃ front back,
        spec.routingErrors (raw.insert key value) =
          front ++ (spec.routingError? key).toList ++ back ∧
        spec.routingErrors raw =
          front ++ (raw.get? key).toList.filterMap (fun _ => spec.routingError? key) ++ back :=
    raw.exists_filterMap_insert key value fun e => spec.routingError? e.1
  have hold : ((raw.get? key).toList.filterMap fun _ => spec.routingError? key).Sublist
      (spec.routingError? key).toList := by
    cases raw.get? key with
    | none => exact List.nil_sublist _
    | some old => cases spec.routingError? key <;> simp
  rw [hinsert, hraw]
  exact (hold.append_left front).append_right back

theorem compile_insert_of_rejected {e : QueryError} (he : spec.compile raw = .error e)
    (h : spec.routingErrors raw ≠ []) (key value : String) :
    ∃ e', spec.compile (raw.insert key value) = .error e' ∧ e.errors.Sublist e'.errors := by
  have heq : e.errors = spec.routingErrors raw :=
    (compile_eq_error_iff.1 he).resolve_right fun h' => h h'.1
  have hsub := spec.routingErrors_sublist_insert raw key value
  have hne : spec.routingErrors (raw.insert key value) ≠ [] := fun hnil =>
    h (List.sublist_nil.1 (hnil ▸ hsub))
  obtain ⟨e', he', heq'⟩ := exists_error_of_routingErrors rfl hne
  exact ⟨e', he', by rwa [heq, heq']⟩

/-- **One more parameter changes its own part only.** Set in an accepted query, it is the one error
if its key or its value is at fault; one that selects a page changes the page, one that is handed on
is handed on, and any other sets its comparison. A query that was rejected for its keys is still
rejected, with all the errors that it had. -/
theorem compile_insert (spec : FieldSpec) (raw : RawQuery) (key value : String) :
    (∀ q, spec.compile raw = .ok q →
      (∀ reason, spec.route key = .error reason →
        ∃ e, spec.compile (raw.insert key value) = .error e ∧ e.errors = [⟨key, reason⟩]) ∧
      (key = "page" ∨ key = "limit" → spec.compile (raw.insert key value) =
        .ok { q with pagination := (spec.limits.extract (raw.insert key value)).value }) ∧
      (key ≠ "page" → key ≠ "limit" → spec.isReserved key = true →
        spec.compile (raw.insert key value) =
          .ok { q with reserved := q.reserved.insert key value }) ∧
      (key ≠ "page" → key ≠ "limit" → spec.isReserved key = false →
        (∀ reason, spec.route key ≠ .error reason) →
        let t := Token.ofKey key
        (∀ reason, coerce t.operator value = .error reason →
          ∃ e, spec.compile (raw.insert key value) = .error e ∧ e.errors = [⟨key, reason⟩]) ∧
        ∀ v, coerce t.operator value = .ok v →
          ∃ f, spec.compile (raw.insert key value) = .ok { q with filter := f } ∧
            q.filter.Sets f ⟨t.attr, t.operator, v⟩)) ∧
    ∀ e, spec.compile raw = .error e →
      (∃ k ∈ raw.keys, ∃ reason, spec.route k = .error reason) →
        ∃ e', spec.compile (raw.insert key value) = .error e' ∧ e.errors.Sublist e'.errors := by
  refine ⟨fun q hq => ⟨fun reason h => compile_insert_rejected hq h value, fun h => ?_,
    fun hp hl h => ?_, fun hp hl hr h => ?_⟩, fun e he h => ?_⟩
  · exact compile_insert_pagination hq (mem_paginationKeys_iff.2 h) value
  · have hunpaged : key ∉ paginationKeys := mem_paginationKeys_iff.not.2 (not_or.2 ⟨hp, hl⟩)
    exact compile_insert_reserved hq (route_eq_reserved_iff.2 ⟨hunpaged, h⟩) value
  · have hplain : spec.IsPlain key := isPlain_iff.2 ⟨hp, hl, hr⟩
    have hadmits : spec.Admits (.ofKey key) := by
      by_contra hn
      obtain ⟨reason, herror⟩ := exists_route_eq_error_iff.2 ⟨hplain, hn⟩
      exact h reason herror
    have hroute := route_eq_filter_iff.2 ⟨hplain, rfl, hadmits⟩
    exact ⟨fun reason hv => compile_insert_invalid hq hroute hv,
      fun v hv => compile_insert_comparison hq hroute hv⟩
  · obtain ⟨k, hk, reason, hroute⟩ := h
    have hmem : ⟨k, reason⟩ ∈ spec.routingErrors raw := mem_routingErrors_iff.2 ⟨hk, hroute⟩
    exact compile_insert_of_rejected he (List.ne_nil_of_mem hmem) key value

/-- A query with one parameter more: of each kind, with a new and with another value, and behind a
rejected one. -/
theorem compile_insert_ages :
    let b : Builder :=
      { equalityOnly := ["role"], anyOperator := ["age", "age_max"], reserved := ["sort"] }
    let spec := b.rules {}
    let raw : RawQuery := .ofList [("age_gt", "18"), ("age_max", "60"), ("page", "2")]
    let rejected : RawQuery := .ofList [("age_gt", "18"), ("role_ne", "x")]
    (∃ q, spec.compile raw = .ok q ∧
      (∃ e, spec.compile (raw.insert "role_like" "x") = .error e ∧
        e.errors = [⟨"role_like", .illegalOperator "role" .like⟩]) ∧
      spec.compile (raw.insert "page" "3") = .ok { q with pagination := ⟨3, 10⟩ } ∧
      spec.compile (raw.insert "sort" "-age") =
        .ok { q with reserved := q.reserved.insert "sort" "-age" } ∧
      (∃ e, spec.compile (raw.insert "age_gt" "old") = .error e ∧
        e.errors = [⟨"age_gt", .notANumber .gt "old"⟩]) ∧
      (∃ f, spec.compile (raw.insert "age_gt" "21") = .ok { q with filter := f } ∧
        q.filter.Sets f ⟨"age", .gt, .int 21⟩) ∧
      ∃ f, spec.compile (raw.insert "age_lte" "65") = .ok { q with filter := f } ∧
        q.filter.Sets f ⟨"age", .lte, .int 65⟩) ∧
    ∃ e e', spec.compile rejected = .error e ∧
      spec.compile (rejected.insert "nope" "1") = .error e' ∧ e.errors.Sublist e'.errors := by
  intro b spec raw rejected
  have hq : spec.compile raw = .ok _ := rfl
  have routed {key : String} (h : (spec.routingError? key).isNone = true) :
      ∀ reason, spec.route key ≠ .error reason := by
    intro reason hr
    rw [routingError?, hr] at h
    cases h
  refine ⟨⟨_, hq, ((compile_insert spec raw "role_like" "x").1 _ hq).1 _ (by decide +kernel), ?_,
    ?_, ?_, ?_, ?_⟩, ?_⟩
  · exact ((compile_insert spec raw "page" "3").1 _ hq).2.1 (.inl rfl)
  · exact ((compile_insert spec raw "sort" "-age").1 _ hq).2.2.1 (by decide) (by decide)
      (by decide +kernel)
  · exact (((compile_insert spec raw "age_gt" "old").1 _ hq).2.2.2 (by decide) (by decide)
      (by decide +kernel) (routed (by decide +kernel))).1 _ (by decide +kernel)
  · exact (((compile_insert spec raw "age_gt" "21").1 _ hq).2.2.2 (by decide) (by decide)
      (by decide +kernel) (routed (by decide +kernel))).2 _ (by decide +kernel)
  · exact (((compile_insert spec raw "age_lte" "65").1 _ hq).2.2.2 (by decide) (by decide)
      (by decide +kernel) (routed (by decide +kernel))).2 _ (by decide +kernel)
  · have he : spec.compile rejected = .error _ := rfl
    obtain ⟨e', he', hsub⟩ := (compile_insert spec rejected "nope" "1").2 _ he
      ⟨"role_ne", by decide +kernel, .illegalOperator "role" .ne, by decide +kernel⟩
    exact ⟨_, e', he, he', hsub⟩

end FieldSpec

end QueryFilter
