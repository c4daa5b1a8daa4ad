import QueryFilter.Proofs.Statement

/-!
# Values stay behind placeholders

Two queries with the same keys are turned into the same statements, whatever their values are: those
for the filter become parameters, and of the others only the page is written out.

* `FieldSpec.map_token_acceptedPredicates`: the comparisons of a query are read off its keys;
* `FieldSpec.tokens_eq_of_keys_eq`: queries with the same keys make the same comparisons, in the
  same order;
* `FieldSpec.Binds`, `FieldSpec.binds_params`: each parameter is the value of one entry;
* `PageLimits.extract_congr`: the page depends on two entries;
* **`FieldSpec.rendering_ignores_values`**.
-/

namespace QueryFilter

open Sql

namespace PageLimits

theorem extract_congr {limits : PageLimits} {raw raw' : RawQuery}
    (hpage : raw.get? pageKey = raw'.get? pageKey) (hlimit : raw.get? limitKey = raw'.get? limitKey) :
    limits.extract raw = limits.extract raw' := by
  unfold extract positiveOr
  rw [hpage, hlimit]

end PageLimits

namespace FieldSpec

variable {spec : FieldSpec} {raw raw' : RawQuery} {q q' : CompiledQuery}

/-! ## Comparisons -/

/-- A value that suits its operator adds nothing to the comparison but itself. -/
theorem map_token_predicate? {key value : String} (h : spec.coercionError? key value = none) :
    (spec.predicate? key value).map (·.token) = spec.filterToken? key := by
  unfold coercionError? at h
  unfold predicate?
  cases ht : spec.filterToken? key with
  | none => rfl
  | some t =>
    rw [ht, Option.bind_some] at h
    rw [Option.bind_some]
    cases hv : coerce t.operator value with
    | ok v => rfl
    | error reason =>
      rw [hv] at h
      cases h

theorem map_token_acceptedPredicates (hc : spec.coercionErrors raw = []) :
    (spec.acceptedPredicates raw).map (·.token) = raw.keys.filterMap spec.filterToken? := by
  have hnone : ∀ e ∈ raw.entries, spec.coercionError? e.1 e.2 = none :=
    List.filterMap_eq_nil_iff.1 hc
  rw [acceptedPredicates, List.map_filterMap, KeyMap.keys, List.filterMap_map]
  exact List.filterMap_congr fun e he => map_token_predicate? (hnone e he)

/-- **Queries with the same keys make the same comparisons**, in the same order. -/
theorem tokens_eq_of_keys_eq (hkeys : raw.keys = raw'.keys) (hq : spec.compile raw = .ok q)
    (hq' : spec.compile raw' = .ok q') : q.filter.tokens = q'.filter.tokens := by
  obtain ⟨-, hc, rfl⟩ := compile_eq_ok_iff.1 hq
  obtain ⟨-, hc', rfl⟩ := compile_eq_ok_iff.1 hq'
  have hmap := map_token_acceptedPredicates hc
  have hmap' := map_token_acceptedPredicates hc'
  rw [Filter.tokens_ofPredicates, Filter.tokens_ofPredicates, hmap, hmap', hkeys]

/-! ## Parameters -/

/-- A value is what the entry at the key of a predicate becomes. -/
def Binds (spec : FieldSpec) (raw : RawQuery) (p : Predicate) (v : Value) : Prop :=
  ∃ value, raw.get? p.token.key = some value ∧ spec.route p.token.key = .ok (.filter p.token) ∧
    coerce p.operator value = .ok v

theorem binds_of_mem_predicates (hq : spec.compile raw = .ok q) {p : Predicate}
    (hp : p ∈ q.filter.predicates) : spec.Binds raw p p.value := by
  obtain ⟨key, value, hv, ht, hc⟩ := mem_acceptedPredicates_iff.1 ((mem_predicates_iff hq).1 hp)
  have hroute := route_eq_filter_iff.2 (filterToken?_eq_some_iff.1 ht)
  have hkey : p.token.key = key := by
    have hof : p.token = .ofKey key := (filterToken?_eq_some_iff.1 ht).2.1
    rw [hof, Token.key_ofKey]
  subst hkey
  exact ⟨value, hv, hroute, hc⟩

/-- Each parameter is the value of the entry that its predicate comes from. -/
theorem binds_params (hq : spec.compile raw = .ok q) :
    List.Forall₂ (spec.Binds raw) q.filter.predicates (params q.filter) := by
  rw [params, List.forall₂_map_right_iff]
  exact List.forall₂_same.2 fun p hp => binds_of_mem_predicates hq hp

/-! ## Statements -/

/-- **Values do not get into statements.** Two accepted queries with the same keys have the same
statement for a total, and for a page statements that differ at most in the two numbers of the page,
which come from the values of two keys. All other values are parameters, one for each predicate. -/
theorem rendering_ignores_values (d : Dialect) {table : String} {columns : List String}
    (ht : IsName table) (hc : ∀ c ∈ columns, IsName c) {spec : FieldSpec} {raw raw' : RawQuery}
    {q q' : CompiledQuery} (hkeys : ∀ key, key ∈ raw.keys ↔ key ∈ raw'.keys)
    (hq : spec.compile raw = .ok q) (hq' : spec.compile raw' = .ok q') :
    ∃ s s' c c' : Statement,
      (select d table columns q = .ok s ∧ select d table columns q' = .ok s' ∧
        count d table q.filter = .ok c ∧ count d table q'.filter = .ok c') ∧
      c.sql = c'.sql ∧
      ((spec.limits.extract raw).value = (spec.limits.extract raw').value → s.sql = s'.sql) ∧
      (raw.get? "page" = raw'.get? "page" → raw.get? "limit" = raw'.get? "limit" →
        s.sql = s'.sql) ∧
      (∃ front,
        s.sql = front ++ " LIMIT " ++ Numeral.decimal q.pagination.take.toNat ++ " OFFSET " ++
          Numeral.decimal q.pagination.skip.toNat ∧
        s'.sql = front ++ " LIMIT " ++ Numeral.decimal q'.pagination.take.toNat ++ " OFFSET " ++
          Numeral.decimal q'.pagination.skip.toNat) ∧
      (s.params.length = s'.params.length ∧ c.params = s.params ∧ c'.params = s'.params) ∧
      List.Forall₂ (spec.Binds raw) q.filter.predicates s.params ∧
      List.Forall₂ (spec.Binds raw') q'.filter.predicates s'.params := by
  have htokens : q.filter.tokens = q'.filter.tokens :=
    tokens_eq_of_keys_eq (KeyMap.keys_eq_of_mem_iff hkeys) hq hq'
  have hsame (h : (spec.limits.extract raw).value = (spec.limits.extract raw').value) :
      text (listingWords d table columns q.filter.tokens ++ pageWords q.pagination) =
        text (listingWords d table columns q'.filter.tokens ++ pageWords q'.pagination) := by
    rw [htokens, pagination_eq hq, pagination_eq hq', h]
  have hlength : (params q.filter).length = (params q'.filter).length := by
    have hl := congrArg List.length htokens
    simpa [Filter.tokens, params] using hl
  refine ⟨_, _, _, _, ⟨select_eq d ht hc q, select_eq d ht hc q', count_eq d ht q.filter,
    count_eq d ht q'.filter⟩, ?_, hsame, ?_, ?_, ⟨hlength, rfl, rfl⟩, binds_params hq,
    binds_params hq'⟩
  · rw [htokens]
  · intro hp hl
    exact hsame (congrArg Traced.value (PageLimits.extract_congr hp hl))
  · refine ⟨text (listingWords d table columns q.filter.tokens), ?_, ?_⟩
    · exact text_append_pageWords (listingWords_ne_nil _ _ _ _) q.pagination
    · rw [htokens]
      exact text_append_pageWords (listingWords_ne_nil _ _ _ _) q'.pagination

/-- Values of three kinds, one of them an attempt to end the statement, in two queries with the same
keys. -/
theorem rendering_ignores_quotes :
    let b : Builder := { equalityOnly := ["role"], anyOperator := ["age", "age_max"] }
    let spec := b.rules {}
    let raw : RawQuery := .ofList [("role", "'; DROP TABLE users--"), ("age_max_gt", "1e3"),
      ("age_like", "%' OR 1=1"), ("page", "2")]
    let raw' : RawQuery := .ofList [("page", "+2"), ("role", "true"), ("age_like", ""),
      ("age_max_gt", "-7")]
    ∃ q q' : CompiledQuery, IsName "users" ∧ (∀ c ∈ ["id", "role"], IsName c) ∧
      (∀ key, key ∈ raw.keys ↔ key ∈ raw'.keys) ∧
      spec.compile raw = .ok q ∧ spec.compile raw' = .ok q' ∧
      ∃ s s' : Statement, select .postgres "users" ["id", "role"] q = .ok s ∧
        select .postgres "users" ["id", "role"] q' = .ok s' ∧ s.sql = s'.sql ∧
        s.sql = "SELECT id, role FROM users WHERE age ILIKE '%' || $1 || '%' AND age_max > $2 " ++
          "AND role = $3 LIMIT 10 OFFSET 10" ∧
        s.params.length = s'.params.length ∧
        List.Forall₂ (spec.Binds raw) q.filter.predicates s.params := by
  intro b spec raw raw'
  have htable : IsName "users" := isIdentifier_iff.1 (by decide)
  have hcolumns : ∀ c ∈ ["id", "role"], IsName c := by
    intro c hc
    have hall : ["id", "role"].all isIdentifier = true := by decide
    exact isIdentifier_iff.1 (List.all_eq_true.1 hall c hc)
  have hkeys : ∀ key, key ∈ raw.keys ↔ key ∈ raw'.keys := by
    have heq : raw.keys = raw'.keys := by decide +kernel
    intro key
    rw [heq]
  have hq : spec.compile raw = .ok _ := rfl
  have hq' : spec.compile raw' = .ok _ := rfl
  obtain ⟨s, s', c, c', ⟨hs, hs', -, -⟩, -, hsame, -, -, ⟨hlength, -, -⟩, hbinds, -⟩ :=
    rendering_ignores_values .postgres htable hcolumns hkeys hq hq'
  have hstatement : s = _ := Except.ok.inj (hs.symm.trans (select_eq _ htable hcolumns _))
  have hsql := congrArg Statement.sql hstatement
  refine ⟨_, _, htable, hcolumns, hkeys, hq, hq', s, s', hs, hs', hsame (by decide +kernel),
    hsql.trans ?_, hlength, hbinds⟩
  decide +kernel

end FieldSpec

end QueryFilter
