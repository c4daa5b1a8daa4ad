import QueryFilter.CompiledQuery
import QueryFilter.Proofs.FieldSpec
import QueryFilter.Proofs.Filter

/-!
# Compilation in two stages

What compilation returns, in terms of what it collects on its way.

* `FieldSpec.compile_eq_ok_iff`, `FieldSpec.compile_eq_error_iff`: acceptance and rejection;
* `FieldSpec.mem_routingErrors_iff`, `FieldSpec.mem_coercionErrors_iff`,
  `FieldSpec.mem_acceptedPredicates_iff`: what each stage collects;
* `FieldSpec.Alike`, `FieldSpec.compile_congr_of_alike`, `FieldSpec.compile_congr`: the filter
  depends on the plain keys only, and on what their values become;
* **`FieldSpec.errors_pairwise`**: the errors of a rejection are in strictly ascending key order.
-/

namespace QueryFilter

namespace QueryError

theorem ofErrors?_eq_none_iff {errors : List KeyError} : ofErrors? errors = none ↔ errors = [] := by
  unfold ofErrors?
  by_cases h : errors = [] <;> simp [h]

theorem ofErrors?_eq_some_iff {errors : List KeyError} {e : QueryError} :
    ofErrors? errors = some e ↔ e.errors = errors := by
  unfold ofErrors?
  constructor
  · intro h
    split at h
    · cases h
      rfl
    · cases h
  · rintro rfl
    rw [dif_pos e.errors_ne_nil]

end QueryError

namespace FieldSpec

variable {spec : FieldSpec} {raw : RawQuery}

/-! ## The outcome -/

theorem compile_eq (spec : FieldSpec) (raw : RawQuery) : spec.compile raw =
    match QueryError.ofErrors? (spec.routingErrors raw) <|>
      QueryError.ofErrors? (spec.coercionErrors raw) with
    | some error => .error error
    | none => .ok ⟨.ofPredicates (spec.acceptedPredicates raw), (spec.limits.extract raw).value,
        spec.reservedParameters raw⟩ := by
  unfold compile compileTraced
  cases QueryError.ofErrors? (spec.routingErrors raw) <|>
    QueryError.ofErrors? (spec.coercionErrors raw) <;> rfl

theorem compile_eq_ok_iff {q : CompiledQuery} : spec.compile raw = .ok q ↔
    spec.routingErrors raw = [] ∧ spec.coercionErrors raw = [] ∧
      q = ⟨.ofPredicates (spec.acceptedPredicates raw), (spec.limits.extract raw).value,
        spec.reservedParameters raw⟩ := by
  rw [compile_eq, ← QueryError.ofErrors?_eq_none_iff, ← QueryError.ofErrors?_eq_none_iff]
  cases QueryError.ofErrors? (spec.routingErrors raw) <;>
    cases QueryError.ofErrors? (spec.coercionErrors raw) <;> simp [eq_comm]

theorem compile_eq_error_iff {e : QueryError} : spec.compile raw = .error e ↔
    e.errors = spec.routingErrors raw ∨
      spec.routingErrors raw = [] ∧ e.errors = spec.coercionErrors raw := by
  rw [compile_eq, ← QueryError.ofErrors?_eq_none_iff, ← QueryError.ofErrors?_eq_some_iff,
    ← QueryError.ofErrors?_eq_some_iff]
  cases QueryError.ofErrors? (spec.routingErrors raw) <;>
    cases QueryError.ofErrors? (spec.coercionErrors raw) <;> simp

/-! ## The stages -/

theorem routingError?_eq_some_iff {key : String} {err : KeyError} :
    spec.routingError? key = some err ↔ err.key = key ∧ spec.route key = .error err.reason := by
  unfold routingError?
  obtain ⟨k, reason⟩ := err
  cases spec.route key <;> simp [eq_comm]

theorem filterToken?_eq_some_iff {key : String} {t : Token} :
    spec.filterToken? key = some t ↔ spec.IsPlain key ∧ t = .ofKey key ∧ spec.Admits t := by
  rw [← route_eq_filter_iff]
  unfold filterToken?
  cases spec.route key with
  | error reason => simp
  | ok r => cases r <;> simp

theorem coercionError?_eq_some_iff {key value : String} {err : KeyError} :
    spec.coercionError? key value = some err ↔ err.key = key ∧
      ∃ t, spec.filterToken? key = some t ∧ coerce t.operator value = .error err.reason := by
  unfold coercionError?
  obtain ⟨k, reason⟩ := err
  cases spec.filterToken? key with
  | none => simp
  | some t => cases h : coerce t.operator value <;> simp [h, eq_comm]

theorem predicate?_eq_some_iff {key value : String} {p : Predicate} :
    spec.predicate? key value = some p ↔
      spec.filterToken? key = some ⟨p.attr, p.operator⟩ ∧ coerce p.operator value = .ok p.value := by
  unfold predicate?
  obtain ⟨attr, op, v⟩ := p
  cases spec.filterToken? key with
  | none => simp
  | some t =>
    obtain ⟨a, o⟩ := t
    rw [Option.bind_some]
    constructor
    · intro h
      split at h
      · next hv =>
        cases h
        exact ⟨rfl, hv⟩
      · cases h
    · rintro ⟨h, hv⟩
      cases h
      simp only at hv ⊢
      rw [hv]

theorem mem_routingErrors_iff {err : KeyError} : err ∈ spec.routingErrors raw ↔
    err.key ∈ raw.keys ∧ spec.route err.key = .error err.reason := by
  rw [routingErrors, List.mem_filterMap, KeyMap.keys, List.mem_map]
  simp only [routingError?_eq_some_iff]
  constructor
  · rintro ⟨e, he, hkey, hr⟩
    exact ⟨⟨e, he, hkey.symm⟩, hkey ▸ hr⟩
  · rintro ⟨⟨e, he, hkey⟩, hr⟩
    exact ⟨e, he, hkey.symm, hkey ▸ hr⟩

theorem mem_coercionErrors_iff {err : KeyError} : err ∈ spec.coercionErrors raw ↔
    ∃ value t, raw.get? err.key = some value ∧ spec.filterToken? err.key = some t ∧
      coerce t.operator value = .error err.reason := by
  rw [coercionErrors, List.mem_filterMap]
  simp only [coercionError?_eq_some_iff]
  constructor
  · rintro ⟨⟨key, value⟩, he, rfl, t, ht, hc⟩
    exact ⟨value, t, KeyMap.mem_entries_iff.1 he, ht, hc⟩
  · rintro ⟨value, t, he, ht, hc⟩
    exact ⟨(err.key, value), KeyMap.mem_entries_iff.2 he, rfl, t, ht, hc⟩

theorem mem_acceptedPredicates_iff {p : Predicate} : p ∈ spec.acceptedPredicates raw ↔
    ∃ key value, raw.get? key = some value ∧
      spec.filterToken? key = some ⟨p.attr, p.operator⟩ ∧ coerce p.operator value = .ok p.value := by
  rw [acceptedPredicates, List.mem_filterMap]
  simp only [predicate?_eq_some_iff]
  constructor
  · rintro ⟨⟨key, value⟩, he, h⟩
    exact ⟨key, value, KeyMap.mem_entries_iff.1 he, h⟩
  · rintro ⟨key, value, he, h⟩
    exact ⟨(key, value), KeyMap.mem_entries_iff.2 he, h⟩

theorem mem_predicates_iff {q : CompiledQuery} (h : spec.compile raw = .ok q) {p : Predicate} :
    p ∈ q.filter.predicates ↔ p ∈ spec.acceptedPredicates raw := by
  obtain ⟨-, -, rfl⟩ := compile_eq_ok_iff.1 h
  exact Filter.mem_predicates_ofPredicates

/-- The page of an accepted query is the one that it asks for. -/
theorem pagination_eq {q : CompiledQuery} (h : spec.compile raw = .ok q) :
    q.pagination = (spec.limits.extract raw).value := by
  obtain ⟨-, -, rfl⟩ := compile_eq_ok_iff.1 h
  rfl

/-- An accepted query makes only comparisons that the rules admit. -/
theorem admits_of_mem_predicates {q : CompiledQuery} (h : spec.compile raw = .ok q) {p : Predicate}
    (hp : p ∈ q.filter.predicates) : spec.Admits p.token := by
  obtain ⟨key, value, -, ht, -⟩ :=
    mem_acceptedPredicates_iff.1 ((mem_predicates_iff h).1 hp)
  obtain ⟨-, -, ha⟩ := filterToken?_eq_some_iff.1 ht
  exact ha

/-! ## Plain keys -/

theorem routingError?_of_not_isPlain {key : String} (h : ¬ spec.IsPlain key) :
    spec.routingError? key = none := by
  rw [Option.eq_none_iff_forall_ne_some]
  intro err herr
  have hroute : ∃ reason, spec.route key = .error reason :=
    ⟨_, (routingError?_eq_some_iff.1 herr).2⟩
  exact h (exists_route_eq_error_iff.1 hroute).1

theorem filterToken?_of_not_isPlain {key : String} (h : ¬ spec.IsPlain key) :
    spec.filterToken? key = none := by
  rw [Option.eq_none_iff_forall_ne_some]
  intro t ht
  exact h (filterToken?_eq_some_iff.1 ht).1

/-- Values that become the same at a key, whatever else they are. -/
def Alike (spec : FieldSpec) (key value value' : String) : Prop :=
  ∀ t, spec.filterToken? key = some t → coerce t.operator value = coerce t.operator value'

theorem Alike.refl (key value : String) : spec.Alike key value value :=
  fun _ _ => rfl

theorem Alike.coercionError? {key value value' : String} (h : spec.Alike key value value') :
    spec.coercionError? key value = spec.coercionError? key value' := by
  unfold FieldSpec.coercionError?
  cases ht : spec.filterToken? key with
  | none => rfl
  | some t => rw [Option.bind_some, Option.bind_some, h t ht]

theorem Alike.predicate? {key value value' : String} (h : spec.Alike key value value') :
    spec.predicate? key value = spec.predicate? key value' := by
  unfold FieldSpec.predicate?
  cases ht : spec.filterToken? key with
  | none => rfl
  | some t => rw [Option.bind_some, Option.bind_some, h t ht]

/-- **Only what the values of plain keys become counts**: a query that has the same plain keys as an
accepted one, with values that become the same, is accepted with the same filter. -/
theorem compile_congr_of_alike {raw' : RawQuery} {q : CompiledQuery}
    (h : ∀ key, spec.IsPlain key → Option.Rel (spec.Alike key) (raw.get? key) (raw'.get? key))
    (hq : spec.compile raw = .ok q) : spec.compile raw' =
      .ok ⟨q.filter, (spec.limits.extract raw').value, spec.reservedParameters raw'⟩ := by
  obtain ⟨hr, hc, rfl⟩ := compile_eq_ok_iff.1 hq
  have hstage {γ : Type} {f : String × String → Option γ}
      (hplain : ∀ key value, ¬ spec.IsPlain key → f (key, value) = none)
      (halike : ∀ key value value', spec.Alike key value value' →
        f (key, value) = f (key, value')) :
      raw.entries.filterMap f = raw'.entries.filterMap f := by
    refine KeyMap.filterMap_congr fun key => ?_
    by_cases hkey : spec.IsPlain key
    · have hrel := h key hkey
      generalize raw.get? key = value? at hrel
      generalize raw'.get? key = value'? at hrel
      cases hrel with
      | none => rfl
      | some hvalue => exact halike _ _ _ hvalue
    · have hnone (value? : Option String) : (value?.bind fun value => f (key, value)) = none := by
        simp [hplain key _ hkey]
      rw [hnone, hnone]
  have hrouting : spec.routingErrors raw = spec.routingErrors raw' :=
    hstage (fun _ _ hkey => routingError?_of_not_isPlain hkey) fun _ _ _ _ => rfl
  have hcoercion : spec.coercionErrors raw = spec.coercionErrors raw' :=
    hstage (fun _ _ hkey => by rw [coercionError?, filterToken?_of_not_isPlain hkey]; rfl)
      fun _ _ _ halike => halike.coercionError?
  have hpredicates : spec.acceptedPredicates raw = spec.acceptedPredicates raw' :=
    hstage (fun _ _ hkey => by rw [predicate?, filterToken?_of_not_isPlain hkey]; rfl)
      fun _ _ _ halike => halike.predicate?
  exact compile_eq_ok_iff.2 ⟨hrouting ▸ hr, hcoercion ▸ hc, by rw [hpredicates]⟩

/-- **Only plain keys count**: a query that agrees on them with an accepted one is accepted with the
same filter. -/
theorem compile_congr {raw' : RawQuery} {q : CompiledQuery}
    (h : ∀ key, spec.IsPlain key → raw.get? key = raw'.get? key) (hq : spec.compile raw = .ok q) :
    spec.compile raw' =
      .ok ⟨q.filter, (spec.limits.extract raw').value, spec.reservedParameters raw'⟩ := by
  refine compile_congr_of_alike (fun key hkey => ?_) hq
  rw [h key hkey]
  cases raw'.get? key with
  | none => exact .none
  | some value => exact .some (Alike.refl key value)

/-! ## The order of errors -/

theorem pairwise_filterMap_key {raw : RawQuery} {f : String × String → Option KeyError}
    (h : ∀ e err, f e = some err → err.key = e.1) :
    (raw.entries.filterMap f).Pairwise (·.key < ·.key) := by
  refine List.pairwise_filterMap.2 (raw.sorted.imp fun {a b} hab x hx y hy => ?_)
  rw [h a x hx, h b y hy]
  exact hab

/-- **The errors of a rejection** are in strictly ascending order of their keys. -/
theorem errors_pairwise {e : QueryError} (h : spec.compile raw = .error e) :
    e.errors.Pairwise (·.key < ·.key) := by
  rcases compile_eq_error_iff.1 h with he | ⟨-, he⟩
  · rw [he]
    exact pairwise_filterMap_key fun e err h => (routingError?_eq_some_iff.1 h).1
  · rw [he]
    exact pairwise_filterMap_key fun e err h => (coercionError?_eq_some_iff.1 h).1

end FieldSpec

end QueryFilter
