import QueryFilter.Proofs.Building
import QueryFilter.Proofs.Coerce
import QueryFilter.Proofs.Compile
import QueryFilter.Proofs.Registry

/-!
# The whitelist boundary

Nothing gets into a filter that the rules of its endpoint do not name, whatever the keys and the
values of a query are.

* `FieldSpec.Whitelisted`: what a predicate has to satisfy;
* `FieldSpec.WellFormed.whitelisted`: well-formed rules let nothing else through;
* **`FieldSpec.compile_whitelisted`**: neither do the rules that a builder accepts, used directly or
  through a registry.
-/

namespace QueryFilter.FieldSpec

/-- **A predicate within the whitelist** of an endpoint. -/
structure Whitelisted (spec : FieldSpec) (raw : RawQuery) (p : Predicate) : Prop where
  listed : spec.isEqualityOnly p.attr = true ∨ spec.isAnyOperator p.attr = true
  exact_match : spec.isEqualityOnly p.attr = true → p.operator = .eq
  name : IsName p.attr
  unpaged : p.attr ≠ "page" ∧ p.attr ≠ "limit"
  unreserved : spec.isReserved p.attr = false
  range : p.operator ∈ [Operator.gt, .gte, .lt, .lte] →
    (∃ i, p.value = .int i) ∨ ∃ x, p.value = .float x ∧ x.isFinite = true
  like : p.operator = .like →
    ∃ value, raw.get? (p.attr ++ "_like") = some value ∧ p.value = .text value
  ne : p.operator = .ne → ∀ b, p.value ≠ .bool b
  finite : ∀ x, p.value = .float x → x.isFinite = true

/-- An admitted comparison with a coerced value is within the whitelist. -/
theorem WellFormed.whitelisted {spec : FieldSpec} {raw : RawQuery} {p : Predicate}
    (hs : spec.WellFormed) (h : p ∈ spec.acceptedPredicates raw) : spec.Whitelisted raw p := by
  obtain ⟨key, value, hv, ht, hc⟩ := mem_acceptedPredicates_iff.1 h
  obtain ⟨-, hof, ha, hexact⟩ := filterToken?_eq_some_iff.1 ht
  have hkey : Token.key ⟨p.attr, p.operator⟩ = key := by rw [hof, Token.key_ofKey]
  have hpage : p.attr ≠ "page" ∧ p.attr ≠ "limit" :=
    not_or.1 (mem_paginationKeys_iff.not.1 (hs.unpaged ha))
  refine ⟨ha, hexact, isIdentifier_iff.1 (hs.identifier ha), hpage, hs.unreserved ha, fun hop => ?_,
    fun hop => ?_, fun hop b hb => ?_, fun x hx => ?_⟩
  · exact coerce_range_cases (Operator.isRange_iff.2 hop) hc
  · rw [hop] at hc hkey
    exact ⟨value, by rw [← hv, ← hkey]; rfl, (Except.ok.inj hc).symm⟩
  · rw [hop] at hc
    rcases coerce_ne_cases hc with hn | ht
    · rcases number?_cases hn with ⟨i, hi⟩ | ⟨x, hx, -⟩
      · rw [hb] at hi
        cases hi
      · rw [hb] at hx
        cases hx
    · rw [hb] at ht
      cases ht
  · have hf := isFinite_of_coerce hc
    rw [hx] at hf
    exact hf

/-- **Every predicate of an accepted query is within the whitelist**, of rules that a builder
accepted and of those that a registry holds. -/
theorem compile_whitelisted :
    (∀ {b : Builder} {spec : FieldSpec} {raw : RawQuery} {q : CompiledQuery},
      b.build = .ok spec → spec.compile raw = .ok q →
        ∀ p ∈ q.filter.predicates, spec.Whitelisted raw p) ∧
    ∀ {g : Registry} {resource : Resource} {raw : RawQuery} {q : CompiledQuery},
      g.Reachable → g.compile resource raw = .ok (.ok q) →
        ∃ (b : Builder) (spec : FieldSpec), b.build = .ok spec ∧ g.spec resource = .ok spec ∧
          ∀ p ∈ q.filter.predicates, spec.Whitelisted raw p := by
  have direct {b : Builder} {spec : FieldSpec} {raw : RawQuery} {q : CompiledQuery}
      (hb : b.build = .ok spec) (hq : spec.compile raw = .ok q) :
      ∀ p ∈ q.filter.predicates, spec.Whitelisted raw p := fun p hp =>
    (Builder.build_wellFormed hb).whitelisted ((mem_predicates_iff hq).1 hp)
  refine ⟨direct, fun hg hq => ?_⟩
  obtain ⟨spec, hs, hq⟩ := Registry.compile_eq_ok_iff.1 hq
  obtain ⟨b, hb⟩ := hg.built _ spec (Registry.spec_eq_ok_iff.1 hs)
  exact ⟨b, spec, hb, hs, direct hb hq⟩

/-- A comparison by size and a search, on attributes of which one extends the other. -/
theorem whitelisted_ages :
    let b : Builder := { equalityOnly := ["role"], anyOperator := ["age", "age_max"] }
    let g := Registry.empty.register .users (b.rules {})
    let raw : RawQuery := .ofList [("age_max_gte", "18"), ("age_like", "1_gt"), ("page", "2")]
    ∃ q : CompiledQuery, b.build = .ok (b.rules {}) ∧ (b.rules {}).compile raw = .ok q ∧
      g.Reachable ∧ g.compile .users raw = .ok (.ok q) ∧
      q.filter.predicates = [⟨"age", .like, .text "1_gt"⟩, ⟨"age_max", .gte, .int 18⟩] ∧
      (∀ p ∈ q.filter.predicates, (b.rules {}).Whitelisted raw p) ∧
      ∃ (b : Builder) (spec : FieldSpec), b.build = .ok spec ∧ g.spec .users = .ok spec ∧
        ∀ p ∈ q.filter.predicates, spec.Whitelisted raw p := by
  intro b g raw
  have hb : b.build = .ok (b.rules {}) := by decide +kernel
  have hg : g.Reachable := .registered .empty .users hb
  exact ⟨_, hb, rfl, hg, rfl, by decide +kernel, compile_whitelisted.1 hb rfl,
    compile_whitelisted.2 hg rfl⟩

end QueryFilter.FieldSpec
