import QueryFilter.Proofs.Building
import QueryFilter.Proofs.Coerce
import QueryFilter.Proofs.Compile

/-!
# Acceptance and rejection

Which queries compile, and what a rejection names, without the splitting of keys: a key is admissible
if it is the key of an admitted comparison or has a use of its own.

* `FieldSpec.Admissible`, `FieldSpec.KeyFault`, `FieldSpec.ValueFault`: the grammar of keys, and
  what can be wrong with a key and with a value;
* `FieldSpec.WellFormed.admissible_iff`: the admissible keys are those with a route;
* `QueryError.Reports`: a rejection for exactly some keys, in the order of their bytes;
* **`FieldSpec.compile_exact`**: rejection for inadmissible keys, else for faulty values, else
  acceptance.
-/

namespace QueryFilter

namespace QueryError

/-- **A rejection for exactly the keys of a kind**, each once, in ascending order of their bytes, and
each for the reason it deserves. -/
structure Reports (e : QueryError) (faulty : String → Prop) (fault : String → Reason → Prop) :
    Prop where
  ascending : (e.keys.map fun key => Utf8.encode key.toList).Pairwise (· < ·)
  keys : ∀ key, key ∈ e.keys ↔ faulty key
  reasons : ∀ err ∈ e.errors, fault err.key err.reason

theorem mem_keys_iff {e : QueryError} {key : String} :
    key ∈ e.keys ↔ ∃ reason, ⟨key, reason⟩ ∈ e.errors := by
  rw [keys, List.mem_map]
  constructor
  · rintro ⟨err, he, rfl⟩
    exact ⟨err.reason, he⟩
  · rintro ⟨reason, he⟩
    exact ⟨_, he, rfl⟩

theorem keys_ascending {e : QueryError} (h : e.errors.Pairwise (·.key < ·.key)) :
    (e.keys.map fun key => Utf8.encode key.toList).Pairwise (· < ·) := by
  rw [keys, List.pairwise_map, List.pairwise_map]
  exact h.imp fun hlt => Utf8.encode_lt_encode hlt

/-- The reason that is found for a key is the one reported. -/
theorem get?_eq_some_iff {e : QueryError} (h : e.errors.Pairwise (·.key < ·.key)) {key : String}
    {reason : Reason} : e.get? key = some reason ↔ ⟨key, reason⟩ ∈ e.errors := by
  rw [get?, Option.map_eq_some_iff]
  constructor
  · rintro ⟨err, hf, rfl⟩
    have hk : err.key = key := by simpa using List.find?_some hf
    rw [← hk]
    exact List.mem_of_find?_eq_some hf
  · intro hm
    have hnodup : (e.errors.map (·.key)).Nodup :=
      List.pairwise_map.2 (h.imp fun {a b : KeyError} (hlt : a.key < b.key) => hlt.ne)
    obtain ⟨err, hf⟩ := Option.isSome_iff_exists.1
      (List.find?_isSome.2 ⟨_, hm, by simp⟩ : (e.errors.find? (·.key = key)).isSome)
    have hk : err.key = key := by simpa using List.find?_some hf
    have same : err = ⟨key, reason⟩ :=
      List.inj_on_of_nodup_map hnodup (List.mem_of_find?_eq_some hf) hm hk
    exact ⟨err, hf, by rw [same]⟩

end QueryError

namespace FieldSpec

/-- **The keys of an endpoint**: those that select a page, those handed on, the attributes, and with
a suffix the attributes that admit every operator. -/
def Admissible (spec : FieldSpec) (key : String) : Prop :=
  key = "page" ∨ key = "limit" ∨ spec.isReserved key = true ∨
  spec.isEqualityOnly key = true ∨ spec.isAnyOperator key = true ∨
  ∃ attr, spec.isAnyOperator attr = true ∧
    ∃ t ∈ ["lte", "gte", "lt", "gt", "ne", "like"], key = attr ++ "_" ++ t

/-- What is wrong with an inadmissible key. -/
inductive KeyFault (spec : FieldSpec) : String → Reason → Prop
  | illegal {attr : String} {op : Operator} (ha : spec.isEqualityOnly attr = true)
    (ho : op ∈ Operator.suffixed) :
    KeyFault spec (attr ++ "_" ++ op.token) (.illegalOperator attr op)
  | unknown {key : String} (h : ∀ attr op, spec.isEqualityOnly attr = true →
      op ∈ Operator.suffixed → key ≠ attr ++ "_" ++ op.token) :
    KeyFault spec key (.unknownAttribute (Token.ofKey key).attr)

/-- What is wrong with a value: a comparison by size meets a text that writes no number. -/
inductive ValueFault (spec : FieldSpec) (raw : RawQuery) : String → Reason → Prop
  | notANumber {attr value : String} {op : Operator} (ha : spec.isAnyOperator attr = true)
    (ho : op ∈ [Operator.gt, .gte, .lt, .lte])
    (hr : spec.isReserved (attr ++ "_" ++ op.token) = false)
    (hv : raw.get? (attr ++ "_" ++ op.token) = some value) (hn : ¬ WritesNumber value) :
    ValueFault spec raw (attr ++ "_" ++ op.token) (.notANumber op value)

variable {spec : FieldSpec} {raw : RawQuery} {key : String} {reason : Reason}

/-! ## Keys -/

namespace WellFormed

theorem ne_empty (hs : spec.WellFormed) {attr : String} (h : spec.IsAttribute attr) : attr ≠ "" :=
  ne_empty_of_isIdentifier (hs.identifier h)

/-- A suffix is admitted behind the attributes that admit every operator. -/
theorem admits_suffix_iff (hs : spec.WellFormed) {attr : String} {op : Operator} (ho : op ≠ .eq) :
    spec.Admits ⟨attr, op⟩ ↔ spec.isAnyOperator attr = true := by
  constructor
  · rintro ⟨ha, he⟩
    exact ha.resolve_left fun h => ho (he h)
  · intro ha
    refine ⟨.inr ha, fun he => ?_⟩
    rw [hs.disjoint he] at ha
    cases ha

theorem admits_of_admissible (hs : spec.WellFormed) (hk : spec.IsPlain key)
    (h : spec.Admissible key) : spec.Admits (.ofKey key) := by
  obtain ⟨hp, hr⟩ := hk
  have attribute_admits (ha : spec.IsAttribute key) : spec.Admits (.ofKey key) := by
    rw [hs.addressable ha]
    exact ⟨ha, fun _ => rfl⟩
  rcases h with rfl | rfl | h | h | h | ⟨attr, ha, t, ht, rfl⟩
  · exact absurd (by decide) hp
  · exact absurd (by decide) hp
  · rw [h] at hr
    cases hr
  · exact attribute_admits (.inl h)
  · exact attribute_admits (.inr h)
  · obtain ⟨op, ho, rfl⟩ : ∃ op ∈ Operator.suffixed, op.token = t := List.mem_map.1 ht
    have hne := Operator.mem_suffixed_iff.1 ho
    rw [Token.ofKey_suffix (hs.ne_empty (.inr ha)) hne]
    exact (hs.admits_suffix_iff hne).2 ha

theorem admissible_of_admits (hs : spec.WellFormed) (h : spec.Admits (.ofKey key)) :
    spec.Admissible key := by
  rcases Token.ofKey_cases key with ⟨attr, op, -, ho, rfl, hof⟩ | hof
  · rw [hof] at h
    exact .inr (.inr (.inr (.inr (.inr ⟨attr, (hs.admits_suffix_iff ho).1 h, op.token,
      List.mem_map_of_mem (Operator.mem_suffixed_iff.2 ho), rfl⟩))))
  · rw [hof] at h
    exact .inr (.inr (.inr (h.1.imp id .inl)))

/-- **The admissible keys** are those that are not rejected. -/
theorem admissible_iff (hs : spec.WellFormed) :
    spec.Admissible key ↔ ¬ ∃ reason, spec.route key = .error reason := by
  rw [exists_route_eq_error_iff, not_and, not_not]
  constructor
  · exact fun h hk => hs.admits_of_admissible hk h
  · intro h
    by_cases hp : key ∈ paginationKeys
    · rcases mem_paginationKeys_iff.1 hp with e | e
      · exact .inl e
      · exact .inr (.inl e)
    · cases hr : spec.isReserved key with
      | true => exact .inr (.inr (.inl hr))
      | false => exact hs.admissible_of_admits (h ⟨hp, hr⟩)

theorem keyFault_of_route (hs : spec.WellFormed) (h : spec.route key = .error reason) :
    spec.KeyFault key reason := by
  have hr := spec.routed key
  rw [h] at hr
  cases hr with
  | illegal hk ha ho =>
    obtain ⟨attr, op, -, hne, rfl, hof⟩ := Token.exists_suffix_of_ne_eq ho
    rw [hof] at ha ⊢
    exact .illegal ha (Operator.mem_suffixed_iff.2 hne)
  | unknown hk ha =>
    refine .unknown fun attr op he ho => ?_
    rintro rfl
    rw [Token.ofKey_suffix (hs.ne_empty (.inl he)) (Operator.mem_suffixed_iff.1 ho)] at ha
    exact ha (.inl he)

/-! ## Values -/

/-- **The coercion errors** are the faults of values. -/
theorem mem_coercionErrors_iff (hs : spec.WellFormed) :
    ⟨key, reason⟩ ∈ spec.coercionErrors raw ↔ spec.ValueFault raw key reason := by
  rw [FieldSpec.mem_coercionErrors_iff]
  simp only [filterToken?_eq_some_iff, coerce_eq_error_iff]
  constructor
  · rintro ⟨value, t, hv, ⟨⟨-, hr⟩, rfl, ha⟩, ho, hn, rfl⟩
    have hne : (Token.ofKey key).operator ≠ .eq := fun e => by
      rw [e] at ho
      cases ho
    obtain ⟨attr, op, -, hop, rfl, hof⟩ := Token.exists_suffix_of_ne_eq hne
    rw [hof] at ha ho ⊢
    exact .notANumber ((hs.admits_suffix_iff hop).1 ha) (Operator.isRange_iff.1 ho) hr hv hn
  · intro h
    obtain @⟨attr, value, op, ha, ho, hr, hv, hn⟩ := h
    have hrange := Operator.isRange_iff.2 ho
    have hne : op ≠ .eq := by
      rintro rfl
      cases hrange
    have hattr := hs.ne_empty (.inr ha)
    exact ⟨value, ⟨attr, op⟩, hv, ⟨⟨suffixed_not_mem_paginationKeys hattr hne, hr⟩,
      (Token.ofKey_suffix hattr hne).symm, (hs.admits_suffix_iff hne).2 ha⟩, hrange, hn, rfl⟩

theorem mem_routingErrors (hs : spec.WellFormed) (h : ⟨key, reason⟩ ∈ spec.routingErrors raw) :
    (key ∈ raw.keys ∧ ¬ spec.Admissible key) ∧ spec.KeyFault key reason := by
  obtain ⟨hk, hr⟩ := mem_routingErrors_iff.1 h
  rw [hs.admissible_iff, not_not]
  exact ⟨⟨hk, reason, hr⟩, hs.keyFault_of_route hr⟩

theorem routingErrors_eq_nil_iff (hs : spec.WellFormed) :
    spec.routingErrors raw = [] ↔ ∀ key ∈ raw.keys, spec.Admissible key := by
  rw [List.eq_nil_iff_forall_not_mem]
  constructor
  · intro h key hk
    rw [hs.admissible_iff]
    rintro ⟨reason, hr⟩
    exact h ⟨key, reason⟩ (mem_routingErrors_iff.2 ⟨hk, hr⟩)
  · rintro h ⟨key, reason⟩ he
    obtain ⟨⟨hk, hn⟩, -⟩ := hs.mem_routingErrors he
    exact hn (h key hk)

theorem coercionErrors_eq_nil_iff (hs : spec.WellFormed) :
    spec.coercionErrors raw = [] ↔ ¬ ∃ key reason, spec.ValueFault raw key reason := by
  rw [List.eq_nil_iff_forall_not_mem]
  constructor
  · rintro h ⟨key, reason, hf⟩
    exact h _ (hs.mem_coercionErrors_iff.2 hf)
  · rintro h ⟨key, reason⟩ he
    exact h ⟨key, reason, hs.mem_coercionErrors_iff.1 he⟩

end WellFormed

/-! ## Outcomes -/

theorem reports_keys (hs : spec.WellFormed) {e : QueryError} (he : spec.compile raw = .error e)
    (hl : e.errors = spec.routingErrors raw) :
    e.Reports (fun key => key ∈ raw.keys ∧ ¬ spec.Admissible key) spec.KeyFault := by
  refine ⟨QueryError.keys_ascending (errors_pairwise he), fun key => ?_, fun err herr => ?_⟩
  · rw [QueryError.mem_keys_iff, hl]
    constructor
    · rintro ⟨reason, hm⟩
      exact (hs.mem_routingErrors hm).1
    · rintro ⟨hkey, hn⟩
      rw [hs.admissible_iff, not_not] at hn
      exact hn.imp fun reason hr => mem_routingErrors_iff.2 ⟨hkey, hr⟩
  · rw [hl] at herr
    exact (hs.mem_routingErrors herr).2

theorem reports_values (hs : spec.WellFormed) {e : QueryError} (he : spec.compile raw = .error e)
    (hl : e.errors = spec.coercionErrors raw) :
    e.Reports (fun key => ∃ reason, spec.ValueFault raw key reason) (spec.ValueFault raw) := by
  refine ⟨QueryError.keys_ascending (errors_pairwise he), fun key => ?_, fun err herr => ?_⟩
  · rw [QueryError.mem_keys_iff, hl]
    simp only [hs.mem_coercionErrors_iff]
  · rw [hl] at herr
    exact hs.mem_coercionErrors_iff.1 herr

theorem exists_error_of_ne_nil (h : spec.routingErrors raw ≠ [] ∨ spec.coercionErrors raw ≠ []) :
    ∃ e, spec.compile raw = .error e := by
  cases hc : spec.compile raw with
  | error e => exact ⟨e, rfl⟩
  | ok q =>
    obtain ⟨hr, hco, -⟩ := compile_eq_ok_iff.1 hc
    exact (h.elim (· hr) (· hco)).elim

/-- **Compilation accepts and rejects as specified.** Inadmissible keys are all reported, whatever
the values are; without them, all values that should write a number and do not; without these
either, the query is accepted. A rejection is found by its keys. -/
theorem compile_exact {b : Builder} {spec : FieldSpec} (hb : b.build = .ok spec)
    (raw : RawQuery) :
    ((∃ key ∈ raw.keys, ¬ spec.Admissible key) →
      ∃ e, spec.compile raw = .error e ∧
        e.Reports (fun key => key ∈ raw.keys ∧ ¬ spec.Admissible key) spec.KeyFault) ∧
    ((∀ key ∈ raw.keys, spec.Admissible key) → (∃ key reason, spec.ValueFault raw key reason) →
      ∃ e, spec.compile raw = .error e ∧
        e.Reports (fun key => ∃ reason, spec.ValueFault raw key reason) (spec.ValueFault raw)) ∧
    ((∀ key ∈ raw.keys, spec.Admissible key) → (¬ ∃ key reason, spec.ValueFault raw key reason) →
      ∃ q, spec.compile raw = .ok q) ∧
    ∀ e, spec.compile raw = .error e →
      e.errors ≠ [] ∧ ∀ key reason, e.get? key = some reason ↔ ⟨key, reason⟩ ∈ e.errors := by
  have hs := Builder.build_wellFormed hb
  refine ⟨fun h => ?_, fun hk h => ?_, fun hk h => ?_, fun e he => ?_⟩
  · have hne : spec.routingErrors raw ≠ [] := fun e => by
      obtain ⟨key, hkey, hn⟩ := h
      exact hn (hs.routingErrors_eq_nil_iff.1 e key hkey)
    obtain ⟨e, he⟩ := exists_error_of_ne_nil (.inl hne)
    have hl : e.errors = spec.routingErrors raw :=
      (compile_eq_error_iff.1 he).resolve_right fun h => hne h.1
    exact ⟨e, he, reports_keys hs he hl⟩
  · have hr := hs.routingErrors_eq_nil_iff.2 hk
    have hne : spec.coercionErrors raw ≠ [] := fun e => hs.coercionErrors_eq_nil_iff.1 e h
    obtain ⟨e, he⟩ := exists_error_of_ne_nil (.inr hne)
    have hl : e.errors = spec.coercionErrors raw :=
      ((compile_eq_error_iff.1 he).resolve_left fun h => e.errors_ne_nil (h.trans hr)).2
    exact ⟨e, he, reports_values hs he hl⟩
  · exact ⟨_, compile_eq_ok_iff.2 ⟨hs.routingErrors_eq_nil_iff.2 hk,
      hs.coercionErrors_eq_nil_iff.2 h, rfl⟩⟩
  · exact ⟨e.errors_ne_nil, fun key reason => QueryError.get?_eq_some_iff (errors_pairwise he)⟩

/-- A query with two inadmissible keys beside a faulty value, the query without them, and the query
with the value put right. -/
theorem exact_ages :
    let b : Builder := { equalityOnly := ["role"], anyOperator := ["age"], reserved := ["sort"] }
    let spec := b.rules {}
    let mixed : RawQuery := .ofList
      [("role_like", "x"), ("age_gt", "old"), ("sort", "-age"), ("nope", "1")]
    let faulty : RawQuery := .ofList [("age_gt", "old"), ("sort", "-age")]
    let right : RawQuery := .ofList [("age_gt", "+18"), ("sort", "-age")]
    b.build = .ok spec ∧
    (∃ e, spec.compile mixed = .error e ∧
      e.Reports (fun key => key ∈ mixed.keys ∧ ¬ spec.Admissible key) spec.KeyFault ∧
      e.errors = [⟨"nope", .unknownAttribute "nope"⟩,
        ⟨"role_like", .illegalOperator "role" .like⟩]) ∧
    (∃ e, spec.compile faulty = .error e ∧
      e.Reports (fun key => ∃ reason, spec.ValueFault faulty key reason) (spec.ValueFault faulty) ∧
      e.errors = [⟨"age_gt", .notANumber .gt "old"⟩]) ∧
    ∃ q, spec.compile right = .ok q := by
  intro b spec mixed faulty right
  have hb : b.build = .ok spec := by decide +kernel
  have hs := Builder.build_wellFormed hb
  obtain ⟨e, he, hr⟩ := (compile_exact hb mixed).1
    ⟨"nope", by decide +kernel, fun h => hs.admissible_iff.1 h ⟨_, rfl⟩⟩
  obtain ⟨e', he', hr'⟩ := (compile_exact hb faulty).2.1
    (hs.routingErrors_eq_nil_iff.1 (by decide +kernel))
    ⟨"age_gt", .notANumber .gt "old", hs.mem_coercionErrors_iff.1 (by decide +kernel)⟩
  have hok := (compile_exact hb right).2.2.1 (hs.routingErrors_eq_nil_iff.1 (by decide +kernel))
    (hs.coercionErrors_eq_nil_iff.1 (by decide +kernel))
  refine ⟨hb, ⟨e, he, hr, ?_⟩, ⟨e', he', hr', ?_⟩, hok⟩
  · rw [(compile_eq_error_iff.1 he).resolve_right fun h => absurd h.1 (by decide +kernel)]
    decide +kernel
  · rw [((compile_eq_error_iff.1 he').resolve_left fun h => e'.errors_ne_nil
      (h.trans (by decide +kernel))).2]
    decide +kernel

end FieldSpec

end QueryFilter
