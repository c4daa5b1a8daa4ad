import QueryFilter.Proofs.Compile
import Mathlib.Data.List.Sort

/-!
# Nothing lost, nothing twice

The parameters of an accepted query against what it is compiled to.

* `Predicate.key`, `FieldSpec.acceptedPredicates_pairwise`: predicates are collected in the order of
  the keys that they come from;
* `FieldSpec.map_acceptedPredicates`: each parameter of the filter becomes one predicate;
* `FieldSpec.operators_sublist`: the operators on one attribute are in the order of their keys;
* **`FieldSpec.compile_conserves`**: what an accepted query holds, and how large it can be.
-/

namespace QueryFilter

/-! ## Lists -/

theorem map_filterMap_eq_map_filter {α β γ : Type} {f : α → Option β} {g : β → γ}
    {keep : α → Bool} {h : α → γ} {l : List α}
    (H : ∀ a ∈ l, (f a).map g = if keep a then some (h a) else none) :
    (l.filterMap f).map g = (l.filter keep).map h := by
  induction l with
  | nil => rfl
  | cons a l ih =>
    have ha := H a List.mem_cons_self
    have hl := ih fun b hb => H b (List.mem_cons_of_mem _ hb)
    cases hk : keep a with
    | true =>
      rw [hk, if_pos rfl] at ha
      obtain ⟨b, hb, hg⟩ := Option.map_eq_some_iff.1 ha
      rw [List.filterMap_cons_some hb, List.filter_cons_of_pos hk, List.map_cons, List.map_cons,
        hl, hg]
    | false =>
      rw [hk, if_neg Bool.false_ne_true] at ha
      rw [List.filterMap_cons_none (Option.map_eq_none_iff.1 ha),
        List.filter_cons_of_neg (by simp [hk]), hl]

theorem length_filter_three {α : Type} {p q r : α → Bool} {l : List α}
    (h : ∀ a ∈ l, (p a).toNat + (q a).toNat + (r a).toNat = 1) :
    (l.filter p).length + (l.filter q).length + (l.filter r).length = l.length := by
  induction l with
  | nil => rfl
  | cons a l ih =>
    have ha := h a List.mem_cons_self
    have hl := ih fun b hb => h b (List.mem_cons_of_mem _ hb)
    cases hp : p a <;> cases hq : q a <;> cases hr : r a <;> simp [hp, hq, hr] at ha ⊢ <;> omega

/-! ## The order of predicates -/

/-- The key that a predicate comes from. -/
def Predicate.key (p : Predicate) : String :=
  Token.key ⟨p.attr, p.operator⟩

namespace FieldSpec

variable {spec : FieldSpec} {raw : RawQuery} {q : CompiledQuery}

theorem key_eq_of_predicate? {key value : String} {p : Predicate}
    (h : spec.predicate? key value = some p) : p.key = key := by
  obtain ⟨ht, -⟩ := predicate?_eq_some_iff.1 h
  obtain ⟨-, hof, -⟩ := filterToken?_eq_some_iff.1 ht
  rw [Predicate.key, hof, Token.key_ofKey]

/-- Predicates are collected in the order of their keys. -/
theorem acceptedPredicates_pairwise (spec : FieldSpec) (raw : RawQuery) :
    (spec.acceptedPredicates raw).Pairwise (·.key < ·.key) := by
  refine List.pairwise_filterMap.2 (raw.sorted.imp fun {a b} hab x hx y hy => ?_)
  rw [key_eq_of_predicate? hx, key_eq_of_predicate? hy]
  exact hab

/-- The conditions on one attribute use the operators in the order of their keys, each once. -/
theorem operators_sublist (hq : spec.compile raw = .ok q) (attr : String) :
    ((q.filter.get attr).map (·.operator)).Sublist Operator.inKeyOrder := by
  obtain ⟨-, -, rfl⟩ := compile_eq_ok_iff.1 hq
  rw [Filter.get_ofPredicates, List.map_map]
  have hpair : (((spec.acceptedPredicates raw).filter (·.attr = attr)).map (·.operator)).Pairwise
      fun a b => Operator.inKeyOrder.idxOf a < Operator.inKeyOrder.idxOf b := by
    refine List.pairwise_map.2 (List.Pairwise.imp_of_mem (fun {p p'} hp hp' hlt => ?_)
      ((spec.acceptedPredicates_pairwise raw).filter _))
    have ha : p.attr = attr := by simpa using (List.mem_filter.1 hp).2
    have ha' : p'.attr = attr := by simpa using (List.mem_filter.1 hp').2
    rw [Predicate.key, Predicate.key, ha, ha'] at hlt
    exact Token.key_lt_key_iff.1 hlt
  have : Std.Antisymm fun a b => Operator.inKeyOrder.idxOf a < Operator.inKeyOrder.idxOf b :=
    ⟨fun a b h h' => absurd h' (lt_asymm h)⟩
  have hnodup : (((spec.acceptedPredicates raw).filter (·.attr = attr)).map (·.operator)).Nodup :=
    hpair.imp fun {a b} h (e : a = b) => lt_irrefl _ (e ▸ h)
  exact List.sublist_of_subperm_of_pairwise
    (List.subperm_of_subset hnodup fun op _ => op.mem_inKeyOrder) hpair (by decide)

/-! ## Every parameter -/

theorem isPlain_iff {key : String} :
    spec.IsPlain key ↔ key ≠ "page" ∧ key ≠ "limit" ∧ spec.isReserved key = false := by
  rw [IsPlain, mem_paginationKeys_iff, not_or, and_assoc]

theorem handsOn_iff {key : String} : spec.handsOn key = true ↔
    key ≠ "page" ∧ key ≠ "limit" ∧ spec.isReserved key = true := by
  have h : spec.handsOn key = true ↔ spec.route key = .ok .reserved := by
    unfold handsOn
    cases spec.route key with
    | error reason => simp
    | ok r => cases r <;> simp
  rw [h, route_eq_reserved_iff, mem_paginationKeys_iff, not_or, and_assoc]

/-- A key is for the filter, or handed on, or selects a page. -/
theorem uses_eq_one (spec : FieldSpec) (key : String) :
    (decide (key ≠ "page" ∧ key ≠ "limit" ∧ spec.isReserved key = false)).toNat +
      (spec.handsOn key).toNat + (decide (key = "page" ∨ key = "limit")).toNat = 1 := by
  have hh : spec.handsOn key =
      decide (key ≠ "page" ∧ key ≠ "limit" ∧ spec.isReserved key = true) :=
    Bool.eq_iff_iff.2 (by rw [decide_eq_true_eq]; exact handsOn_iff)
  rw [hh]
  by_cases hp : key = "page"
  · simp [hp]
  · by_cases hl : key = "limit"
    · simp [hl]
    · cases hr : spec.isReserved key <;> simp [hp, hl]

theorem admits_of_isPlain (hr : spec.routingErrors raw = []) {key : String}
    (hkey : key ∈ raw.keys) (hk : spec.IsPlain key) : spec.Admits (.ofKey key) := by
  by_contra hn
  obtain ⟨reason, h⟩ := exists_route_eq_error_iff.2 ⟨hk, hn⟩
  have hm : ⟨key, reason⟩ ∈ spec.routingErrors raw := mem_routingErrors_iff.2 ⟨hkey, h⟩
  rw [hr] at hm
  cases hm

/-- Without errors, a plain key is routed to the filter and its value is coerced. -/
theorem exists_predicate? (hr : spec.routingErrors raw = []) (hc : spec.coercionErrors raw = [])
    {key value : String} (he : (key, value) ∈ raw.entries) (hk : spec.IsPlain key) :
    ∃ v, coerce (Token.ofKey key).operator value = .ok v ∧
      spec.predicate? key value = some ⟨(Token.ofKey key).attr, (Token.ofKey key).operator, v⟩ := by
  have ha : spec.Admits (.ofKey key) := admits_of_isPlain hr (List.mem_map.2 ⟨_, he, rfl⟩) hk
  have ht : spec.filterToken? key = some (.ofKey key) := filterToken?_eq_some_iff.2 ⟨hk, rfl, ha⟩
  cases hv : coerce (Token.ofKey key).operator value with
  | error reason =>
    have hm : ⟨key, reason⟩ ∈ spec.coercionErrors raw :=
      mem_coercionErrors_iff.2 ⟨value, _, KeyMap.mem_entries_iff.1 he, ht, hv⟩
    rw [hc] at hm
    cases hm
  | ok v => exact ⟨v, rfl, predicate?_eq_some_iff.2 ⟨ht, hv⟩⟩

/-- Each parameter of the filter becomes one predicate. -/
theorem map_acceptedPredicates (hr : spec.routingErrors raw = [])
    (hc : spec.coercionErrors raw = []) :
    (spec.acceptedPredicates raw).map (fun p => (p.attr, p.operator, Except.ok p.value)) =
      (raw.entries.filter fun e =>
        e.1 ≠ "page" ∧ e.1 ≠ "limit" ∧ spec.isReserved e.1 = false).map fun e =>
        ((Token.ofKey e.1).attr, (Token.ofKey e.1).operator,
          coerce (Token.ofKey e.1).operator e.2) := by
  refine map_filterMap_eq_map_filter fun ⟨key, value⟩ he => ?_
  by_cases hk : spec.IsPlain key
  · obtain ⟨v, hv, hp⟩ := exists_predicate? hr hc he hk
    rw [if_pos (decide_eq_true (isPlain_iff.1 hk)), hp, hv]
    rfl
  · rw [if_neg fun h => hk (isPlain_iff.2 (of_decide_eq_true h)), Option.map_eq_none_iff,
      Option.eq_none_iff_forall_ne_some]
    intro p hp
    exact hk (filterToken?_eq_some_iff.1 (predicate?_eq_some_iff.1 hp).1).1

/-! ## The size of a filter -/

/-- The comparisons that the rules admit. -/
def comparisons (spec : FieldSpec) : List Token :=
  spec.equalityOnly.keys.map (⟨·, .eq⟩) ++
    spec.anyOperator.keys.flatMap fun attr => Operator.inKeyOrder.map (⟨attr, ·⟩)

theorem length_comparisons (spec : FieldSpec) :
    spec.comparisons.length = spec.equalityOnly.size + 7 * spec.anyOperator.size := by
  rw [comparisons, List.length_append, List.length_map, KeyMap.length_keys, List.length_flatMap]
  simp only [List.length_map, List.map_const', List.sum_replicate_nat, KeyMap.length_keys]
  rw [Nat.mul_comm]
  rfl

theorem mem_comparisons {t : Token} (h : spec.Admits t) : t ∈ spec.comparisons := by
  obtain ⟨attr, op⟩ := t
  obtain ⟨ha | ha, hexact⟩ := h
  · have hop : op = .eq := hexact ha
    rw [hop]
    exact List.mem_append_left _ (List.mem_map_of_mem (KeyMap.mem_keys_iff.2 ha))
  · exact List.mem_append_right _ (List.mem_flatMap.2 ⟨attr, KeyMap.mem_keys_iff.2 ha,
      List.mem_map_of_mem op.mem_inKeyOrder⟩)

/-- A filter makes each admitted comparison at most once. -/
theorem size_filter_le (hq : spec.compile raw = .ok q) :
    q.filter.size ≤ spec.equalityOnly.size + 7 * spec.anyOperator.size := by
  have hperm : q.filter.predicates.Perm (spec.acceptedPredicates raw) := by
    obtain ⟨-, -, rfl⟩ := compile_eq_ok_iff.1 hq
    exact Filter.predicates_ofPredicates_perm _
  have hnodup :
      ((spec.acceptedPredicates raw).map fun p => (⟨p.attr, p.operator⟩ : Token)).Nodup := by
    refine List.pairwise_map.2 ((spec.acceptedPredicates_pairwise raw).imp fun {p p'} hlt e => ?_)
    rw [Predicate.key, Predicate.key, e] at hlt
    exact lt_irrefl _ hlt
  have hsub : ((spec.acceptedPredicates raw).map fun p => (⟨p.attr, p.operator⟩ : Token)) ⊆
      spec.comparisons := by
    intro t ht
    obtain ⟨p, hp, rfl⟩ := List.mem_map.1 ht
    obtain ⟨key, value, -, htok, -⟩ := mem_acceptedPredicates_iff.1 hp
    obtain ⟨-, -, ha⟩ := filterToken?_eq_some_iff.1 htok
    exact mem_comparisons ha
  have hle := (List.subperm_of_subset hnodup hsub).length_le
  rwa [List.length_map, length_comparisons, ← hperm.length_eq, ← Filter.size_eq_length] at hle

/-- **An accepted query loses nothing and doubles nothing.** Its predicates are those of the
parameters that are neither handed on nor select a page, its reserved parameters are those of the
query, and the three kinds make up the query; attributes and operators are in order, and the filter
is no larger than its rules allow. -/
theorem compile_conserves {spec : FieldSpec} {raw : RawQuery} {q : CompiledQuery}
    (hq : spec.compile raw = .ok q) :
    (q.filter.predicates.map fun p => (p.attr, p.operator, Except.ok p.value)).Perm
      ((raw.entries.filter fun e =>
        e.1 ≠ "page" ∧ e.1 ≠ "limit" ∧ spec.isReserved e.1 = false).map fun e =>
        ((Token.ofKey e.1).attr, (Token.ofKey e.1).operator,
          coerce (Token.ofKey e.1).operator e.2)) ∧
    (∀ key, q.reserved.get? key =
      if key ≠ "page" ∧ key ≠ "limit" ∧ spec.isReserved key = true then raw.get? key else none) ∧
    q.filter.size + q.reserved.size +
      (raw.keys.filter fun key => key = "page" ∨ key = "limit").length = raw.size ∧
    (q.filter.attributes.map fun attr => Utf8.encode attr.toList).Pairwise (· < ·) ∧
    (∀ attr, ((q.filter.get attr).map (·.operator)).Sublist
      [.eq, .gt, .gte, .like, .lt, .lte, .ne]) ∧
    q.filter.size ≤ spec.equalityOnly.size + 7 * spec.anyOperator.size := by
  have hsub := operators_sublist hq
  have hsize := size_filter_le hq
  obtain ⟨hr, hc, rfl⟩ := compile_eq_ok_iff.1 hq
  have hperm := Filter.predicates_ofPredicates_perm (spec.acceptedPredicates raw)
  have hmap := map_acceptedPredicates hr hc
  refine ⟨?_, fun key => ?_, ?_, ?_, hsub, hsize⟩
  · rw [← hmap]
    exact hperm.map _
  · rw [reservedParameters, KeyMap.get?_filter]
    exact if_congr handsOn_iff rfl rfl
  · have hlen := congrArg List.length hmap
    rw [List.length_map, List.length_map] at hlen
    rw [Filter.size_eq_length, hperm.length_eq, hlen, KeyMap.keys, List.filter_map, List.length_map]
    exact length_filter_three fun e _ => spec.uses_eq_one e.1
  · rw [List.pairwise_map]
    exact (Filter.attributes_pairwise _).imp fun hlt => Utf8.encode_lt_encode hlt

/-- Two attributes of which one extends the other, so that the keys are in another order than the
predicates. -/
theorem conserves_ages :
    let b : Builder := { anyOperator := ["age", "age_max"], reserved := ["sort"] }
    let spec := b.rules {}
    let raw : RawQuery := .ofList [("age_ne", "7"), ("age_max", "60"), ("age_gt", "18"),
      ("sort", "-age"), ("limit", "5")]
    ∃ q : CompiledQuery, spec.compile raw = .ok q ∧
      q.filter.predicates =
        [⟨"age", .gt, .int 18⟩, ⟨"age", .ne, .int 7⟩, ⟨"age_max", .eq, .int 60⟩] ∧
      (∀ attr, ((q.filter.get attr).map (·.operator)).Sublist
        [.eq, .gt, .gte, .like, .lt, .lte, .ne]) ∧
      q.filter.size + q.reserved.size +
        (raw.keys.filter fun key => key = "page" ∨ key = "limit").length = raw.size ∧
      q.filter.size ≤ spec.equalityOnly.size + 7 * spec.anyOperator.size := by
  intro b spec raw
  obtain ⟨-, -, hsize, -, hsub, hle⟩ := @compile_conserves spec raw _ rfl
  exact ⟨_, rfl, by decide +kernel, hsub, hsize, hle⟩

end FieldSpec

end QueryFilter
