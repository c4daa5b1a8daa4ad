import QueryFilter.Proofs.ByteOrder
import QueryFilter.Proofs.Filter

/-!
# Filters as stable groupings

However predicates get into a filter, one by one, several at once or anew from a list, they end up
sorted by the bytes of their attributes, and on each attribute in the order in which they came. No
attribute is kept without conditions, so that the conditions on each attribute determine the filter.

* `Filter.Grouped`, `Filter.Grouped.push`, `Filter.MadeOf.grouped`: the invariant of filters, kept
  by each step and by every history;
* **`Filter.Grouped.ext`**: filters with the same conditions on each attribute are equal;
* `Filter.extend_comm`: predicates of different attributes may be added in either order;
* `Filter.Groups`, **`Filter.grouping_exact`**: what a filter is in terms of its predicates.
-/

namespace QueryFilter.Filter

variable {f g : Filter} {ps : List Predicate}

/-! ## The invariant -/

/-- No attribute is kept without conditions. -/
def Grouped (f : Filter) : Prop :=
  ∀ e ∈ f.byAttribute.entries, e.2 ≠ []

theorem grouped_iff : f.Grouped ↔
    ∀ attr conditions, f.byAttribute.get? attr = some conditions → conditions ≠ [] := by
  constructor
  · exact fun h attr conditions hget => h (attr, conditions) (KeyMap.mem_entries_iff.2 hget)
  · exact fun h e he => h e.1 e.2 (KeyMap.mem_entries_iff.1 he)

theorem grouped_empty : empty.Grouped :=
  fun _ he => absurd he List.not_mem_nil

/-- Adding a predicate leaves no attribute without conditions. -/
theorem Grouped.push (h : f.Grouped) (p : Predicate) : (f.push p).Grouped := by
  rw [grouped_iff] at h ⊢
  intro attr conditions hget
  rw [Filter.push, KeyMap.get?_insert] at hget
  split at hget
  · cases hget
    exact List.append_ne_nil_of_right_ne_nil _ (List.cons_ne_nil _ _)
  · exact h attr conditions hget

theorem Grouped.extend (h : f.Grouped) (ps : List Predicate) : (f.extend ps).Grouped := by
  induction ps generalizing f with
  | nil => exact h
  | cons p ps ih => exact ih (h.push p)

/-- **No history leaves an attribute without conditions.** -/
theorem MadeOf.grouped (h : f.MadeOf ps) : f.Grouped := by
  induction h with
  | empty => exact grouped_empty
  | push _ p ih => exact ih.push p
  | extend _ qs ih => exact ih.extend qs
  | collect ps => exact grouped_empty.extend ps

/-! ## Filters by their conditions -/

/-- What is kept for an attribute are its conditions, if there are any. -/
theorem Grouped.get?_eq (h : f.Grouped) (attr : String) :
    f.byAttribute.get? attr = if f.get attr = [] then none else some (f.get attr) := by
  rw [get]
  cases hget : f.byAttribute.get? attr with
  | none => rw [Option.getD_none, if_pos rfl]
  | some conditions => rw [Option.getD_some, if_neg (grouped_iff.1 h attr conditions hget)]

/-- **Filters with the same conditions on each attribute are equal.** -/
theorem Grouped.ext (hf : f.Grouped) (hg : g.Grouped) (h : ∀ attr, f.get attr = g.get attr) :
    f = g := by
  have hmaps : f.byAttribute = g.byAttribute := by
    refine KeyMap.ext_get? fun attr => ?_
    rw [hf.get?_eq, hg.get?_eq, h attr]
  cases f
  cases g
  exact congrArg mk hmaps

/-- A filter is collected again from its predicates. -/
theorem Grouped.ofPredicates_predicates (h : f.Grouped) : ofPredicates f.predicates = f := by
  refine (grouped_empty.extend _).ext h fun attr => ?_
  rw [← ofPredicates, get_ofPredicates, filter_predicates, ofEntry, List.map_map]
  exact List.map_id'' (fun c => Condition.condition_on attr c) _

/-- **Predicates of different attributes** may be added in either order. -/
theorem Grouped.extend_comm (h : f.Grouped) {qs rs : List Predicate}
    (hdisjoint : ∀ q ∈ qs, ∀ r ∈ rs, q.attr ≠ r.attr) :
    (f.extend qs).extend rs = (f.extend rs).extend qs := by
  refine ((h.extend qs).extend rs).ext ((h.extend rs).extend qs) fun attr => ?_
  -- one of the two lists has nothing on this attribute
  have hnone : qs.filter (·.attr = attr) = [] ∨ rs.filter (·.attr = attr) = [] := by
    by_cases hq : ∃ q ∈ qs, q.attr = attr
    · obtain ⟨q, hq, rfl⟩ := hq
      refine .inr (List.filter_eq_nil_iff.2 fun r hr heq => ?_)
      exact hdisjoint q hq r hr (of_decide_eq_true heq).symm
    · exact .inl (List.filter_eq_nil_iff.2 fun q hqs heq => hq ⟨q, hqs, of_decide_eq_true heq⟩)
  rw [get_extend, get_extend, get_extend, get_extend]
  rcases hnone with hnone | hnone <;> simp [hnone]

theorem Grouped.isEmpty_iff (h : f.Grouped) : f.isEmpty = true ↔ f.predicates = [] := by
  rw [isEmpty, KeyMap.isEmpty, List.isEmpty_iff, predicates_eq, List.flatMap_eq_nil_iff]
  constructor
  · intro hnil e he
    rw [hnil] at he
    exact absurd he List.not_mem_nil
  · intro hnone
    refine List.eq_nil_iff_forall_not_mem.2 fun e he => ?_
    exact h e he (List.map_eq_nil_iff.1 (hnone e he))

theorem isEmpty_ofPredicates_iff :
    (ofPredicates ps).isEmpty = true ↔ (ofPredicates ps).predicates = [] :=
  (grouped_empty.extend ps).isEmpty_iff

/-! ## The grouping -/

/-- The bytes of the attribute of a predicate. -/
def attributeBytes (p : Predicate) : List UInt8 :=
  Utf8.encode p.attr.toList

theorem attributeBytes_le_iff {p q : Predicate} :
    attributeBytes p ≤ attributeBytes q ↔ p.attr ≤ q.attr := by
  rw [← List.not_lt, attributeBytes, attributeBytes, Utf8.encode_lt_encode_iff, ← not_lt]
  rfl

theorem predicates_ofPredicates_bytes (ps : List Predicate) :
    (ofPredicates ps).predicates = ps.mergeSort (attributeBytes · ≤ attributeBytes ·) := by
  have horder : (fun p q : Predicate => decide (attributeBytes p ≤ attributeBytes q)) =
      fun p q => decide (p.attr ≤ q.attr) := by
    funext p q
    exact decide_eq_decide.2 attributeBytes_le_iff
  rw [predicates_ofPredicates, horder]

/-- **What a filter of some predicates is.** They are sorted by the bytes of their attributes, and
on each attribute they are in the order in which they came; its attributes are theirs, in strictly
ascending order; its size is their number. No attribute is kept without conditions, and it is empty
only if its size is zero. -/
structure Groups (f : Filter) (ps : List Predicate) : Prop where
  sorted : f.predicates = ps.mergeSort (attributeBytes · ≤ attributeBytes ·)
  stable : ∀ attr, f.predicates.filter (·.attr = attr) = ps.filter (·.attr = attr)
  conditions : ∀ attr, f.get attr = (ps.filter (·.attr = attr)).map (·.condition)
  ascending : (f.attributes.map fun attr => Utf8.encode attr.toList).Pairwise (· < ·)
  attributes : ∀ attr, attr ∈ f.attributes ↔ ∃ p ∈ ps, p.attr = attr
  size : f.size = ps.length
  grouped : ∀ e ∈ f.byAttribute.entries, e.2 ≠ []
  isEmpty_iff : f.isEmpty = true ↔ f.size = 0

theorem groups_ofPredicates (ps : List Predicate) : (ofPredicates ps).Groups ps where
  sorted := predicates_ofPredicates_bytes ps
  stable attr := by rw [predicates_ofPredicates, filter_mergeSort]
  conditions := get_ofPredicates ps
  ascending :=
    List.pairwise_map.2 ((attributes_pairwise _).imp fun hlt => Utf8.encode_lt_encode hlt)
  attributes _ := mem_attributes_ofPredicates
  size := by rw [size_eq_length, (predicates_ofPredicates_perm ps).length_eq]
  grouped := grouped_empty.extend ps
  isEmpty_iff := by rw [isEmpty_ofPredicates_iff, size_eq_length, List.length_eq_zero_iff]

/-- **A filter is a stable grouping** of the predicates that it was made of, in whatever steps. It
is therefore made again of its own predicates, and predicates of different attributes may be added
to it in either order. -/
theorem grouping_exact (h : f.MadeOf ps) :
    f.Groups ps ∧ ofPredicates f.predicates = f ∧
      (∀ p q : Predicate, p.attr ≠ q.attr → (f.push p).push q = (f.push q).push p) ∧
      ∀ qs rs : List Predicate, (∀ q ∈ qs, ∀ r ∈ rs, q.attr ≠ r.attr) →
        (f.extend qs).extend rs = (f.extend rs).extend qs := by
  have hgrouped : f.Grouped := h.grouped
  refine ⟨?_, hgrouped.ofPredicates_predicates, fun p q hne => ?_,
    fun qs rs => hgrouped.extend_comm⟩
  · rw [h.eq_ofPredicates]
    exact groups_ofPredicates ps
  · have hdisjoint : ∀ q' ∈ [p], ∀ r ∈ [q], q'.attr ≠ r.attr := by simpa using hne
    exact hgrouped.extend_comm hdisjoint

/-- A history of all kinds of steps, with an attribute that begins another one and one that is not
of letters. -/
theorem grouping_exact_history :
    let since := [⟨"b", .gte, .int 18⟩, ⟨"é", .eq, .bool true⟩, ⟨"ba", .ne, .text "x"⟩,
      ⟨"b", .lt, .int 7⟩]
    let f := (((ofPredicates [⟨"b", .gte, .int 18⟩]).push ⟨"é", .eq, .bool true⟩).extend
      [⟨"ba", .ne, .text "x"⟩, ⟨"b", .lt, .int 7⟩])
    f.MadeOf since ∧ f.Groups since ∧ ofPredicates f.predicates = f ∧
      f.predicates = [⟨"b", .gte, .int 18⟩, ⟨"b", .lt, .int 7⟩, ⟨"ba", .ne, .text "x"⟩,
        ⟨"é", .eq, .bool true⟩] ∧
      (f.push ⟨"a", .eq, .int 1⟩).push ⟨"b", .eq, .int 2⟩ =
        (f.push ⟨"b", .eq, .int 2⟩).push ⟨"a", .eq, .int 1⟩ ∧
      (f.extend [⟨"a", .eq, .int 1⟩]).extend [⟨"b", .eq, .int 2⟩] =
        (f.extend [⟨"b", .eq, .int 2⟩]).extend [⟨"a", .eq, .int 1⟩] := by
  intro since f
  have hf : f.MadeOf since := ((MadeOf.collect _).push _).extend _
  obtain ⟨hgroups, hagain, hpush, hextend⟩ := grouping_exact hf
  exact ⟨hf, hgroups, hagain, by decide +kernel, hpush _ _ (by decide), hextend _ _ (by simp)⟩

end QueryFilter.Filter
