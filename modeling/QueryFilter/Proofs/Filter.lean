import QueryFilter.Filter
import QueryFilter.Key
import QueryFilter.Proofs.KeyMap

/-!
# Grouping by attribute

A filter regroups the predicates that it is given: it keeps each of them once, and under each
attribute in the order in which they came.

* `Filter.size_eq_length`: the size of a filter counts its predicates;
* **`Filter.get_ofPredicates`**: the conditions on an attribute are those given, in order;
* **`Filter.predicates_ofPredicates_perm`**: the predicates are those given, up to their order;
* `Filter.MadeOf`: how filters come about, and of which predicates;
* **`Filter.predicates_ofPredicates`**: they are sorted by attribute, and nothing else is moved;
* `Filter.predicates_append_append`: those of one attribute stand together between the others;
* `Predicate.token`, `Filter.tokens`, `Filter.tokens_ofPredicates`: the comparisons of a filter,
  which come about without its values.
-/

namespace QueryFilter

@[simp] theorem Predicate.on_condition (p : Predicate) : p.condition.on p.attr = p := rfl

@[simp] theorem Condition.condition_on (attr : String) (c : Condition) :
    (c.on attr).condition = c := rfl

/-- The comparison that a predicate makes, without its value. -/
def Predicate.token (p : Predicate) : Token :=
  ⟨p.attr, p.operator⟩

namespace Filter

/-- The predicates of one attribute and its conditions. -/
def ofEntry (e : String × List Condition) : List Predicate :=
  e.2.map (Condition.on e.1)

theorem predicates_eq (f : Filter) : f.predicates = f.byAttribute.entries.flatMap ofEntry := rfl

theorem size_eq_length (f : Filter) : f.size = f.predicates.length := by
  rw [predicates_eq, List.length_flatMap, size, ← List.sum_eq_foldl_nat, KeyMap.values, List.map_map]
  congr 1
  refine List.map_congr_left fun e _ => ?_
  simp [ofEntry]

theorem attributes_pairwise (f : Filter) : f.attributes.Pairwise (· < ·) :=
  f.byAttribute.keys_pairwise

/-! ## One attribute -/

theorem get_empty (attr : String) : empty.get attr = [] := rfl

theorem get_push (f : Filter) (p : Predicate) (attr : String) :
    (f.push p).get attr = f.get attr ++ ([p].filter (·.attr = attr)).map (·.condition) := by
  rw [push, get, KeyMap.get?_insert]
  by_cases h : attr = p.attr
  · subst h
    simp
  · rw [if_neg h, List.filter_cons_of_neg (by simpa using Ne.symm h)]
    simp [get]

theorem get_extend (f : Filter) (ps : List Predicate) (attr : String) :
    (f.extend ps).get attr = f.get attr ++ (ps.filter (·.attr = attr)).map (·.condition) := by
  induction ps generalizing f with
  | nil => simp [extend]
  | cons p ps ih =>
    rw [extend, List.foldl_cons, ← extend, ih, get_push, List.append_assoc, ← List.map_append,
      ← List.filter_append, List.singleton_append]

/-- **The conditions on an attribute** are those given, in the order in which they were. -/
theorem get_ofPredicates (ps : List Predicate) (attr : String) :
    (ofPredicates ps).get attr = (ps.filter (·.attr = attr)).map (·.condition) := by
  rw [ofPredicates, get_extend, get_empty, List.nil_append]

/-! ## All attributes -/

theorem predicates_perm_get (f : Filter) (attr : String) :
    f.predicates.Perm (ofEntry (attr, f.get attr) ++
      (f.byAttribute.entries.filter (·.1 ≠ attr)).flatMap ofEntry) := by
  cases h : f.byAttribute.get? attr with
  | none =>
    have absent : f.byAttribute.entries.filter (·.1 ≠ attr) = f.byAttribute.entries := by
      refine List.filter_eq_self.2 fun ⟨k, cs⟩ he => ?_
      have hk : k ≠ attr := by
        rintro rfl
        rw [KeyMap.mem_entries_iff, h] at he
        cases he
      simpa using hk
    rw [absent, get, h]
    exact .refl _
  | some cs =>
    have kept : f.byAttribute.insert attr cs = f.byAttribute := by
      refine KeyMap.ext_get? fun key => ?_
      rw [KeyMap.get?_insert]
      split
      · next e => rw [e, h]
      · rfl
    have hp := f.byAttribute.entries_insert_perm attr cs
    rw [kept] at hp
    rw [get, h]
    exact hp.flatMap_right ofEntry

theorem predicates_push_perm (f : Filter) (p : Predicate) :
    (f.push p).predicates.Perm (f.predicates ++ [p]) := by
  have hnew : ofEntry (p.attr, f.get p.attr ++ [p.condition]) =
      ofEntry (p.attr, f.get p.attr) ++ [p] := by
    simp [ofEntry]
  have hpush : (f.push p).predicates.Perm (ofEntry (p.attr, f.get p.attr ++ [p.condition]) ++
      (f.byAttribute.entries.filter (·.1 ≠ p.attr)).flatMap ofEntry) :=
    (f.byAttribute.entries_insert_perm p.attr _).flatMap_right ofEntry
  rw [hnew] at hpush
  refine hpush.trans ?_
  rw [List.append_assoc]
  refine (List.perm_append_comm.append_left _).trans ?_
  rw [← List.append_assoc]
  exact (f.predicates_perm_get p.attr).symm.append_right _

theorem predicates_extend_perm (f : Filter) (ps : List Predicate) :
    (f.extend ps).predicates.Perm (f.predicates ++ ps) := by
  induction ps generalizing f with
  | nil =>
    rw [List.append_nil]
    exact .refl _
  | cons p ps ih =>
    rw [extend, List.foldl_cons, ← extend]
    refine (ih (f.push p)).trans ?_
    rw [← List.singleton_append, ← List.append_assoc]
    exact (predicates_push_perm f p).append_right _

/-- **A filter keeps every predicate that it is given**, and has no other. -/
theorem predicates_ofPredicates_perm (ps : List Predicate) :
    (ofPredicates ps).predicates.Perm ps :=
  predicates_extend_perm empty ps

theorem mem_predicates_ofPredicates {ps : List Predicate} {p : Predicate} :
    p ∈ (ofPredicates ps).predicates ↔ p ∈ ps :=
  (predicates_ofPredicates_perm ps).mem_iff

theorem mem_attributes_push {f : Filter} {p : Predicate} {attr : String} :
    attr ∈ (f.push p).attributes ↔ attr = p.attr ∨ attr ∈ f.attributes := by
  rw [attributes, attributes, KeyMap.mem_keys_iff, KeyMap.mem_keys_iff, push, KeyMap.contains,
    KeyMap.get?_insert, KeyMap.contains]
  by_cases h : attr = p.attr <;> simp [h]

theorem mem_attributes_extend {f : Filter} {ps : List Predicate} {attr : String} :
    attr ∈ (f.extend ps).attributes ↔ (∃ p ∈ ps, p.attr = attr) ∨ attr ∈ f.attributes := by
  induction ps generalizing f with
  | nil => simp [extend]
  | cons p ps ih =>
    rw [extend, List.foldl_cons, ← extend, ih, mem_attributes_push, List.exists_mem_cons_iff,
      eq_comm (a := p.attr), or_left_comm, or_assoc]

/-- A filter has the attributes of its predicates, and no other. -/
theorem mem_attributes_ofPredicates {ps : List Predicate} {attr : String} :
    attr ∈ (ofPredicates ps).attributes ↔ ∃ p ∈ ps, p.attr = attr := by
  rw [ofPredicates, mem_attributes_extend]
  exact or_iff_left List.not_mem_nil

/-- **The filters that come about**, with the predicates that they are made of in the order in which
they were given: from nothing, by adding predicates one by one or several at once, or anew from a
list. -/
inductive MadeOf : Filter → List Predicate → Prop
  | empty : MadeOf empty []
  | push {f : Filter} {ps : List Predicate} (h : MadeOf f ps) (p : Predicate) :
    MadeOf (f.push p) (ps ++ [p])
  | extend {f : Filter} {ps : List Predicate} (h : MadeOf f ps) (qs : List Predicate) :
    MadeOf (f.extend qs) (ps ++ qs)
  | collect (ps : List Predicate) : MadeOf (ofPredicates ps) ps

theorem extend_append (f : Filter) (ps qs : List Predicate) :
    f.extend (ps ++ qs) = (f.extend ps).extend qs :=
  List.foldl_append

/-- However a filter came about, it is the one of its predicates. -/
theorem MadeOf.eq_ofPredicates {f : Filter} {ps : List Predicate} (h : f.MadeOf ps) :
    f = ofPredicates ps := by
  induction h with
  | empty => rfl
  | push _ p ih =>
    rw [ih, ofPredicates, ofPredicates, extend_append]
    rfl
  | extend _ qs ih => rw [ih, ofPredicates, ofPredicates, extend_append]
  | collect ps => rfl

/-! ## The order of predicates -/

theorem flatMap_of_key {β γ : Type} (g : String × β → List γ) (key : String)
    {l : List (String × β)} (h : l.Pairwise (·.1 < ·.1)) :
    (l.flatMap fun e => if e.1 = key then g e else []) =
      ((l.lookup key).map fun v => g (key, v)).getD [] := by
  induction l with
  | nil => rfl
  | cons hd tl ih =>
    obtain ⟨k, v⟩ := hd
    obtain ⟨hk, ht⟩ := List.pairwise_cons.1 h
    have rest := ih ht
    rw [List.flatMap_cons, KeyMap.lookup_cons_eq_ite, rest]
    by_cases e : key = k
    · subst e
      have absent : tl.lookup key = none := KeyMap.lookup_eq_none_of_forall_lt hk
      simp [absent]
    · simp [e, Ne.symm e]

theorem filter_predicates (f : Filter) (attr : String) :
    f.predicates.filter (·.attr = attr) = ofEntry (attr, f.get attr) := by
  have entry (e : String × List Condition) :
      (ofEntry e).filter (·.attr = attr) = if e.1 = attr then ofEntry e else [] := by
    by_cases h : e.1 = attr
    · simp [ofEntry, Condition.on, h]
    · simp [ofEntry, Condition.on, h]
  rw [predicates_eq, List.filter_flatMap]
  simp only [entry]
  rw [flatMap_of_key ofEntry attr f.byAttribute.sorted, get, KeyMap.get?]
  cases f.byAttribute.entries.lookup attr <;> rfl

theorem predicates_pairwise (f : Filter) : f.predicates.Pairwise (·.attr ≤ ·.attr) := by
  rw [predicates_eq, List.pairwise_flatMap]
  refine ⟨fun e _ => ?_, f.byAttribute.sorted.imp fun {a b} hab p hp q hq => ?_⟩
  · rw [ofEntry, List.pairwise_map]
    exact List.pairwise_of_forall fun _ _ => String.le_refl _
  · obtain ⟨c, -, rfl⟩ := List.mem_map.1 hp
    obtain ⟨c', -, rfl⟩ := List.mem_map.1 hq
    exact le_of_lt hab

/-- Lists in the order of their attributes are equal if they agree on each attribute. -/
theorem eq_of_filter_eq {ps qs : List Predicate} (hp : ps.Pairwise (·.attr ≤ ·.attr))
    (hq : qs.Pairwise (·.attr ≤ ·.attr))
    (h : ∀ attr, ps.filter (·.attr = attr) = qs.filter (·.attr = attr)) : ps = qs := by
  induction ps generalizing qs with
  | nil =>
    match qs with
    | [] => rfl
    | q :: qs => simpa using h q.attr
  | cons p ps ih =>
    match qs with
    | [] => simpa using h p.attr
    | q :: qs =>
      obtain ⟨hps, hpt⟩ := List.pairwise_cons.1 hp
      obtain ⟨hqs, hqt⟩ := List.pairwise_cons.1 hq
      -- each head is in the other list, so that neither attribute is before the other
      have least {p q : Predicate} {ps qs : List Predicate} (hqs : ∀ r ∈ qs, q.attr ≤ r.attr)
          (h : (p :: ps).filter (·.attr = p.attr) = (q :: qs).filter (·.attr = p.attr)) :
          q.attr ≤ p.attr := by
        have hmem : p ∈ (q :: qs).filter (·.attr = p.attr) := by
          rw [← h]
          simp
        rcases List.mem_cons.1 (List.mem_filter.1 hmem).1 with rfl | hm
        · exact String.le_refl _
        · exact hqs p hm
      have hattr : p.attr = q.attr :=
        String.le_antisymm (least hps (h q.attr).symm) (least hqs (h p.attr))
      have hhead := h p.attr
      rw [List.filter_cons_of_pos (by simp), List.filter_cons_of_pos (by simp [hattr])] at hhead
      obtain rfl : p = q := (List.cons.inj hhead).1
      congr 1
      refine ih hpt hqt fun attr => ?_
      have hrest := h attr
      rw [List.filter_cons, List.filter_cons] at hrest
      split at hrest
      · exact (List.cons.inj hrest).2
      · exact hrest

theorem attr_trans (p q r : Predicate) (hpq : decide (p.attr ≤ q.attr) = true)
    (hqr : decide (q.attr ≤ r.attr) = true) : decide (p.attr ≤ r.attr) = true := by
  rw [decide_eq_true_eq] at hpq hqr ⊢
  exact String.le_trans hpq hqr

theorem attr_total (p q : Predicate) :
    (decide (p.attr ≤ q.attr) || decide (q.attr ≤ p.attr)) = true := by
  rw [Bool.or_eq_true, decide_eq_true_eq, decide_eq_true_eq]
  exact le_total _ _

/-- Sorting by attribute keeps the order on each attribute. -/
theorem filter_mergeSort (ps : List Predicate) (attr : String) :
    (ps.mergeSort (·.attr ≤ ·.attr)).filter (·.attr = attr) = ps.filter (·.attr = attr) := by
  have same : (ps.filter (·.attr = attr)).Pairwise (fun p q => decide (p.attr ≤ q.attr)) := by
    refine List.pairwise_filter.2 (List.pairwise_of_forall fun p q hp hq => ?_)
    rw [of_decide_eq_true hp, of_decide_eq_true hq]
    exact decide_eq_true (String.le_refl _)
  have kept : (ps.filter (·.attr = attr)).Sublist (ps.mergeSort (·.attr ≤ ·.attr)) :=
    List.sublist_mergeSort attr_trans attr_total same List.filter_sublist
  have hsub := kept.filter (·.attr = attr)
  rw [List.filter_filter] at hsub
  simp only [Bool.and_self] at hsub
  have hlen := ((List.mergeSort_perm ps (·.attr ≤ ·.attr)).filter (·.attr = attr)).length_eq
  exact (hsub.eq_of_length hlen.symm).symm

theorem pairwise_mergeSort (ps : List Predicate) :
    (ps.mergeSort (·.attr ≤ ·.attr)).Pairwise (·.attr ≤ ·.attr) :=
  (List.pairwise_mergeSort attr_trans attr_total ps).imp of_decide_eq_true

/-- **The predicates of a filter** are those given, sorted by attribute without changing the order
on each attribute. -/
theorem predicates_ofPredicates (ps : List Predicate) :
    (ofPredicates ps).predicates = ps.mergeSort (·.attr ≤ ·.attr) := by
  refine eq_of_filter_eq (predicates_pairwise _) (pairwise_mergeSort ps) fun attr => ?_
  rw [filter_predicates, filter_mergeSort, get_ofPredicates, ofEntry, List.map_map]
  have own : ∀ p ∈ ps.filter (·.attr = attr), (Condition.on attr ∘ (·.condition)) p = id p := by
    intro p hp
    have hattr : p.attr = attr := of_decide_eq_true (List.mem_filter.1 hp).2
    subst hattr
    exact p.on_condition
  rw [List.map_congr_left own, List.map_id]

/-! ## Predicates between others -/

theorem filter_filter_attr (ps : List Predicate) (keep : String → Prop) [DecidablePred keep]
    (attr : String) : (ps.filter (keep ·.attr)).filter (·.attr = attr) =
      if keep attr then ps.filter (·.attr = attr) else [] := by
  rw [List.filter_filter]
  by_cases h : keep attr
  · rw [if_pos h]
    refine List.filter_congr fun p _ => ?_
    by_cases e : p.attr = attr
    · simp [e, h]
    · simp [e]
  · rw [if_neg h, List.filter_eq_nil_iff]
    intro p _ hp
    obtain ⟨rfl, hk⟩ : p.attr = attr ∧ keep p.attr := by simpa using hp
    exact h hk

/-- What is sorted in before an attribute that comes between two lists. -/
def sortedBefore (attr : String) (front back : List Predicate) : List Predicate :=
  (front.filter (·.attr ≤ attr) ++ back.filter (·.attr < attr)).mergeSort (·.attr ≤ ·.attr)

/-- What is sorted in behind an attribute that comes between two lists. -/
def sortedBehind (attr : String) (front back : List Predicate) : List Predicate :=
  (front.filter (attr < ·.attr) ++ back.filter (attr ≤ ·.attr)).mergeSort (·.attr ≤ ·.attr)

variable {attr : String} {front back : List Predicate} {p : Predicate}

theorem of_mem_sortedBefore (h : p ∈ sortedBefore attr front back) :
    p ∈ front ++ back ∧ p.attr ≤ attr := by
  rcases List.mem_append.1 (List.mem_mergeSort.1 h) with h | h
  · obtain ⟨hp, hle⟩ := List.mem_filter.1 h
    exact ⟨List.mem_append_left _ hp, of_decide_eq_true hle⟩
  · obtain ⟨hp, hlt⟩ := List.mem_filter.1 h
    exact ⟨List.mem_append_right _ hp, le_of_lt (of_decide_eq_true hlt)⟩

theorem of_mem_sortedBehind (h : p ∈ sortedBehind attr front back) :
    p ∈ front ++ back ∧ attr ≤ p.attr := by
  rcases List.mem_append.1 (List.mem_mergeSort.1 h) with h | h
  · obtain ⟨hp, hlt⟩ := List.mem_filter.1 h
    exact ⟨List.mem_append_left _ hp, le_of_lt (of_decide_eq_true hlt)⟩
  · obtain ⟨hp, hle⟩ := List.mem_filter.1 h
    exact ⟨List.mem_append_right _ hp, of_decide_eq_true hle⟩

theorem filter_sortedBefore (a : String) : (sortedBefore attr front back).filter (·.attr = a) =
    (if a ≤ attr then front.filter (·.attr = a) else []) ++
      if a < attr then back.filter (·.attr = a) else [] := by
  rw [sortedBefore, filter_mergeSort, List.filter_append, filter_filter_attr front (· ≤ attr),
    filter_filter_attr back (· < attr)]

theorem filter_sortedBehind (a : String) : (sortedBehind attr front back).filter (·.attr = a) =
    (if attr < a then front.filter (·.attr = a) else []) ++
      if attr ≤ a then back.filter (·.attr = a) else [] := by
  rw [sortedBehind, filter_mergeSort, List.filter_append, filter_filter_attr front (attr < ·),
    filter_filter_attr back (attr ≤ ·)]

theorem pairwise_sorted_append {mid : List Predicate} (hmid : ∀ p ∈ mid, p.attr = attr) :
    (sortedBefore attr front back ++ mid ++ sortedBehind attr front back).Pairwise
      (·.attr ≤ ·.attr) := by
  rw [List.pairwise_append, List.pairwise_append]
  refine ⟨⟨pairwise_mergeSort _, List.pairwise_of_forall_mem_list fun p hp q hq => ?_,
    fun p hp q hq => ?_⟩, pairwise_mergeSort _, fun p hp q hq => ?_⟩
  · rw [hmid p hp, hmid q hq]
  · rw [hmid q hq]
    exact (of_mem_sortedBefore hp).2
  · have hq : attr ≤ q.attr := (of_mem_sortedBehind hq).2
    rcases List.mem_append.1 hp with hp | hp
    · exact String.le_trans (of_mem_sortedBefore hp).2 hq
    · rwa [hmid p hp]

/-- **Predicates of one attribute stay together** where a filter sorts them in, and whatever they
are, the others are in the same order around them. -/
theorem predicates_append_append {mid : List Predicate} (hmid : ∀ p ∈ mid, p.attr = attr) :
    (ofPredicates (front ++ mid ++ back)).predicates =
      sortedBefore attr front back ++ mid ++ sortedBehind attr front back := by
  have other {a : String} (h : attr ≠ a) : mid.filter (·.attr = a) = [] :=
    List.filter_eq_nil_iff.2 fun p hp => by simpa [hmid p hp] using h
  rw [predicates_ofPredicates]
  refine eq_of_filter_eq (pairwise_mergeSort _) (pairwise_sorted_append hmid) fun a => ?_
  rw [filter_mergeSort, List.filter_append, List.filter_append, List.filter_append,
    List.filter_append, filter_sortedBefore, filter_sortedBehind]
  rcases lt_trichotomy a attr with lt | rfl | gt
  · rw [if_pos lt.le, if_pos lt, if_neg lt.not_gt, if_neg lt.not_ge, other lt.ne']
    simp
  · rw [if_pos le_rfl, if_neg (lt_irrefl a), if_neg (lt_irrefl a), if_pos le_rfl]
    simp
  · rw [if_neg gt.not_ge, if_neg gt.not_gt, if_pos gt, if_pos gt.le, other gt.ne]
    simp

/-! ## Comparisons -/

/-- The comparisons of a filter, in the order of its predicates. -/
def tokens (f : Filter) : List Token :=
  f.predicates.map (·.token)

theorem tokens_ofPredicates (ps : List Predicate) :
    (ofPredicates ps).tokens = (ps.map (·.token)).mergeSort (·.attr ≤ ·.attr) := by
  rw [tokens, predicates_ofPredicates]
  exact List.map_mergeSort fun _ _ _ _ => rfl

end Filter

end QueryFilter
