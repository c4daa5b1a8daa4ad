import QueryFilter.KeyMap
import Mathlib.Data.List.Sort
import Mathlib.Data.String.Basic

/-!
# Maps by their entries

What a map holds, said of its entries, its keys and its lookups.

* `KeyMap.mem_entries_iff`, `KeyMap.mem_keys_iff`: entries and keys by lookup;
* `KeyMap.keys_eq_of_mem_iff`: the set of the keys determines their list;
* `KeyMap.collect`, `KeyMap.filterMap_congr`: what is collected from a map, key by key;
* **`KeyMap.get?_ofList`**: of a repeated key the last entry counts;
* `KeyMap.ofList_perm`: without repeated keys the order does not matter;
* `KeyMap.exists_entries_insert`, `KeyMap.entries_insert_perm`: an insertion puts one entry in the
  place of at most one other;
* `NameSet.contains_ofList_iff`: a set of names holds what it was made from.
-/

namespace QueryFilter

namespace KeyMap

variable {β : Type}

/-! ## Entries and lookups -/

theorem keys_pairwise (m : KeyMap β) : m.keys.Pairwise (· < ·) := by
  rw [keys, List.pairwise_map]
  exact m.sorted

theorem keys_nodup (m : KeyMap β) : m.keys.Nodup :=
  m.keys_pairwise.imp fun {_ _} hlt => ne_of_lt hlt

theorem length_keys (m : KeyMap β) : m.keys.length = m.size := by
  rw [keys, List.length_map, size]

theorem lookup_eq_some_iff_of_nodup {l : List (String × β)} (h : (l.map (·.1)).Nodup) {key : String}
    {value : β} : l.lookup key = some value ↔ (key, value) ∈ l := by
  induction l with
  | nil => simp
  | cons hd tl ih =>
    obtain ⟨k, v⟩ := hd
    obtain ⟨hk, ht⟩ := List.nodup_cons.1 h
    rw [lookup_cons_eq_ite, List.mem_cons, Prod.mk.injEq]
    by_cases e : key = k
    · subst e
      have absent : (key, value) ∉ tl := fun hm => hk (List.mem_map.2 ⟨_, hm, rfl⟩)
      simp [absent, eq_comm]
    · rw [if_neg e, ih ht]
      simp [e]

theorem mem_entries_iff {m : KeyMap β} {key : String} {value : β} :
    (key, value) ∈ m.entries ↔ m.get? key = some value :=
  (lookup_eq_some_iff_of_nodup m.keys_nodup).symm

theorem mem_keys_iff {m : KeyMap β} {key : String} : key ∈ m.keys ↔ m.contains key = true := by
  rw [contains, Option.isSome_iff_exists, keys, List.mem_map]
  constructor
  · rintro ⟨⟨k, v⟩, he, rfl⟩
    exact ⟨v, mem_entries_iff.1 he⟩
  · rintro ⟨v, hv⟩
    exact ⟨(key, v), mem_entries_iff.2 hv, rfl⟩

/-- Maps with the same set of keys list them alike. -/
theorem keys_eq_of_mem_iff {γ : Type} {m : KeyMap β} {m' : KeyMap γ}
    (h : ∀ key, key ∈ m.keys ↔ key ∈ m'.keys) : m.keys = m'.keys := by
  have hperm : m.keys.Perm m'.keys :=
    (List.perm_ext_iff_of_nodup m.keys_nodup m'.keys_nodup).2 h
  refine hperm.eq_of_pairwise ?_ m.keys_pairwise m'.keys_pairwise
  intro a b _ _ hab hba
  exact absurd hba (lt_asymm hab)

theorem get?_filter (m : KeyMap β) (keep : String → Bool) (key : String) :
    (m.filter fun k _ => keep k).get? key = if keep key then m.get? key else none := by
  ext v
  rw [← mem_entries_iff, filter, List.mem_filter, mem_entries_iff]
  cases keep key <;> simp

/-- What is collected from a map, under the keys that it comes from. -/
def collect {γ : Type} (f : String × β → Option γ) (m : KeyMap β) : KeyMap γ where
  entries := m.entries.filterMap fun e => (f e).map (e.1, ·)
  sorted := by
    refine List.pairwise_filterMap.2 (m.sorted.imp fun {a b} hlt x hx y hy => ?_)
    obtain ⟨v, -, rfl⟩ := Option.map_eq_some_iff.1 hx
    obtain ⟨w, -, rfl⟩ := Option.map_eq_some_iff.1 hy
    exact hlt

theorem get?_collect {γ : Type} (f : String × β → Option γ) (m : KeyMap β) (key : String) :
    (m.collect f).get? key = (m.get? key).bind fun value => f (key, value) := by
  ext w
  rw [← mem_entries_iff, collect, List.mem_filterMap, Option.bind_eq_some_iff]
  constructor
  · rintro ⟨⟨k, v⟩, he, h⟩
    obtain ⟨w, hw, heq⟩ := Option.map_eq_some_iff.1 h
    cases heq
    exact ⟨v, mem_entries_iff.1 he, hw⟩
  · rintro ⟨v, hv, hw⟩
    exact ⟨(key, v), mem_entries_iff.2 hv, Option.map_eq_some_iff.2 ⟨w, hw, rfl⟩⟩

theorem filterMap_eq_values_collect {γ : Type} (f : String × β → Option γ) (m : KeyMap β) :
    m.entries.filterMap f = (m.collect f).values := by
  rw [values, collect, List.map_filterMap]
  refine List.filterMap_congr fun e _ => ?_
  cases f e <;> rfl

/-- What is collected from two maps is the same if it is so at each key. -/
theorem filterMap_congr {γ : Type} {m m' : KeyMap β} {f : String × β → Option γ}
    (h : ∀ key, ((m.get? key).bind fun value => f (key, value)) =
      (m'.get? key).bind fun value => f (key, value)) :
    m.entries.filterMap f = m'.entries.filterMap f := by
  have hcollect : m.collect f = m'.collect f := by
    refine ext_get? fun key => ?_
    rw [get?_collect, get?_collect, h key]
  rw [filterMap_eq_values_collect, filterMap_eq_values_collect, hcollect]

/-! ## Insertion and collection -/

theorem get?_foldl_insert (l : List (String × β)) (m : KeyMap β) (key : String) :
    (l.foldl (fun m e => m.insert e.1 e.2) m).get? key =
      (l.reverse.lookup key).or (m.get? key) := by
  induction l generalizing m with
  | nil => simp
  | cons hd tl ih =>
    obtain ⟨k, v⟩ := hd
    rw [List.foldl_cons, ih, get?_insert, List.reverse_cons, List.lookup_append, Option.or_assoc,
      lookup_cons_eq_ite, List.lookup_nil]
    by_cases e : key = k
    · rw [if_pos e, if_pos e, Option.some_or]
    · rw [if_neg e, if_neg e, Option.none_or]

/-- **Of a repeated key the last entry counts.** -/
theorem get?_ofList (l : List (String × β)) (key : String) :
    (ofList l).get? key = l.reverse.lookup key := by
  rw [ofList, get?_foldl_insert]
  exact Option.or_none

theorem contains_ofList_iff {l : List (String × β)} {key : String} :
    (ofList l).contains key = true ↔ ∃ e ∈ l, e.1 = key := by
  rw [contains, get?_ofList, List.lookup_isSome_iff]
  constructor
  · rintro ⟨e, he, h⟩
    exact ⟨e, List.mem_reverse.1 he, (beq_iff_eq.1 h).symm⟩
  · rintro ⟨e, he, rfl⟩
    exact ⟨e, List.mem_reverse.2 he, beq_self_eq_true _⟩

/-- **Entries with distinct keys** give the same map in every order. -/
theorem ofList_perm {l l' : List (String × β)} (hp : l.Perm l') (h : (l.map (·.1)).Nodup) :
    ofList l = ofList l' := by
  have hreverse {l : List (String × β)} (h : (l.map (·.1)).Nodup) :
      (l.reverse.map (·.1)).Nodup := by
    rw [List.map_reverse]
    exact List.nodup_reverse.2 h
  have h' : (l'.map (·.1)).Nodup := (hp.map _).nodup_iff.1 h
  refine ext_get? fun key => Option.ext fun value => ?_
  rw [get?_ofList, get?_ofList, lookup_eq_some_iff_of_nodup (hreverse h),
    lookup_eq_some_iff_of_nodup (hreverse h'), List.mem_reverse, List.mem_reverse]
  exact hp.mem_iff

/-! ## What an insertion leaves alone -/

/-- An insertion leaves the entries before and behind its key as they are. -/
theorem exists_insertEntry_eq (key : String) (value : β) {l : List (String × β)}
    (h : l.Pairwise (·.1 < ·.1)) : ∃ front back,
      insertEntry key value l = front ++ (key, value) :: back ∧
      l = front ++ (l.lookup key).toList.map (key, ·) ++ back := by
  induction l with
  | nil => exact ⟨[], [], rfl, rfl⟩
  | cons hd tl ih =>
    obtain ⟨k, v⟩ := hd
    obtain ⟨hk, ht⟩ := List.pairwise_cons.1 h
    rw [insertEntry, lookup_cons_eq_ite]
    split
    · next lt =>
      have absent : tl.lookup key = none :=
        lookup_eq_none_of_forall_lt fun e he => String.lt_trans lt (hk e he)
      refine ⟨[], (k, v) :: tl, rfl, ?_⟩
      rw [if_neg fun e : key = k => String.lt_irrefl k (e ▸ lt), absent]
      rfl
    · split
      · next eq => exact ⟨[], tl, rfl, by simp [eq]⟩
      · next ne =>
        obtain ⟨front, back, hinsert, hl⟩ := ih ht
        refine ⟨(k, v) :: front, back, by rw [hinsert, List.cons_append], ?_⟩
        rw [List.cons_append, List.cons_append, ← hl]

theorem exists_entries_insert (m : KeyMap β) (key : String) (value : β) : ∃ front back,
    (m.insert key value).entries = front ++ (key, value) :: back ∧
      m.entries = front ++ (m.get? key).toList.map (key, ·) ++ back :=
  exists_insertEntry_eq key value m.sorted

/-- An insertion puts one entry in the place of at most one other. -/
theorem entries_insert_perm (m : KeyMap β) (key : String) (value : β) :
    (m.insert key value).entries.Perm ((key, value) :: m.entries.filter (·.1 ≠ key)) := by
  obtain ⟨front, back, hinsert, hm⟩ := m.exists_entries_insert key value
  have hsorted := (m.insert key value).sorted
  rw [hinsert, List.pairwise_append, List.pairwise_cons] at hsorted
  obtain ⟨-, ⟨hback, -⟩, hfront⟩ := hsorted
  have kept : m.entries.filter (·.1 ≠ key) = front ++ back := by
    have hold : ((m.get? key).toList.map (key, ·)).filter (·.1 ≠ key) = [] := by simp
    have hfront : front.filter (·.1 ≠ key) = front :=
      List.filter_eq_self.2 fun e he => decide_eq_true (ne_of_lt (hfront e he _ List.mem_cons_self))
    have hback : back.filter (·.1 ≠ key) = back :=
      List.filter_eq_self.2 fun e he => decide_eq_true (ne_of_gt (hback e he))
    rw [hm, List.filter_append, List.filter_append, hold, hfront, hback, List.append_nil]
  rw [hinsert, kept]
  exact List.perm_middle

theorem exists_filterMap_insert {γ : Type} (m : KeyMap β) (key : String) (value : β)
    (f : String × β → Option γ) : ∃ front back,
      (m.insert key value).entries.filterMap f = front ++ (f (key, value)).toList ++ back ∧
      m.entries.filterMap f =
        front ++ (m.get? key).toList.filterMap (fun v => f (key, v)) ++ back := by
  obtain ⟨front, back, hinsert, hm⟩ := m.exists_entries_insert key value
  refine ⟨front.filterMap f, back.filterMap f, ?_, ?_⟩
  · rw [hinsert, List.filterMap_append, List.filterMap_cons]
    cases f (key, value) <;> simp
  · conv_lhs => rw [hm]
    rw [List.filterMap_append, List.filterMap_append, List.filterMap_map]
    rfl

theorem filterMap_insert_of_eq_nil {γ : Type} {m : KeyMap β} {f : String × β → Option γ}
    (h : m.entries.filterMap f = []) (key : String) (value : β) :
    (m.insert key value).entries.filterMap f = (f (key, value)).toList := by
  obtain ⟨front, back, hinsert, hm⟩ := m.exists_filterMap_insert key value f
  rw [h, eq_comm, List.append_eq_nil_iff, List.append_eq_nil_iff] at hm
  rw [hinsert, hm.1.1, hm.2, List.nil_append, List.append_nil]

theorem filter_insert (m : KeyMap β) (keep : String → Bool) (key : String) (value : β) :
    (m.insert key value).filter (fun k _ => keep k) =
      if keep key then (m.filter fun k _ => keep k).insert key value
      else m.filter fun k _ => keep k := by
  refine ext_get? fun other => ?_
  rw [get?_filter, get?_insert]
  by_cases hk : keep key = true
  · rw [if_pos hk, get?_insert, get?_filter]
    by_cases e : other = key
    · rw [if_pos e, if_pos e, e, if_pos hk]
    · rw [if_neg e, if_neg e]
  · rw [if_neg hk, get?_filter]
    by_cases e : other = key
    · rw [e, if_neg hk, if_neg hk]
    · rw [if_neg e]

end KeyMap

/-! ## Sets of names -/

theorem NameSet.contains_ofList_iff {names : List String} {name : String} :
    (NameSet.ofList names).contains name = true ↔ name ∈ names := by
  rw [NameSet.ofList, KeyMap.contains_ofList_iff]
  simp

end QueryFilter
