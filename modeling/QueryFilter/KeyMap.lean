/-!
# Maps with string keys

A finite map from strings is its list of entries in strictly ascending key order. Strings are
ordered by their characters, which is also the order of their UTF-8 bytes. The representation is
canonical: maps with the same entries are equal.

* `KeyMap`, with `insert`, `get?`, `ofList`, `filter`, `keys` and `values`;
* `mem_insertEntry`, `pairwise_insertEntry`: insertion keeps the order;
* **`get?_insert`**: after an insertion the inserted key has the inserted value, and every other
  key has the value it had;
* **`ext_get?`**: maps with the same lookups are equal;
* `NameSet`: the sets of strings, as maps to the one-element type.
-/

namespace QueryFilter

/-- A finite map from strings, as its entries in strictly ascending key order. -/
structure KeyMap (β : Type) where
  entries : List (String × β)
  sorted : entries.Pairwise (·.1 < ·.1)
  deriving DecidableEq

namespace KeyMap

variable {β : Type}

/-! ## Insertion into an ordered list -/

/-- Puts an entry at its place in an ordered list, replacing the entry of the same key. -/
def insertEntry (key : String) (value : β) : List (String × β) → List (String × β)
  | [] => [(key, value)]
  | (k, v) :: rest =>
    if key < k then (key, value) :: (k, v) :: rest
    else if key = k then (key, value) :: rest
    else (k, v) :: insertEntry key value rest

theorem mem_insertEntry {key : String} {value : β} {e : String × β} {l : List (String × β)} :
    e ∈ insertEntry key value l → e = (key, value) ∨ e ∈ l := by
  induction l with
  | nil => simp [insertEntry]
  | cons hd tl ih =>
    obtain ⟨k, v⟩ := hd
    rw [insertEntry]
    split
    · simp
    · split
      · exact fun h => (List.mem_cons.1 h).imp id (List.mem_cons_of_mem _)
      · intro h
        rcases List.mem_cons.1 h with rfl | h
        · exact .inr List.mem_cons_self
        · exact (ih h).imp id (List.mem_cons_of_mem _)

theorem pairwise_insertEntry (key : String) (value : β) {l : List (String × β)}
    (h : l.Pairwise (·.1 < ·.1)) : (insertEntry key value l).Pairwise (·.1 < ·.1) := by
  induction l with
  | nil => simp [insertEntry]
  | cons hd tl ih =>
    obtain ⟨k, v⟩ := hd
    obtain ⟨hk, ht⟩ := List.pairwise_cons.1 h
    rw [insertEntry]
    split
    · next lt =>
      refine List.pairwise_cons.2 ⟨fun e he => ?_, h⟩
      rcases List.mem_cons.1 he with rfl | he
      · exact lt
      · exact String.lt_trans lt (hk e he)
    · next ge =>
      split
      · next eq => exact List.pairwise_cons.2 ⟨fun e he => eq ▸ hk e he, ht⟩
      · next ne =>
        refine List.pairwise_cons.2 ⟨fun e he => ?_, ih ht⟩
        rcases mem_insertEntry he with rfl | he
        · exact String.not_le.1 fun le => ne (String.le_antisymm le (String.not_lt.1 ge))
        · exact hk e he

/-! ## Operations -/

/-- The map with no entry. -/
def empty : KeyMap β := ⟨[], .nil⟩

instance : EmptyCollection (KeyMap β) := ⟨empty⟩

instance : Inhabited (KeyMap β) := ⟨empty⟩

/-- Sets the value of a key, replacing the one it had. -/
def insert (m : KeyMap β) (key : String) (value : β) : KeyMap β :=
  ⟨insertEntry key value m.entries, pairwise_insertEntry key value m.sorted⟩

/-- The value of a key. -/
def get? (m : KeyMap β) (key : String) : Option β :=
  m.entries.lookup key

/-- Whether a key has a value. -/
def contains (m : KeyMap β) (key : String) : Bool :=
  (m.get? key).isSome

/-- The map of a list of entries; of a repeated key the last entry counts. -/
def ofList (l : List (String × β)) : KeyMap β :=
  l.foldl (fun m e => m.insert e.1 e.2) empty

/-- The keys, in ascending order. -/
def keys (m : KeyMap β) : List String :=
  m.entries.map (·.1)

/-- The values, in the order of their keys. -/
def values (m : KeyMap β) : List β :=
  m.entries.map (·.2)

/-- The number of keys. -/
def size (m : KeyMap β) : Nat :=
  m.entries.length

/-- Whether there is no entry. -/
def isEmpty (m : KeyMap β) : Bool :=
  m.entries.isEmpty

/-- The entries that satisfy a test. -/
def filter (keep : String → β → Bool) (m : KeyMap β) : KeyMap β :=
  ⟨m.entries.filter fun e => keep e.1 e.2, m.sorted.filter _⟩

/-! ## Lookup after insertion -/

theorem lookup_cons_eq_ite (other k : String) (v : β) (l : List (String × β)) :
    ((k, v) :: l).lookup other = if other = k then some v else l.lookup other := by
  by_cases h : other = k
  · simp [h]
  · simp [List.lookup_cons, beq_eq_false_iff_ne.2 h, h]

theorem lookup_insertEntry (key other : String) (value : β) (l : List (String × β)) :
    (insertEntry key value l).lookup other =
      if other = key then some value else l.lookup other := by
  induction l with
  | nil => rw [insertEntry, lookup_cons_eq_ite]
  | cons hd tl ih =>
    obtain ⟨k, v⟩ := hd
    rw [insertEntry]
    split
    · rw [lookup_cons_eq_ite]
    · split
      · next eq => rw [lookup_cons_eq_ite, lookup_cons_eq_ite, ← eq]; split <;> rfl
      · next ne =>
        rw [lookup_cons_eq_ite, lookup_cons_eq_ite, ih]
        by_cases h : other = k
        · rw [if_pos h, if_pos h, if_neg fun hk : other = key => ne (hk.symm.trans h)]
        · rw [if_neg h, if_neg h]

/-- **Insertion sets one key.** -/
theorem get?_insert (m : KeyMap β) (key other : String) (value : β) :
    (m.insert key value).get? other = if other = key then some value else m.get? other :=
  lookup_insertEntry key other value m.entries

/-! ## Maps by their lookups -/

theorem lookup_eq_none_of_forall_lt {key : String} {l : List (String × β)}
    (h : ∀ e ∈ l, key < e.1) : l.lookup key = none := by
  induction l with
  | nil => rfl
  | cons hd tl ih =>
    obtain ⟨k, v⟩ := hd
    have hk : key < k := h (k, v) List.mem_cons_self
    rw [lookup_cons_eq_ite, if_neg fun e : key = k => String.lt_irrefl k (e ▸ hk)]
    exact ih fun e he => h e (List.mem_cons_of_mem _ he)

theorem eq_of_forall_lookup_eq {l l' : List (String × β)} (h : l.Pairwise (·.1 < ·.1))
    (h' : l'.Pairwise (·.1 < ·.1)) (heq : ∀ key, l.lookup key = l'.lookup key) : l = l' := by
  induction l generalizing l' with
  | nil =>
    match l' with
    | [] => rfl
    | (k, v) :: _ => simpa using heq k
  | cons hd tl ih =>
    obtain ⟨k, v⟩ := hd
    match l' with
    | [] => simpa using heq k
    | (k', v') :: tl' =>
      obtain ⟨hk, ht⟩ := List.pairwise_cons.1 h
      obtain ⟨hk', ht'⟩ := List.pairwise_cons.1 h'
      have not_before {a b : String} {w w' : β} {t t' : List (String × β)} (lt : a < b)
          (ht' : ∀ e ∈ t', b < e.1) (eq : ((a, w) :: t).lookup a = ((b, w') :: t').lookup a) :
          False := by
        rw [lookup_cons_eq_ite, if_pos rfl, lookup_eq_none_of_forall_lt] at eq
        · cases eq
        · intro e he
          rcases List.mem_cons.1 he with rfl | he
          · exact lt
          · exact String.lt_trans lt (ht' e he)
      have hkk : k = k' := String.le_antisymm
        (String.not_lt.1 fun lt => not_before lt hk (heq k').symm)
        (String.not_lt.1 fun lt => not_before lt hk' (heq k))
      subst hkk
      have hvv : v = v' := by simpa using heq k
      subst hvv
      congr 1
      refine ih ht ht' fun key => ?_
      by_cases hkey : key = k
      · subst hkey
        rw [lookup_eq_none_of_forall_lt hk, lookup_eq_none_of_forall_lt hk']
      · have := heq key
        rwa [lookup_cons_eq_ite, lookup_cons_eq_ite, if_neg hkey, if_neg hkey] at this

/-- **Maps with the same lookups are equal.** -/
theorem ext_get? {m m' : KeyMap β} (h : ∀ key, m.get? key = m'.get? key) : m = m' := by
  obtain ⟨l, hl⟩ := m
  obtain ⟨l', hl'⟩ := m'
  have := eq_of_forall_lookup_eq hl hl' h
  subst this
  rfl

end KeyMap

/-- A finite set of strings, kept in ascending order. -/
abbrev NameSet : Type := KeyMap Unit

namespace NameSet

/-- The set of the names in a list. -/
def ofList (names : List String) : NameSet :=
  KeyMap.ofList (names.map (·, ()))

end NameSet

end QueryFilter
