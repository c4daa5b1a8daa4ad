import QueryFilter.Proofs.Parse

/-!
# What a query string says

Reading goes through the segments one by one and stops at the first that is too long. What comes of
it is said here of the segments as a whole.

* `Overlong`: a segment that cannot be decoded where it has to be; `parameter?`: what another sets;
* `addSegment_of_overlong`, `addSegment_of_not_overlong`: one segment;
* `foldlM_of_exists_overlong`, `foldlM_of_not_overlong`: all segments, in order;
* **`parse_reading`**: failure, and every lookup, in terms of the segments.
-/

namespace QueryFilter.RawQuery

open Percent

variable {raw : RawQuery} {piece piece' : List Char} {pieces pieces' : List (List Char)}
  {key value query : String}

/-! ## One segment -/

/-- **A segment that is too long**: in its key, or in its value if it has a key. -/
def Overlong (piece : List Char) : Prop :=
  keyOf piece = .error .tooLong ∨
    ∃ key, keyOf piece = .ok key ∧ key ≠ "" ∧ valueOf piece = .error .tooLong

/-- The parameter that a segment sets. -/
def parameter? (piece : List Char) : Option (String × String) :=
  match keyOf piece, valueOf piece with
  | .ok key, .ok value => if key = "" then none else some (key, value)
  | _, _ => none

theorem parameter?_eq_some_iff : parameter? piece = some (key, value) ↔
    key ≠ "" ∧ keyOf piece = .ok key ∧ valueOf piece = .ok value := by
  unfold parameter?
  cases keyOf piece with
  | error e => simp
  | ok k =>
    cases valueOf piece with
    | error e => simp
    | ok v =>
      by_cases h : k = ""
      · simp only [h, if_pos, Except.ok.injEq, reduceCtorEq, false_iff]
        rintro ⟨hne, rfl, -⟩
        exact hne rfl
      · simp only [if_neg h, Option.some.injEq, Prod.mk.injEq, Except.ok.injEq]
        constructor
        · rintro ⟨rfl, rfl⟩
          exact ⟨h, rfl, rfl⟩
        · exact And.right

theorem parameter?_of_keyOf_eq_empty (h : keyOf piece = .ok "") : parameter? piece = none := by
  rw [Option.eq_none_iff_forall_ne_some]
  rintro ⟨key, value⟩ hp
  obtain ⟨hne, hkey, -⟩ := parameter?_eq_some_iff.1 hp
  exact hne (Except.ok.inj (hkey.symm.trans h))

theorem addSegment_of_overlong (raw : RawQuery) (h : Overlong piece) :
    addSegment raw piece = .error .tooLong := by
  rw [addSegment_eq]
  rcases h with hkey | ⟨key, hkey, hne, hvalue⟩
  · rw [hkey]
    rfl
  · rw [hkey, hvalue]
    exact if_neg hne

theorem addSegment_of_not_overlong (raw : RawQuery) (h : ¬ Overlong piece) :
    addSegment raw piece =
      .ok ((parameter? piece).elim raw fun e => raw.insert e.1 e.2) := by
  obtain ⟨hkey, hvalue⟩ := not_or.1 h
  rw [addSegment_eq]
  cases hk : keyOf piece with
  | error e => exact absurd hk hkey
  | ok key =>
    show (if key = "" then _ else _) = _
    by_cases hempty : key = ""
    · subst hempty
      rw [if_pos rfl, parameter?_of_keyOf_eq_empty hk]
      rfl
    · rw [if_neg hempty]
      cases hv : valueOf piece with
      | error e => exact absurd ⟨key, hk, hempty, hv⟩ hvalue
      | ok value =>
        rw [parameter?_eq_some_iff.2 ⟨hempty, hk, hv⟩]
        rfl

/-! ## All segments -/

/-- One segment that is too long is enough for failure, wherever it stands. -/
theorem foldlM_of_exists_overlong (raw : RawQuery) (h : ∃ piece ∈ pieces, Overlong piece) :
    pieces.foldlM addSegment raw = .error .tooLong := by
  induction pieces generalizing raw with
  | nil => simp at h
  | cons piece pieces ih =>
    rw [List.foldlM_cons]
    -- what the segments before the one at fault set does not matter, hence any map to start with
    by_cases hp : Overlong piece
    · rw [addSegment_of_overlong raw hp]
      rfl
    · rw [addSegment_of_not_overlong raw hp]
      obtain ⟨p, hmem, ho⟩ := h
      rcases List.mem_cons.1 hmem with rfl | hmem
      · exact absurd ho hp
      · exact ih _ ⟨p, hmem, ho⟩

theorem foldlM_of_not_overlong (raw : RawQuery) (h : ∀ piece ∈ pieces, ¬ Overlong piece) :
    pieces.foldlM addSegment raw =
      .ok ((pieces.filterMap parameter?).foldl (fun m e => m.insert e.1 e.2) raw) := by
  induction pieces generalizing raw with
  | nil => rfl
  | cons piece pieces ih =>
    obtain ⟨hp, hps⟩ := List.forall_mem_cons.1 h
    rw [List.foldlM_cons, addSegment_of_not_overlong raw hp, List.filterMap_cons]
    show pieces.foldlM addSegment _ = _
    rw [ih _ hps]
    cases parameter? piece <;> rfl

theorem parse_of_not_overlong (h : ∀ piece ∈ segments query, ¬ Overlong piece) :
    parse query = .ok (.ofList ((segments query).filterMap parameter?)) :=
  foldlM_of_not_overlong _ h

theorem parse_eq_error_iff :
    parse query = .error .tooLong ↔ ∃ piece ∈ segments query, Overlong piece := by
  refine ⟨fun h => ?_, foldlM_of_exists_overlong _⟩
  by_contra hn
  rw [parse_of_not_overlong fun piece hp ho => hn ⟨piece, hp, ho⟩] at h
  cases h

/-! ## Lookups -/

/-- Of the segments with one key, the last sets its value. -/
theorem lookup_reverse_filterMap {front back : List (List Char)}
    (hp : parameter? piece = some (key, value)) (hback : ∀ p ∈ back, keyOf p ≠ .ok key) :
    ((front ++ piece :: back).filterMap parameter?).reverse.lookup key = some value := by
  have hnone : (back.filterMap parameter?).reverse.lookup key = none := by
    rw [List.lookup_eq_none_iff]
    rintro ⟨k, v⟩ he
    obtain ⟨p, hpb, hpe⟩ := List.mem_filterMap.1 (List.mem_reverse.1 he)
    have hk : keyOf p = .ok k := (parameter?_eq_some_iff.1 hpe).2.1
    rw [bne_iff_ne]
    rintro rfl
    exact hback p hpb hk
  rw [List.filterMap_append, List.filterMap_cons_some hp, List.reverse_append, List.reverse_cons,
    List.lookup_append, List.lookup_append, hnone]
  simp

theorem get?_parameters_eq_none_iff (h : ∀ piece ∈ pieces, ¬ Overlong piece) :
    (KeyMap.ofList (pieces.filterMap parameter?)).get? key = none ↔
      key = "" ∨ ∀ piece ∈ pieces, keyOf piece ≠ .ok key := by
  rw [KeyMap.get?_ofList, List.lookup_eq_none_iff]
  constructor
  · intro hnone
    by_contra hn
    obtain ⟨hne, hex⟩ := not_or.1 hn
    push Not at hex
    obtain ⟨piece, hp, hkey⟩ := hex
    cases hv : valueOf piece with
    | error e => exact h piece hp (.inr ⟨key, hkey, hne, hv⟩)
    | ok value =>
      have hmem : (key, value) ∈ pieces.filterMap parameter? :=
        List.mem_filterMap.2 ⟨piece, hp, parameter?_eq_some_iff.2 ⟨hne, hkey, hv⟩⟩
      simpa using hnone (key, value) (List.mem_reverse.2 hmem)
  · rintro hkey ⟨k, v⟩ he
    obtain ⟨p, hp, hpe⟩ := List.mem_filterMap.1 (List.mem_reverse.1 he)
    obtain ⟨hne, hk, -⟩ := parameter?_eq_some_iff.1 hpe
    rw [bne_iff_ne]
    rintro rfl
    rcases hkey with he | hall
    · exact hne he
    · exact hall p hp hk

/-! ## Values that are not read -/

/-- Segments with the same key, and with the same value unless that key is empty. -/
def SameUse (piece piece' : List Char) : Prop :=
  Text.before '=' piece = Text.before '=' piece' ∧
    (Text.after '=' piece = Text.after '=' piece' ∨ keyOf piece = .ok "")

theorem addSegment_congr (raw : RawQuery) (h : SameUse piece piece') :
    addSegment raw piece = addSegment raw piece' := by
  obtain ⟨hbefore, hafter⟩ := h
  have hkey : keyOf piece = keyOf piece' := by rw [keyOf, hbefore, keyOf]
  rw [addSegment_eq, addSegment_eq, ← hkey]
  rcases hafter with hafter | hempty
  · rw [valueOf, hafter, valueOf]
  · rw [hempty]
    rfl

theorem foldlM_addSegment_congr (raw : RawQuery) (h : List.Forall₂ SameUse pieces pieces') :
    pieces.foldlM addSegment raw = pieces'.foldlM addSegment raw := by
  induction h generalizing raw with
  | nil => rfl
  | cons hp _ ih =>
    rw [List.foldlM_cons, List.foldlM_cons, addSegment_congr raw hp]
    exact bind_congr ih

/-! ## The whole string -/

/-- **What a query string is read as.** It is too long if and only if some segment is, whether or
not its value would count. Otherwise a key that is not empty has the value of the last segment with
that key, and no other key has one. The value of a segment with an empty key does not matter at
all, even if it is too long. -/
theorem parse_reading (query : String) :
    (parse query = .error .tooLong ↔ ∃ piece ∈ segments query, Overlong piece) ∧
    ((∀ piece ∈ segments query, ¬ Overlong piece) → ∃ raw, parse query = .ok raw ∧ ∀ key,
      (raw.get? key = none ↔ key = "" ∨ ∀ piece ∈ segments query, keyOf piece ≠ .ok key) ∧
      ∀ front piece back, segments query = front ++ piece :: back → key ≠ "" →
        keyOf piece = .ok key → (∀ p ∈ back, keyOf p ≠ .ok key) →
          ∃ value, valueOf piece = .ok value ∧ raw.get? key = some value) ∧
    ∀ query', List.Forall₂ SameUse (segments query) (segments query') →
      parse query = parse query' := by
  refine ⟨parse_eq_error_iff, fun h => ⟨_, parse_of_not_overlong h, fun key => ?_⟩,
    fun query' h => foldlM_addSegment_congr _ h⟩
  refine ⟨get?_parameters_eq_none_iff h, fun front piece back hsplit hne hkey hback => ?_⟩
  have hp : ¬ Overlong piece := h piece (by rw [hsplit]; simp)
  cases hv : valueOf piece with
  | error e => exact absurd (.inr ⟨key, hkey, hne, hv⟩) hp
  | ok value =>
    refine ⟨value, rfl, ?_⟩
    rw [KeyMap.get?_ofList, hsplit]
    exact lookup_reverse_filterMap (parameter?_eq_some_iff.2 ⟨hne, hkey, hv⟩) hback

theorem unescape_fill (n : Nat) :
    unescape (Utf8.encode (List.replicate n 'x')) = List.replicate n 0x78 := by
  induction n with
  | zero => rfl
  | succ n ih =>
    rw [List.replicate_succ, Utf8.encode_cons]
    show unescape (0x78 :: Utf8.encode (List.replicate n 'x')) = _
    rw [unescape_cons_of_ne (by decide), ih]
    rfl

/-- So many letters are too long for a value. -/
theorem overlong_fill {n : Nat} (h : maxDecodedSize < n) :
    Overlong ('a' :: '=' :: List.replicate n 'x') := by
  have hsplit : 'a' :: '=' :: List.replicate n 'x' = ['a'] ++ '=' :: List.replicate n 'x' := rfl
  refine .inr ⟨"a", ?_, by decide, ?_⟩
  · rw [keyOf, hsplit, Text.before_append_cons (by decide)]
    decide
  · rw [valueOf, hsplit, Text.after_append_cons (by decide)]
    cases hd : decodeComponent (List.replicate n 'x') with
    | error e => rfl
    | ok t =>
      have hle := (decodeComponent_eq_ok_iff.1 hd).1
      rw [unescape_fill, List.length_replicate] at hle
      omega

/-- A key in two spellings beside a value without a key; and a value that is too long, which a later
one would replace. -/
theorem parse_reading_repeated :
    let query := "?b=1&=zz&%62=2=3"
    let long := String.ofList (['&'].intercalate
      ['a' :: '=' :: List.replicate 65537 'x', ['a', '=', '1']])
    (∀ piece ∈ segments query, ¬ Overlong piece) ∧
    (∃ raw, parse query = .ok raw ∧ raw.get? "" = none ∧ raw.get? "b" = some "2=3") ∧
    parse query = parse "?b=1&=%&%62=2=3" ∧ parse long = .error .tooLong := by
  intro query long
  obtain ⟨herror, hread, hsame⟩ := parse_reading query
  have hfits : ∀ piece ∈ segments query, ¬ Overlong piece := by
    intro piece hp ho
    have hne : parse query ≠ .error .tooLong := by decide +kernel
    exact hne (herror.2 ⟨piece, hp, ho⟩)
  obtain ⟨raw, hraw, hget⟩ := hread hfits
  refine ⟨hfits, ⟨raw, hraw, (hget "").1.2 (.inl rfl), ?_⟩, ?_, ?_⟩
  · obtain ⟨value, hvalue, hb⟩ := (hget "b").2 ["b=1".toList, "=zz".toList] "%62=2=3".toList []
      (by decide +kernel) (by decide) (by decide +kernel) (by decide)
    have htext : valueOf "%62=2=3".toList = .ok "2=3" := by decide +kernel
    rw [hb, Except.ok.inj (hvalue.symm.trans htext)]
  · have hsegments : segments query = ["b=1".toList, "=zz".toList, "%62=2=3".toList] := by
      decide +kernel
    have hsegments' : segments "?b=1&=%&%62=2=3" =
        ["b=1".toList, "=%".toList, "%62=2=3".toList] := by decide +kernel
    refine hsame _ ?_
    rw [hsegments, hsegments']
    have hempty : keyOf "=zz".toList = .ok "" := by decide +kernel
    exact .cons ⟨rfl, .inl rfl⟩ (.cons ⟨rfl, .inr hempty⟩ (.cons ⟨rfl, .inl rfl⟩ .nil))
  · refine (parse_reading long).1.2 ⟨_, ?_, overlong_fill (n := 65537) (by decide)⟩
    have hfill : '&' ∉ 'a' :: '=' :: List.replicate 65537 'x' := by
      rw [List.mem_cons, List.mem_cons, not_or, not_or]
      exact ⟨by decide, by decide, fun h => absurd (List.eq_of_mem_replicate h) (by decide)⟩
    rw [segments_intercalate (List.cons_ne_nil _ _) (List.forall_mem_cons.2 ⟨hfill, by decide⟩)]
    · exact List.mem_cons_self
    · rintro p hp
      obtain rfl := Option.some.inj hp
      show some 'a' ≠ some '?'
      decide

end QueryFilter.RawQuery
