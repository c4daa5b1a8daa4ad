import QueryFilter.Json.Encode
import QueryFilter.Proofs.Reading
import QueryFilter.Sql.Statement

/-!
# The order of parameters

Where no two parameters have one key, their order in a query string does not matter, and neither
does the order in which they are collected from elsewhere.

* `RawQuery.Apart`, `RawQuery.parameters_nodup`: segments with distinct keys set distinct
  parameters;
* `RawQuery.parse_joined_perm`: reading does not depend on the order of such segments;
* `RawQuery.answer`: what becomes of a query string;
* **`RawQuery.order_irrelevant`**.
-/

namespace QueryFilter.RawQuery

variable {pieces pieces' : List (List Char)}

/-! ## Distinct keys -/

/-- Two segments that do not have the same key, unless it is empty or too long. -/
def Apart (piece piece' : List Char) : Prop :=
  ∀ key, key ≠ "" → keyOf piece = .ok key → keyOf piece' ≠ .ok key

theorem apart_iff {piece piece' : List Char} : Apart piece piece' ↔
    ∀ key ∈ (keyOf piece).toOption, key = "" ∨ keyOf piece' ≠ .ok key := by
  unfold Apart
  cases keyOf piece with
  | error e => simp [Except.toOption]
  | ok k =>
    simp only [Except.toOption, Option.mem_some_iff, Except.ok.injEq]
    constructor
    · rintro h key rfl
      exact or_iff_not_imp_left.2 fun hne => h _ hne rfl
    · rintro h key hne rfl
      exact (h _ rfl).resolve_left hne

instance (piece piece' : List Char) : Decidable (Apart piece piece') :=
  decidable_of_iff _ apart_iff.symm

theorem parameters_nodup (h : pieces.Pairwise Apart) :
    ((pieces.filterMap parameter?).map (·.1)).Nodup := by
  refine List.pairwise_map.2 (List.pairwise_filterMap.2
    (h.imp fun {p p'} hapart e he e' he' heq => ?_))
  obtain ⟨hne, hkey, -⟩ := parameter?_eq_some_iff.1 he
  obtain ⟨-, hkey', -⟩ := parameter?_eq_some_iff.1 he'
  exact hapart e.1 hne hkey (heq ▸ hkey')

/-! ## Query strings -/

/-- A query string of segments, with ampersands between them. -/
def joinedSegments (pieces : List (List Char)) : String :=
  String.ofList (['&'].intercalate pieces)

theorem segments_joinedSegments (hne : pieces ≠ []) (hamp : ∀ p ∈ pieces, '&' ∉ p)
    (hmark : ∀ p ∈ pieces, p.head? ≠ some '?') : segments (joinedSegments pieces) = pieces :=
  segments_intercalate hne hamp fun p hp => hmark p (List.mem_of_mem_head? hp)

/-- **Reading does not depend on the order of segments** with distinct keys. -/
theorem parse_joined_perm (hperm : pieces.Perm pieces') (hamp : ∀ p ∈ pieces, '&' ∉ p)
    (hmark : ∀ p ∈ pieces, p.head? ≠ some '?') (hapart : pieces.Pairwise Apart) :
    parse (joinedSegments pieces) = parse (joinedSegments pieces') := by
  by_cases hne : pieces = []
  · subst hne
    rw [List.nil_perm.1 hperm]
  have hne' : pieces' ≠ [] := fun e => hne (List.perm_nil.1 (e ▸ hperm))
  have hsegments := segments_joinedSegments hne hamp hmark
  have hsegments' := segments_joinedSegments hne' (fun p hp => hamp p (hperm.mem_iff.2 hp))
    fun p hp => hmark p (hperm.mem_iff.2 hp)
  -- a segment at fault is found in every order; without one the parameters are a permutation too
  by_cases hover : ∃ p ∈ pieces, Overlong p
  · have hover' : ∃ p ∈ pieces', Overlong p := by simpa only [hperm.mem_iff] using hover
    rw [parse_eq_error_iff.2 (by rwa [hsegments]), parse_eq_error_iff.2 (by rwa [hsegments'])]
  · have hfits : ∀ p ∈ pieces, ¬ Overlong p := fun p hp ho => hover ⟨p, hp, ho⟩
    have hfits' : ∀ p ∈ pieces', ¬ Overlong p := fun p hp => hfits p (hperm.mem_iff.2 hp)
    rw [parse_of_not_overlong (by rwa [hsegments]), parse_of_not_overlong (by rwa [hsegments']),
      hsegments, hsegments', KeyMap.ofList_perm (hperm.filterMap _) (parameters_nodup hapart)]

/-! ## Answers -/

/-- What becomes of a query string: the outcome of its compilation with its JSON text, and the
statements for a page and for the total if it is accepted. -/
structure Answer where
  outcome : Except QueryError CompiledQuery
  json : String
  page? : Option (Except InvalidIdentifier Sql.Statement)
  total? : Option (Except InvalidIdentifier Sql.Statement)

/-- The JSON text of an outcome. -/
def outcomeText : Except QueryError CompiledQuery → String
  | .ok q => q.toJson.render
  | .error e => e.toJson.render

/-- The answer to a query string. -/
def answer (spec : FieldSpec) (d : Sql.Dialect) (table : String) (columns : List String)
    (query : String) : Except Percent.DecodeError Answer :=
  (parse query).map fun raw =>
    let outcome := spec.compile raw
    { outcome
      json := outcomeText outcome
      page? := outcome.toOption.map (Sql.select d table columns)
      total? := outcome.toOption.map fun q => Sql.count d table q.filter }

/-- **The order of parameters does not matter.** Segments with distinct keys are read alike in every
order: they are too long, or they give the same query and so the same answer. And entries with
distinct keys, in whatever order they come, make up the same query. -/
theorem order_irrelevant :
    (∀ {pieces pieces' : List (List Char)}, pieces.Perm pieces' → (∀ p ∈ pieces, '&' ∉ p) →
      (∀ p ∈ pieces, p.head? ≠ some '?') → pieces.Pairwise Apart →
        (parse (joinedSegments pieces) = .error .tooLong ∧
            parse (joinedSegments pieces') = .error .tooLong ∨
          ∃ raw, parse (joinedSegments pieces) = .ok raw ∧
            parse (joinedSegments pieces') = .ok raw) ∧
        ∀ (spec : FieldSpec) (d : Sql.Dialect) (table : String) (columns : List String),
          answer spec d table columns (joinedSegments pieces) =
            answer spec d table columns (joinedSegments pieces')) ∧
    ∀ {pairs pairs' : List (String × String)}, pairs.Perm pairs' → (pairs.map (·.1)).Nodup →
      (KeyMap.ofList pairs : RawQuery) = KeyMap.ofList pairs' := by
  refine ⟨fun {pieces pieces'} hperm hamp hmark hapart => ?_, KeyMap.ofList_perm⟩
  have hsame := parse_joined_perm hperm hamp hmark hapart
  refine ⟨?_, fun spec d table columns => by rw [answer, hsame, answer]⟩
  rw [← hsame]
  cases hparse : parse (joinedSegments pieces) with
  | error e => exact .inl ⟨rfl, rfl⟩
  | ok raw => exact .inr ⟨raw, rfl, rfl⟩

/-- Segments of several kinds, backwards: two parameters, one of them in another spelling, a value
without a key, a key without a value, and nothing at all. -/
theorem order_irrelevant_reversed :
    let pieces := ["b=1".toList, "".toList, "%61_gt=x".toList, "=y".toList, "c".toList]
    let pairs := [("b", "1"), ("a_gt", "x")]
    (pieces.Perm pieces.reverse ∧ (∀ p ∈ pieces, '&' ∉ p) ∧
      (∀ p ∈ pieces, p.head? ≠ some '?') ∧ pieces.Pairwise Apart) ∧
    (∀ (spec : FieldSpec) (d : Sql.Dialect) (table : String) (columns : List String),
      answer spec d table columns "b=1&&%61_gt=x&=y&c" =
        answer spec d table columns "c&=y&%61_gt=x&&b=1") ∧
    pairs.Perm pairs.reverse ∧ (pairs.map (·.1)).Nodup ∧
    (KeyMap.ofList pairs : RawQuery) = KeyMap.ofList pairs.reverse := by
  intro pieces pairs
  have hperm : pieces.Perm pieces.reverse := pieces.reverse_perm.symm
  have hamp : ∀ p ∈ pieces, '&' ∉ p := by decide +kernel
  have hmark : ∀ p ∈ pieces, p.head? ≠ some '?' := by decide +kernel
  have hapart : pieces.Pairwise Apart := by decide +kernel
  have hnodup : (pairs.map (·.1)).Nodup := by decide +kernel
  have hqueries := order_irrelevant.1 hperm hamp hmark hapart
  have hpairs := order_irrelevant.2 pairs.reverse_perm.symm hnodup
  exact ⟨⟨hperm, hamp, hmark, hapart⟩, hqueries.2, pairs.reverse_perm.symm, hnodup, hpairs⟩

end QueryFilter.RawQuery
