import QueryFilter.Json.Encode
import QueryFilter.Proofs.Coerce
import QueryFilter.Proofs.Compile
import QueryFilter.Proofs.JsonText
import QueryFilter.Proofs.Literal

/-!
# JSON forms lose nothing

The JSON text of a compiled query or of a rejection determines it. A value carries no mark of its
kind, and still its text tells it: a floating-point number shows a point or a power of ten, and none
that is not finite gets into a query.

* `Json.isToken_decimalInt`, `Json.isToken_literal`: what is written for a number is a number token;
* `Value.toJson_injective`, `Filter.toJson_injective`, `QueryError.toJson_injective`: the forms of
  different things differ;
* `CompiledQuery.isFinite_of_compile`: the numbers in a compiled query are finite;
* **`CompiledQuery.json_faithful`**: the texts of compiled queries and of rejections.
-/

namespace QueryFilter

/-! ## Number tokens -/

namespace Json

theorem isToken_decimal (n : Nat) : IsToken (Numeral.decimal n) where
  ne_empty h := Nat.toDigits_ne_nil (String.ofList_eq_empty_iff.1 h)
  chars c hc := by
    rw [Numeral.decimal, String.toList_ofList] at hc
    exact .inl (Numeral.isDigit_of_mem_toDigits hc)

/-- The numeral of an integer has no character but digits and a minus sign. -/
theorem mem_decimalInt {i : Int} {c : Char} (h : c ∈ (Numeral.decimalInt i).toList) :
    c.isDigit = true ∨ c = '-' := by
  cases i with
  | ofNat n =>
    rw [Numeral.decimalInt, Numeral.decimal, String.toList_ofList] at h
    exact .inl (Numeral.isDigit_of_mem_toDigits h)
  | negSucc n =>
    rw [Numeral.decimalInt, String.toList_append] at h
    rcases List.mem_append.1 h with hminus | hdigit
    · exact .inr (List.mem_singleton.1 hminus)
    · rw [Numeral.decimal, String.toList_ofList] at hdigit
      exact .inl (Numeral.isDigit_of_mem_toDigits hdigit)

theorem isToken_decimalInt (i : Int) : IsToken (Numeral.decimalInt i) where
  ne_empty h := by
    cases i with
    | ofNat n => exact (isToken_decimal n).ne_empty h
    | negSucc n => simp [Numeral.decimalInt] at h
  chars c hc := by
    rcases mem_decimalInt hc with hdigit | rfl
    · exact .inl hdigit
    · decide

theorem isToken_literal {x : Binary64} {token : String} (h : x.literal? = some token) :
    IsToken token where
  ne_empty hempty := by
    have hmark := Binary64.exists_mark_literal h
    simp [hempty] at hmark
  chars _ hc := Binary64.mem_literal h hc

/-- The token of a floating-point number is not the numeral of an integer. -/
theorem literal_ne_decimalInt {x : Binary64} {token : String} (h : x.literal? = some token)
    (i : Int) : token ≠ Numeral.decimalInt i := by
  rintro rfl
  have hno {c : Char} (hdigit : c.isDigit = false) (hminus : c ≠ '-') :
      c ∉ (Numeral.decimalInt i).toList := by
    intro hc
    rcases mem_decimalInt hc with hd | hm
    · rw [hdigit] at hd
      cases hd
    · exact hminus hm
  rcases Binary64.exists_mark_literal h with hpoint | hpower
  · exact hno (by decide) (by decide) hpoint
  · exact hno (by decide) (by decide) hpower

theorem natural_injective {m n : Nat} (h : natural m = natural n) : m = n :=
  Numeral.decimal_injective (Json.number.inj h)

theorem wellFormed_natural (n : Nat) : (natural n).WellFormed :=
  .number (isToken_decimal n)

end Json

/-! ## Values -/

namespace Value

theorem toJson_float {x : Binary64} (h : x.isFinite = true) :
    ∃ token, x.literal? = some token ∧ (float x).toJson = .number token := by
  refine ⟨_, Binary64.literal?_eq h, ?_⟩
  rw [toJson, Binary64.literal?_eq h]

theorem wellFormed_toJson (v : Value) : v.toJson.WellFormed := by
  cases v with
  | bool b => exact .bool b
  | int i => exact .number (Json.isToken_decimalInt i.toInt)
  | float x =>
    rw [toJson]
    split
    · next token h => exact .number (Json.isToken_literal h)
    · exact .null
  | text s => exact .string s

theorem toJson_ne_null {v : Value} (h : v.isFinite = true) : v.toJson ≠ .null := by
  cases v with
  | bool | int | text => exact nofun
  | float x =>
    obtain ⟨token, -, hx⟩ := toJson_float h
    rw [hx]
    exact nofun

/-- **Finite values with one form are equal.** -/
theorem toJson_injective {v v' : Value} (h : v.isFinite = true) (h' : v'.isFinite = true)
    (heq : v.toJson = v'.toJson) : v = v' := by
  have mixed {x : Binary64} (hx : x.isFinite = true) (i : Int64) :
      (float x).toJson ≠ (int i).toJson := by
    obtain ⟨token, htoken, hform⟩ := toJson_float hx
    rw [hform, toJson]
    exact fun hnumber => Json.literal_ne_decimalInt htoken _ (Json.number.inj hnumber)
  cases v with
  | bool b =>
    cases v' with
    | bool b' => exact congrArg bool (Json.bool.inj heq)
    | int | text => cases heq
    | float x' =>
      obtain ⟨token, -, hform⟩ := toJson_float h'
      rw [hform] at heq
      cases heq
  | int i =>
    cases v' with
    | int i' =>
      have hint := Numeral.decimalInt_injective (Json.number.inj heq)
      exact congrArg int (Int64.toInt_inj.1 hint)
    | bool | text => cases heq
    | float x' => exact absurd heq.symm (mixed h' i)
  | float x =>
    obtain ⟨token, htoken, hform⟩ := toJson_float h
    cases v' with
    | int i' => exact absurd heq (mixed h i')
    | bool | text =>
      rw [hform] at heq
      cases heq
    | float x' =>
      obtain ⟨token', htoken', hform'⟩ := toJson_float h'
      rw [hform, hform'] at heq
      cases heq
      -- one token is read as one number
      have hread := (Binary64.parse?_literal htoken).symm.trans (Binary64.parse?_literal htoken')
      exact congrArg float (Option.some.inj hread)
  | text s =>
    cases v' with
    | text s' => exact congrArg text (Json.string.inj heq)
    | bool | int => cases heq
    | float x' =>
      obtain ⟨token, -, hform⟩ := toJson_float h'
      rw [hform] at heq
      cases heq

/-- Values that look alike. -/
example : [int 1, float (.ofInt 1), text "1", bool true, text "true"].map (·.toJson.render) =
    ["1", "1.0", "\"1\"", "true", "\"true\""] := by
  decide +kernel

end Value

/-! ## Filters -/

theorem Operator.toJson_injective {op op' : Operator} (h : op.toJson = op'.toJson) : op = op' :=
  token_injective (Json.string.inj h)

/-- Lists are determined by their images, if the items are. -/
theorem map_injective_of_mem {α β : Type} {f : α → β} {l l' : List α}
    (hf : ∀ a ∈ l, ∀ a' ∈ l', f a = f a' → a = a') (h : l.map f = l'.map f) : l = l' := by
  induction l generalizing l' with
  | nil => exact (List.map_eq_nil_iff.1 h.symm).symm
  | cons a l ih =>
    cases l' with
    | nil => cases h
    | cons a' l' =>
      obtain ⟨hhead, htail⟩ := List.cons.inj h
      obtain rfl : a = a' := hf a List.mem_cons_self a' List.mem_cons_self hhead
      exact congrArg (a :: ·) (ih (fun b hb b' hb' =>
        hf b (List.mem_cons_of_mem _ hb) b' (List.mem_cons_of_mem _ hb')) htail)

theorem Condition.wellFormed_toJson (c : Condition) : c.toJson.WellFormed := by
  refine .object (List.forall_mem_cons.2 ⟨.string _, List.forall_mem_cons.2 ⟨?_, nofun⟩⟩)
  exact c.value.wellFormed_toJson

theorem Condition.toJson_injective {c c' : Condition} (h : c.value.isFinite = true)
    (h' : c'.value.isFinite = true) (heq : c.toJson = c'.toJson) : c = c' := by
  simp only [toJson, Json.object.injEq, List.cons.injEq, Prod.mk.injEq, true_and, and_true] at heq
  obtain ⟨hop, hvalue⟩ := heq
  obtain ⟨op, v⟩ := c
  obtain ⟨op', v'⟩ := c'
  rw [Condition.mk.injEq]
  exact ⟨Operator.toJson_injective hop, Value.toJson_injective h h' hvalue⟩

namespace Filter

/-- A filter that compares with finite numbers only. -/
def IsFinite (f : Filter) : Prop :=
  ∀ p ∈ f.predicates, p.value.isFinite = true

theorem IsFinite.entries {f : Filter} (hf : f.IsFinite) {e : String × List Condition}
    (he : e ∈ f.byAttribute.entries) {c : Condition} (hc : c ∈ e.2) : c.value.isFinite = true :=
  hf (c.on e.1) (List.mem_flatMap.2 ⟨e, he, List.mem_map_of_mem hc⟩)

theorem wellFormed_toJson (f : Filter) : f.toJson.WellFormed := by
  refine .object fun m hm => ?_
  obtain ⟨e, -, rfl⟩ := List.mem_map.1 hm
  refine .array fun j hj => ?_
  obtain ⟨c, -, rfl⟩ := List.mem_map.1 hj
  exact c.wellFormed_toJson

/-- **Filters with one form are equal.** -/
theorem toJson_injective {f f' : Filter} (hf : f.IsFinite) (hf' : f'.IsFinite)
    (h : f.toJson = f'.toJson) : f = f' := by
  have hentries : f.byAttribute.entries = f'.byAttribute.entries := by
    refine map_injective_of_mem (fun e he e' he' heq => ?_) (Json.object.inj h)
    obtain ⟨hattr, hconditions⟩ := Prod.mk.inj heq
    refine Prod.ext hattr (map_injective_of_mem (fun c hc c' hc' hcc => ?_)
      (Json.array.inj hconditions))
    exact Condition.toJson_injective (hf.entries he hc) (hf'.entries he' hc') hcc
  obtain ⟨⟨entries, sorted⟩⟩ := f
  obtain ⟨⟨entries', sorted'⟩⟩ := f'
  cases hentries
  rfl

end Filter

/-! ## Compiled queries -/

theorem Pagination.wellFormed_toJson (p : Pagination) : p.toJson.WellFormed :=
  .object (List.forall_mem_cons.2 ⟨Json.wellFormed_natural _,
    List.forall_mem_cons.2 ⟨Json.wellFormed_natural _, nofun⟩⟩)

theorem Pagination.toJson_injective {p p' : Pagination} (h : p.toJson = p'.toJson) : p = p' := by
  simp only [toJson, Json.object.injEq, List.cons.injEq, Prod.mk.injEq, true_and, and_true] at h
  obtain ⟨hpage, hlimit⟩ := h
  obtain ⟨page, limit⟩ := p
  obtain ⟨page', limit'⟩ := p'
  rw [Pagination.mk.injEq]
  exact ⟨UInt32.toNat_inj.1 (Json.natural_injective hpage),
    UInt32.toNat_inj.1 (Json.natural_injective hlimit)⟩

namespace CompiledQuery

theorem wellFormed_toJson (q : CompiledQuery) : q.toJson.WellFormed := by
  refine .object (List.forall_mem_cons.2 ⟨q.filter.wellFormed_toJson,
    List.forall_mem_cons.2 ⟨q.pagination.wellFormed_toJson,
      List.forall_mem_cons.2 ⟨.object fun m hm => ?_, nofun⟩⟩⟩)
  obtain ⟨e, -, rfl⟩ := List.mem_map.1 hm
  exact .string _

theorem toJson_injective {q q' : CompiledQuery} (hq : q.filter.IsFinite)
    (hq' : q'.filter.IsFinite) (h : q.toJson = q'.toJson) : q = q' := by
  simp only [toJson, Json.object.injEq, List.cons.injEq, Prod.mk.injEq, true_and, and_true] at h
  obtain ⟨hfilter, hpagination, hreserved⟩ := h
  have hentries : q.reserved.entries = q'.reserved.entries := by
    refine map_injective_of_mem (fun e _ e' _ heq => ?_) hreserved
    obtain ⟨hkey, hvalue⟩ := Prod.mk.inj heq
    exact Prod.ext hkey (Json.string.inj hvalue)
  obtain ⟨filter, pagination, ⟨entries, sorted⟩⟩ := q
  obtain ⟨filter', pagination', ⟨entries', sorted'⟩⟩ := q'
  cases hentries
  rw [CompiledQuery.mk.injEq]
  exact ⟨Filter.toJson_injective hq hq' hfilter, Pagination.toJson_injective hpagination, rfl⟩

/-- The numbers in a compiled query are finite. -/
theorem isFinite_of_compile {spec : FieldSpec} {raw : RawQuery} {q : CompiledQuery}
    (h : spec.compile raw = .ok q) : q.filter.IsFinite := by
  intro p hp
  obtain ⟨key, value, -, -, hvalue⟩ :=
    FieldSpec.mem_acceptedPredicates_iff.1 ((FieldSpec.mem_predicates_iff h).1 hp)
  exact isFinite_of_coerce hvalue

end CompiledQuery

/-! ## Rejections -/

theorem Reason.wellFormed_toJson (r : Reason) : r.toJson.WellFormed := by
  have hstrings {members : List (String × Json)} (h : ∀ m ∈ members, ∃ s, m.2 = .string s) :
      (Json.object members).WellFormed := .object fun m hm => by
    obtain ⟨s, hs⟩ := h m hm
    rw [hs]
    exact .string s
  cases r <;> exact hstrings (by simp [Operator.toJson])

theorem Reason.toJson_injective {r r' : Reason} (h : r.toJson = r'.toJson) : r = r' := by
  cases r with
  | unknownAttribute attr =>
    cases r' with
    | unknownAttribute attr' => simpa [toJson, kind] using h
    | illegalOperator | notANumber => simp [toJson, kind] at h
  | illegalOperator attr op =>
    cases r' with
    | illegalOperator attr' op' =>
      obtain ⟨hattr, hop⟩ : attr = attr' ∧ op.toJson = op'.toJson := by simpa [toJson, kind] using h
      rw [hattr, Operator.toJson_injective hop]
    | unknownAttribute | notANumber => simp [toJson, kind] at h
  | notANumber op value =>
    cases r' with
    | notANumber op' value' =>
      obtain ⟨hop, hvalue⟩ : op.toJson = op'.toJson ∧ value = value' := by
        simpa [toJson, kind] using h
      rw [hvalue, Operator.toJson_injective hop]
    | unknownAttribute | illegalOperator => simp [toJson, kind] at h

namespace QueryError

theorem wellFormed_toJson (e : QueryError) : e.toJson.WellFormed := by
  refine .object (List.forall_mem_cons.2 ⟨.array fun j hj => ?_, nofun⟩)
  obtain ⟨err, -, rfl⟩ := List.mem_map.1 hj
  exact .object (List.forall_mem_cons.2 ⟨.string _,
    List.forall_mem_cons.2 ⟨err.reason.wellFormed_toJson, nofun⟩⟩)

theorem toJson_injective {e e' : QueryError} (h : e.toJson = e'.toJson) : e = e' := by
  simp only [toJson, Json.object.injEq, List.cons.injEq, Prod.mk.injEq, Json.array.injEq, true_and,
    and_true] at h
  have herrors : e.errors = e'.errors := by
    refine map_injective_of_mem (fun err _ err' _ heq => ?_) h
    simp only [KeyError.toJson, Json.object.injEq, List.cons.injEq, Prod.mk.injEq,
      Json.string.injEq, true_and, and_true] at heq
    obtain ⟨hkey, hreason⟩ := heq
    obtain ⟨key, reason⟩ := err
    obtain ⟨key', reason'⟩ := err'
    rw [KeyError.mk.injEq]
    exact ⟨hkey, Reason.toJson_injective hreason⟩
  obtain ⟨errors, hne⟩ := e
  obtain ⟨errors', hne'⟩ := e'
  cases herrors
  rfl

end QueryError

/-- **JSON texts lose nothing.** Compiled queries with one text are equal, in every comparison, in
the page and in the parameters handed on, whatever rules and queries they come from; none of their
values is written as `null`. Rejections with one text are equal, too. -/
theorem CompiledQuery.json_faithful :
    (∀ (spec spec' : FieldSpec) (raw raw' : RawQuery) (q q' : CompiledQuery),
      spec.compile raw = .ok q → spec'.compile raw' = .ok q' →
        q.toJson.render = q'.toJson.render → q = q') ∧
    (∀ (spec : FieldSpec) (raw : RawQuery) (q : CompiledQuery), spec.compile raw = .ok q →
      ∀ p ∈ q.filter.predicates, p.value.toJson.render ≠ "null") ∧
    ∀ e e' : QueryError, e.toJson.render = e'.toJson.render → e = e' := by
  refine ⟨fun spec spec' raw raw' q q' hq hq' h => ?_, fun spec raw q hq p hp hnull => ?_,
    fun e e' h => ?_⟩
  · exact toJson_injective (isFinite_of_compile hq) (isFinite_of_compile hq')
      (Json.render_injective q.wellFormed_toJson q'.wellFormed_toJson h)
  · have hrender : Json.null.render = "null" := rfl
    exact Value.toJson_ne_null (isFinite_of_compile hq p hp)
      (Json.render_injective p.value.wellFormed_toJson .null (hnull.trans hrender.symm))
  · exact QueryError.toJson_injective
      (Json.render_injective e.wellFormed_toJson e'.wellFormed_toJson h)

/-- One text of a query under two rules, and another of a query that looks alike; one text of a
rejection under two rules. -/
theorem CompiledQuery.json_faithful_alike :
    let exactly : FieldSpec := ⟨.ofList ["a"], .ofList [], .ofList ["sort"], {}⟩
    let any : FieldSpec := ⟨.ofList [], .ofList ["a"], .ofList ["sort"], {}⟩
    let raw : RawQuery := .ofList [("a", "1.0"), ("sort", "a")]
    let alike : RawQuery := .ofList [("a", "1"), ("sort", "a")]
    let unknown : RawQuery := .ofList [("b", "1")]
    (∃ q q' r : CompiledQuery, exactly.compile raw = .ok q ∧ any.compile raw = .ok q' ∧
      any.compile alike = .ok r ∧ q = q' ∧ q.toJson.render ≠ r.toJson.render ∧
      ∀ p ∈ q.filter.predicates, p.value.toJson.render ≠ "null") ∧
    ∃ e e' : QueryError, exactly.compile unknown = .error e ∧ any.compile unknown = .error e' ∧
      e = e' := by
  intro exactly any raw alike unknown
  obtain ⟨hqueries, hvalues, hrejections⟩ := json_faithful
  let q : CompiledQuery :=
    ⟨.ofPredicates [⟨"a", .eq, .float (.ofInt 1)⟩], ⟨1, 10⟩, .ofList [("sort", "a")]⟩
  let r : CompiledQuery :=
    ⟨.ofPredicates [⟨"a", .eq, .int 1⟩], ⟨1, 10⟩, .ofList [("sort", "a")]⟩
  let e : QueryError := ⟨[⟨"b", .unknownAttribute "b"⟩], by decide⟩
  have hq : exactly.compile raw = .ok q := by decide +kernel
  have hq' : any.compile raw = .ok q := by decide +kernel
  have hr : any.compile alike = .ok r := by decide +kernel
  have hne : q ≠ r := by decide +kernel
  have he : exactly.compile unknown = .error e := by decide +kernel
  have he' : any.compile unknown = .error e := by decide +kernel
  exact ⟨⟨q, q, r, hq, hq', hr, hqueries _ _ _ _ q q hq hq' rfl,
    fun h => hne (hqueries _ _ _ _ q r hq hr h), hvalues _ _ q hq⟩,
    e, e, he, he', hrejections e e rfl⟩

end QueryFilter
