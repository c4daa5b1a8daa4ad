import QueryFilter.Proofs.Conservation
import QueryFilter.Proofs.Grouping
import QueryFilter.Proofs.Statement

/-!
# One selection, two statements

The page of a listing and its total are asked for by two statements. They restrict the rows alike,
and neither the choice of a page nor a parameter that is handed on has a part in that.

* `Sql.text_conjunction`: the conditions of a filter, with their numbers;
* `Sql.wherePart`, `Sql.select_eq_wherePart`, `Sql.count_eq_wherePart`: what both statements have in
  common;
* **`FieldSpec.page_and_total_agree`**.
-/

namespace QueryFilter

namespace Sql

variable {d : Dialect} {table : String} {columns : List String}

/-! ## Conditions with numbers -/

/-- The text of a condition, whose value is the parameter of a number. -/
def conditionText (d : Dialect) (p : Predicate) (n : UInt64) : String :=
  text (conditionWords d p n)

theorem conditionWords_ne_nil (d : Dialect) (p : Predicate) (n : UInt64) :
    conditionWords d p n ≠ [] := by
  rw [conditionWords_eq]
  exact List.cons_ne_nil _ _

theorem conjunction_ne_nil (d : Dialect) (n : UInt64) {ps : List Predicate} (h : ps ≠ []) :
    conjunction d n ps ≠ [] := by
  match ps with
  | [] => exact absurd rfl h
  | p :: ps =>
    rw [conjunction_cons]
    exact List.append_ne_nil_of_left_ne_nil (conditionWords_ne_nil d p n) _

/-- **The conditions of a filter** are numbered in order. -/
theorem text_conjunction (d : Dialect) (n : UInt64) (ps : List Predicate) :
    text (conjunction d n ps) =
      " AND ".intercalate (ps.mapIdx fun i p => conditionText d p (n + UInt64.ofNat i)) := by
  induction ps generalizing n with
  | nil => rfl
  | cons p ps ih =>
    -- the numbers of the rest are those of the whole, one place on
    have hfirst : n + UInt64.ofNat 0 = n := by simp
    have hnext : (fun i p => conditionText d p (n + 1 + UInt64.ofNat i)) =
        fun i p => conditionText d p (n + UInt64.ofNat (i + 1)) := by
      funext i p
      rw [UInt64.ofNat_add, UInt64.add_assoc, UInt64.add_comm 1]
      rfl
    have hrest := ih (n + 1)
    rw [hnext] at hrest
    rw [List.mapIdx_cons, hfirst]
    match ps with
    | [] => simp [conjunction, conditionText]
    | r :: ps =>
      have hne : (r :: ps).mapIdx
          (fun i p => conditionText d p (n + UInt64.ofNat (i + 1))) ≠ [] := by simp
      rw [conjunction, text_append (conditionWords_ne_nil d p n) (List.cons_ne_nil _ _),
        text_cons _ (conjunction_ne_nil d _ (List.cons_ne_nil _ _)), hrest,
        String.intercalate_cons_of_ne_nil hne, conditionText]
      apply String.toList_inj.1
      simp

theorem whereClause_sql (d : Dialect) (f : Filter) : (whereClause d f 1).sql =
    " AND ".intercalate
      (f.predicates.mapIdx fun i p => conditionText d p (UInt64.ofNat (i + 1))) := by
  have hnumber : (fun i p => conditionText d p (1 + UInt64.ofNat i)) =
      fun i p => conditionText d p (UInt64.ofNat (i + 1)) := by
    funext i p
    rw [UInt64.ofNat_add, UInt64.add_comm]
    rfl
  rw [whereClause, text_conjunction, hnumber]

/-! ## The parts of a statement as text -/

/-- The columns of a statement. -/
def columnList (columns : List String) : String :=
  if columns = [] then "*" else ", ".intercalate columns

/-- The restriction to a filter; nothing if it requires nothing. -/
def wherePart (d : Dialect) (f : Filter) : String :=
  if f.predicates = [] then "" else " WHERE " ++ (whereClause d f 1).sql

theorem columnWords_ne_nil (columns : List String) : columnWords columns ≠ [] := by
  match columns with
  | [] => exact List.cons_ne_nil _ _
  | [_] => exact List.cons_ne_nil _ _
  | _ :: _ :: _ => exact List.cons_ne_nil _ _

theorem text_columnWords (columns : List String) :
    text (columnWords columns) = columnList columns := by
  induction columns with
  | nil => rfl
  | cons c cs ih =>
    match cs with
    | [] => simp [columnWords, columnList, text]
    | e :: cs =>
      rw [columnList, if_neg (List.cons_ne_nil _ _)] at ih ⊢
      rw [columnWords, text_cons _ (columnWords_ne_nil _), ih,
        String.intercalate_cons_of_ne_nil (List.cons_ne_nil _ _)]
      apply String.toList_inj.1
      simp

theorem text_cons_restrictionWords (d : Dialect) (table : String) (f : Filter) :
    text (table :: restrictionWords d f) = table ++ wherePart d f := by
  unfold restrictionWords wherePart whereClause
  match f.predicates with
  | [] => simp [text]
  | p :: ps =>
    rw [if_neg (List.cons_ne_nil _ _)]
    show text (table :: "WHERE" :: conjunction d 1 (p :: ps)) = _
    rw [text_cons _ (List.cons_ne_nil _ _),
      text_cons _ (conjunction_ne_nil d _ (List.cons_ne_nil _ _))]
    apply String.toList_inj.1
    simp

theorem select_eq_wherePart (d : Dialect) (ht : IsName table) (hc : ∀ c ∈ columns, IsName c)
    (q : CompiledQuery) : select d table columns q =
      .ok ⟨"SELECT " ++ columnList columns ++ " FROM " ++ table ++ wherePart d q.filter ++
        " LIMIT " ++ Numeral.decimal q.pagination.take.toNat ++
        " OFFSET " ++ Numeral.decimal q.pagination.skip.toNat, params q.filter⟩ := by
  have hlisting : text (listingWords d table columns q.filter.tokens) =
      "SELECT " ++ columnList columns ++ " FROM " ++ table ++ wherePart d q.filter := by
    rw [listingWords, ← restrictionWords_eq,
      text_append (List.cons_ne_nil _ _) (List.cons_ne_nil _ _),
      text_cons _ (columnWords_ne_nil columns), text_cons _ (List.cons_ne_nil _ _),
      text_columnWords, text_cons_restrictionWords]
    apply String.toList_inj.1
    simp
  rw [select_eq d ht hc, text_append_pageWords (listingWords_ne_nil _ _ _ _), hlisting]

theorem count_eq_wherePart (d : Dialect) (ht : IsName table) (f : Filter) :
    count d table f =
      .ok ⟨"SELECT COUNT(*) FROM " ++ table ++ wherePart d f, params f⟩ := by
  have htotal : text (totalWords d table f.tokens) =
      "SELECT COUNT(*) FROM " ++ table ++ wherePart d f := by
    rw [totalWords, ← restrictionWords_eq, text_cons _ (List.cons_ne_nil _ _),
      text_cons _ (List.cons_ne_nil _ _), text_cons _ (List.cons_ne_nil _ _),
      text_cons_restrictionWords]
    apply String.toList_inj.1
    simp
  rw [count_eq d ht, htotal]

end Sql

namespace FieldSpec

open Sql

theorem wherePart_eq (d : Dialect) {spec : FieldSpec} {raw : RawQuery} {q : CompiledQuery}
    (hq : spec.compile raw = .ok q) : wherePart d q.filter =
    if q.filter.isEmpty then "" else " WHERE " ++ (whereClause d q.filter 1).sql := by
  obtain ⟨-, -, rfl⟩ := compile_eq_ok_iff.1 hq
  exact if_congr Filter.isEmpty_ofPredicates_iff.symm rfl rfl

/-- **The page and the total are of one selection.** Both statements of an accepted query have the
same parameters and the same restriction, whose parameters are numbered from one. And a query that
differs from it only where a page is selected or something is handed on is accepted, with the same
statement for the total, and with a statement for the page that differs at most in the two numbers
of the page. -/
theorem page_and_total_agree (d : Dialect) {table : String} {columns : List String}
    (ht : IsName table) (hc : ∀ c ∈ columns, IsName c) {spec : FieldSpec} {raw : RawQuery}
    {q : CompiledQuery} (hq : spec.compile raw = .ok q) :
    ∃ s c : Statement, select d table columns q = .ok s ∧ count d table q.filter = .ok c ∧
      s.params = c.params ∧ c.params = q.filter.predicates.map (·.value) ∧
      (∃ restriction,
        s.sql = "SELECT " ++ columnList columns ++ " FROM " ++ table ++ restriction ++
          " LIMIT " ++ Numeral.decimal q.pagination.take.toNat ++
          " OFFSET " ++ Numeral.decimal q.pagination.skip.toNat ∧
        c.sql = "SELECT COUNT(*) FROM " ++ table ++ restriction ∧
        restriction = if q.filter.isEmpty then "" else " WHERE " ++ " AND ".intercalate
          (q.filter.predicates.mapIdx fun i p => conditionText d p (UInt64.ofNat (i + 1)))) ∧
      ∀ raw' : RawQuery,
        (∀ key, key ≠ "page" → key ≠ "limit" → spec.isReserved key = false →
          raw.get? key = raw'.get? key) →
        ∃ q' s', spec.compile raw' = .ok q' ∧ select d table columns q' = .ok s' ∧
          count d table q'.filter = .ok c ∧ s'.params = s.params ∧
          ∃ front,
            s.sql = front ++ " LIMIT " ++ Numeral.decimal q.pagination.take.toNat ++
              " OFFSET " ++ Numeral.decimal q.pagination.skip.toNat ∧
            s'.sql = front ++ " LIMIT " ++ Numeral.decimal q'.pagination.take.toNat ++
              " OFFSET " ++ Numeral.decimal q'.pagination.skip.toNat := by
  refine ⟨_, _, select_eq_wherePart d ht hc q, count_eq_wherePart d ht q.filter, rfl, rfl,
    ⟨_, rfl, rfl, ?_⟩, fun raw' h => ?_⟩
  · rw [wherePart_eq d hq, whereClause_sql]
  · have hplain : ∀ key, spec.IsPlain key → raw.get? key = raw'.get? key := by
      intro key hkey
      obtain ⟨hp, hl, hr⟩ := isPlain_iff.1 hkey
      exact h key hp hl hr
    exact ⟨_, _, compile_congr hplain hq, select_eq_wherePart d ht hc _,
      count_eq_wherePart d ht q.filter, rfl, _, rfl, rfl⟩

/-- A query, and the same one with another page and something handed on. -/
theorem page_and_total_agree_ages :
    let b : Builder :=
      { equalityOnly := ["role"], anyOperator := ["age", "age_max"], reserved := ["sort"] }
    let spec := b.rules {}
    let raw : RawQuery := .ofList [("age_max", "60"), ("age_ne", "7"), ("page", "2"), ("role", "x")]
    let raw' : RawQuery := (raw.insert "limit" "5").insert "sort" "-age"
    ∃ (q q' : CompiledQuery) (s s' c : Statement), IsName "users" ∧ spec.compile raw = .ok q ∧
      spec.compile raw' = .ok q' ∧ select .sqlite "users" [] q = .ok s ∧
      select .sqlite "users" [] q' = .ok s' ∧ count .sqlite "users" q.filter = .ok c ∧
      count .sqlite "users" q'.filter = .ok c ∧
      s.sql = "SELECT * FROM users WHERE age != ?1 AND age_max = ?2 AND role = ?3 " ++
        "LIMIT 10 OFFSET 10" ∧
      s'.sql = "SELECT * FROM users WHERE age != ?1 AND age_max = ?2 AND role = ?3 " ++
        "LIMIT 5 OFFSET 5" ∧
      c.sql = "SELECT COUNT(*) FROM users WHERE age != ?1 AND age_max = ?2 AND role = ?3" ∧
      s.params = [.int 7, .int 60, .text "x"] ∧ s'.params = s.params ∧ s.params = c.params := by
  intro b spec raw raw'
  have htable : IsName "users" := isIdentifier_iff.1 (by decide)
  have hcolumns : ∀ c ∈ ([] : List String), IsName c := List.forall_mem_nil _
  have hq : spec.compile raw = .ok _ := rfl
  obtain ⟨s, c, hs, hc, hparams, hvalues, -, hother⟩ :=
    page_and_total_agree .sqlite htable hcolumns hq
  have hagree : ∀ key, key ≠ "page" → key ≠ "limit" → spec.isReserved key = false →
      raw.get? key = raw'.get? key := by
    intro key _ hlimit hreserved
    have hsort : key ≠ "sort" := by
      rintro rfl
      exact absurd hreserved (by decide +kernel)
    rw [KeyMap.get?_insert, if_neg hsort, KeyMap.get?_insert, if_neg hlimit]
  obtain ⟨q', s', hq', hs', hc', hparams', -⟩ := hother raw' hagree
  have hpage : s = _ := Except.ok.inj (hs.symm.trans (select_eq _ htable hcolumns _))
  have hpage' : s' = _ := Except.ok.inj (hs'.symm.trans (select_eq _ htable hcolumns _))
  have htotal : c = _ := Except.ok.inj (hc.symm.trans (count_eq _ htable _))
  have hcompiled : q' = _ := Except.ok.inj (hq'.symm.trans rfl)
  subst hcompiled
  refine ⟨_, _, s, s', c, htable, hq, hq', hs, hs', hc, hc',
    (congrArg Statement.sql hpage).trans ?_, (congrArg Statement.sql hpage').trans ?_,
    (congrArg Statement.sql htotal).trans ?_, (congrArg Statement.params hpage).trans ?_, hparams',
    hparams⟩
  all_goals decide +kernel

end FieldSpec

end QueryFilter
