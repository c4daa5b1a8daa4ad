import QueryFilter.Proofs.Pagination
import QueryFilter.Proofs.Selection
import QueryFilter.Text.Cut

/-!
# The numbers of a page

A statement for a page ends with two numbers, and a database reads them as signed words of 64 bits.
The size of a page always fits into one. The rows before a page are counted in an unsigned word: how
far they are from the signed range is a matter of the greatest page size.

* `Sql.last_word_inj`: a text ends with one word only;
* `Sql.Statement.Cuts`, **`Sql.cuts_iff`**: the numbers of a statement are those of the page;
* `Pagination.skip_le_of_limit_le`, `Pagination.skip_le_of_page_le`: pages in the signed range;
* **`FieldSpec.page_numbers`**: the specifications whose pages all are, and
  `FieldSpec.offset_leaves_range`.
-/

namespace QueryFilter

namespace Sql

/-! ## The end of a statement -/

theorem last_word_inj {s t v w : String} (hv : IsWord v) (hw : IsWord w)
    (h : s ++ " " ++ v = t ++ " " ++ w) : s = t ∧ v = w := by
  -- the last word of a text is the first one of its reversal
  have hreverse := congrArg (List.reverse ∘ String.toList) h
  simp only [Function.comp_apply, String.toList_append, List.reverse_append] at hreverse
  have hblank : (" " : String).toList.reverse = [' '] := rfl
  rw [hblank, List.singleton_append, List.singleton_append] at hreverse
  have hv' : ' ' ∉ v.toList.reverse := mt List.mem_reverse.1 hv
  have hw' : ' ' ∉ w.toList.reverse := mt List.mem_reverse.1 hw
  constructor
  · have hfront := congrArg (Text.after ' ') hreverse
    rw [Text.after_append_cons hv', Text.after_append_cons hw'] at hfront
    exact String.toList_inj.1 (List.reverse_injective hfront)
  · have hlast := congrArg (Text.before ' ') hreverse
    rw [Text.before_append_cons hv', Text.before_append_cons hw'] at hlast
    exact String.toList_inj.1 (List.reverse_injective hlast)

/-- **The numbers that a statement cuts out a page with**: those behind its last keywords. -/
def Statement.Cuts (s : Statement) (limit offset : Nat) : Prop :=
  ∃ front, s.sql =
    front ++ " LIMIT " ++ Numeral.decimal limit ++ " OFFSET " ++ Numeral.decimal offset

theorem Statement.Cuts.unique {s : Statement} {limit limit' offset offset' : Nat}
    (h : s.Cuts limit offset) (h' : s.Cuts limit' offset') :
    limit = limit' ∧ offset = offset' := by
  have words (front : String) (m n : Nat) :
      front ++ " LIMIT " ++ Numeral.decimal m ++ " OFFSET " ++ Numeral.decimal n =
        front ++ " LIMIT" ++ " " ++ Numeral.decimal m ++ " " ++ "OFFSET" ++ " " ++
          Numeral.decimal n := by
    apply String.toList_inj.1
    simp
  obtain ⟨front, hs⟩ := h
  obtain ⟨front', hs'⟩ := h'
  have heq := hs.symm.trans hs'
  rw [words, words] at heq
  obtain ⟨hkeyword, hoffset⟩ := last_word_inj (isWord_decimal _) (isWord_decimal _) heq
  obtain ⟨hnumber, -⟩ := last_word_inj (by decide) (by decide) hkeyword
  obtain ⟨-, hlimit⟩ := last_word_inj (isWord_decimal _) (isWord_decimal _) hnumber
  exact ⟨Numeral.decimal_injective hlimit, Numeral.decimal_injective hoffset⟩

variable {table : String} {columns : List String}

/-- **A statement cuts out the page of its query**, and with no other numbers. -/
theorem cuts_iff (d : Dialect) (ht : IsName table) (hc : ∀ c ∈ columns, IsName c)
    (q : CompiledQuery) : ∃ s, select d table columns q = .ok s ∧ ∀ limit offset,
      s.Cuts limit offset ↔ limit = q.pagination.take.toNat ∧ offset = q.pagination.skip.toNat := by
  refine ⟨_, select_eq_wherePart d ht hc q, fun limit offset => ⟨fun h => ?_, ?_⟩⟩
  · exact h.unique ⟨_, rfl⟩
  · rintro ⟨rfl, rfl⟩
    exact ⟨_, rfl⟩

end Sql

/-! ## Pages in the signed range -/

namespace Pagination

theorem page_pred_le (p : Pagination) : p.page.toNat - 1 ≤ 2 ^ 32 - 2 := by
  have hlt : p.page.toNat < 2 ^ 32 := p.page.toNat_lt
  omega

theorem limit_le (p : Pagination) : p.limit.toNat ≤ 2 ^ 32 - 1 :=
  Nat.le_sub_one_of_lt p.limit.toNat_lt

/-- The greatest page size for which every page is in the signed range. -/
def safeLimit : Nat :=
  2 ^ 31 + 1

theorem skip_le_of_limit_le {p : Pagination} (h : p.limit.toNat ≤ safeLimit) :
    p.skip.toNat ≤ 2 ^ 63 - 1 := by
  rw [toNat_skip]
  calc
    (p.page.toNat - 1) * p.limit.toNat ≤ (2 ^ 32 - 2) * safeLimit := Nat.mul_le_mul p.page_pred_le h
    _ ≤ 2 ^ 63 - 1 := by decide

theorem skip_le_of_page_le {p : Pagination} (h : p.page.toNat ≤ 2 ^ 31 + 1) :
    p.skip.toNat ≤ 2 ^ 63 - 1 := by
  rw [toNat_skip]
  calc
    (p.page.toNat - 1) * p.limit.toNat ≤ 2 ^ 31 * (2 ^ 32 - 1) :=
      Nat.mul_le_mul (Nat.sub_le_of_le_add h) p.limit_le
    _ ≤ 2 ^ 63 - 1 := by decide

/-- On the last page, a page size is safe only if every page of that size is. -/
theorem skip_le_iff_of_last {p : Pagination} (hlast : p.page.toNat = 2 ^ 32 - 1) :
    p.skip.toNat ≤ 2 ^ 63 - 1 ↔ p.limit.toNat ≤ safeLimit := by
  refine ⟨fun h => ?_, skip_le_of_limit_le⟩
  rw [toNat_skip, hlast] at h
  have hproduct : (2 ^ 32 - 2) * p.limit.toNat < (2 ^ 32 - 2) * (safeLimit + 1) :=
    h.trans_lt (by decide)
  exact Nat.le_of_lt_succ (Nat.lt_of_mul_lt_mul_left hproduct)

end Pagination

/-! ## Specifications -/

namespace FieldSpec

open Sql Pagination PageLimits

variable {b : Builder} {spec : FieldSpec} {table : String} {columns : List String}

/-- A query that asks for the last page, with the greatest size there is. -/
def farthest : RawQuery :=
  (KeyMap.empty.insert "page" (Numeral.decimal (2 ^ 32 - 1))).insert "limit"
    (Numeral.decimal (2 ^ 32 - 1))

theorem get?_farthest {key : String} (h : spec.IsPlain key) :
    farthest.get? key = KeyMap.empty.get? key := by
  obtain ⟨hpage, hlimit, -⟩ := isPlain_iff.1 h
  rw [farthest, KeyMap.get?_insert, if_neg hlimit, KeyMap.get?_insert, if_neg hpage]

/-- Every specification accepts the query, and lowers only its page size. -/
theorem exists_compile_farthest (hb : b.build = .ok spec) : ∃ q, spec.compile farthest = .ok q ∧
    q.pagination.page.toNat = 2 ^ 32 - 1 ∧
    q.pagination.limit.toNat = spec.limits.max.elim (2 ^ 32 - 1) UInt32.toNat := by
  have hplain (key : String) (hkey : spec.IsPlain key) :
      KeyMap.empty.get? key = farthest.get? key := (get?_farthest hkey).symm
  have hq := compile_congr hplain rfl
  have hnumber : WritesPositive (Numeral.decimal (2 ^ 32 - 1)) (2 ^ 32 - 1) :=
    writesPositive_decimal (by decide) (by decide)
  have hpage : NumberAt farthest "page" (1 : UInt32).toNat (2 ^ 32 - 1) := .written rfl hnumber
  have hlimit : NumberAt farthest "limit" spec.limits.default.toNat (2 ^ 32 - 1) :=
    .written rfl hnumber
  refine ⟨_, hq, ?_, ?_⟩
  · show (spec.limits.extract farthest).value.page.toNat = _
    rw [toNat_page_extract, hpage.toNat_positiveOr]
    rfl
  · show (spec.limits.extract farthest).value.limit.toNat = _
    rw [toNat_limit_of_build hb hlimit]
    cases spec.limits.max with
    | none => rfl
    | some greatest => exact Nat.min_eq_right (Nat.le_sub_one_of_lt greatest.toNat_lt)

/-- **The numbers of a page.** The statement of an accepted query cuts out its page: behind the rows
of the pages before it stand those of its size, which fits into 32 bits. The rows before it are in
the signed range of 64 bits if at most 2^31 pages, or pages of at most 2^31 + 1 rows, come before
it. All accepted queries have both numbers in that range exactly if the specification sets a
greatest size of at most 2^31 + 1. -/
theorem page_numbers (hb : b.build = .ok spec) (d : Dialect) (ht : IsName table)
    (hc : ∀ c ∈ columns, IsName c) :
    (∀ (raw : RawQuery) (q : CompiledQuery), spec.compile raw = .ok q →
      ∃ s limit offset, select d table columns q = .ok s ∧
        (∀ m n, s.Cuts m n ↔ m = limit ∧ n = offset) ∧
        limit = q.pagination.limit.toNat ∧ offset = (q.pagination.page.toNat - 1) * limit ∧
        limit ≤ 2 ^ 32 - 1 ∧
        (q.pagination.page.toNat ≤ 2 ^ 31 + 1 ∨ limit ≤ 2 ^ 31 + 1 → offset ≤ 2 ^ 63 - 1)) ∧
    ((∀ (raw : RawQuery) (q : CompiledQuery), spec.compile raw = .ok q →
      ∃ s limit offset, select d table columns q = .ok s ∧ s.Cuts limit offset ∧
        limit ≤ 2 ^ 63 - 1 ∧ offset ≤ 2 ^ 63 - 1) ↔
      ∃ greatest, spec.limits.max = some greatest ∧ greatest.toNat ≤ 2 ^ 31 + 1) := by
  refine ⟨fun raw q hq => ?_, fun h => ?_, fun ⟨greatest, hmax, hle⟩ raw q hq => ?_⟩
  · obtain ⟨s, hs, hcuts⟩ := cuts_iff d ht hc q
    refine ⟨s, _, _, hs, hcuts, rfl, toNat_skip _, q.pagination.limit_le, ?_⟩
    rintro (hpage | hlimit)
    · exact skip_le_of_page_le hpage
    · exact skip_le_of_limit_le hlimit
  · -- the farthest page alone decides
    obtain ⟨q, hq, hpage, hlimit⟩ := exists_compile_farthest hb
    obtain ⟨s, limit, offset, hs, hcuts, -, hle⟩ := h farthest q hq
    obtain ⟨s', hs', hcuts'⟩ := cuts_iff d ht hc q
    obtain rfl : s = s' := Except.ok.inj (hs.symm.trans hs')
    obtain ⟨-, rfl⟩ := (hcuts' limit offset).1 hcuts
    have hsafe := (skip_le_iff_of_last hpage).1 hle
    rw [hlimit] at hsafe
    cases hmax : spec.limits.max with
    | none =>
      rw [hmax] at hsafe
      exact absurd hsafe (by decide)
    | some greatest =>
      rw [hmax] at hsafe
      exact ⟨greatest, rfl, hsafe⟩
  · obtain ⟨s, hs, hcuts⟩ := cuts_iff d ht hc q
    have hlimit : q.pagination.limit.toNat ≤ safeLimit := by
      rw [pagination_eq hq]
      exact ((answers_extract spec.limits raw).size_le greatest hmax).trans
        (Nat.max_le.2 ⟨by decide, hle⟩)
    exact ⟨s, _, _, hs, (hcuts _ _).2 ⟨rfl, rfl⟩, q.pagination.limit_le.trans (by decide),
      skip_le_of_limit_le hlimit⟩

/-- The greatest page size that keeps every page in the signed range, and its last page. -/
theorem page_numbers_last :
    let b : Builder := { anyOperator := ["age"], maxLimit := some 2147483649 }
    let spec := b.rules ⟨10, some 2147483649⟩
    let raw : RawQuery := .ofList [("page", "4294967295"), ("limit", "4294967295")]
    ∃ (q : CompiledQuery) (s : Statement), b.build = .ok spec ∧ IsName "users" ∧ IsName "id" ∧
      spec.compile raw = .ok q ∧ select .postgres "users" ["id"] q = .ok s ∧
      s.Cuts 2147483649 9223372036854775806 ∧ 9223372036854775806 ≤ 2 ^ 63 - 1 := by
  intro b spec raw
  have hb : b.build = .ok spec := by decide +kernel
  have htable : IsName "users" := isIdentifier_iff.1 (by decide)
  have hcolumn : IsName "id" := isIdentifier_iff.1 (by decide)
  have hq : spec.compile raw = .ok _ := rfl
  obtain ⟨hnumbers, -⟩ := page_numbers hb .postgres htable (List.forall_mem_singleton.2 hcolumn)
  obtain ⟨s, limit, offset, hs, hcuts, hlimit, hoffset, -, hrange⟩ := hnumbers raw _ hq
  have hlimit_eq : limit = 2147483649 := hlimit.trans (by decide +kernel)
  have hoffset_eq : offset = 9223372036854775806 := by
    rw [hoffset, hlimit_eq]
    decide +kernel
  refine ⟨_, s, hb, htable, hcolumn, hq, hs, (hcuts _ _).2 ⟨hlimit_eq.symm, hoffset_eq.symm⟩, ?_⟩
  rw [← hoffset_eq]
  exact hrange (.inr (by omega))

/-- **A page that leaves the signed range**: without a greatest size, an accepted query has a
statement whose last number is close to 2^64. -/
theorem offset_leaves_range :
    let b : Builder := { anyOperator := ["age"] }
    let spec := b.rules {}
    let raw : RawQuery := .ofList [("page", "4294967295"), ("limit", "4294967295")]
    ∃ (q : CompiledQuery) (s : Statement), b.build = .ok spec ∧ IsName "users" ∧ IsName "id" ∧
      spec.compile raw = .ok q ∧ select .postgres "users" ["id"] q = .ok s ∧
      s.sql = "SELECT id FROM users LIMIT 4294967295 OFFSET 18446744060824649730" ∧
      s.Cuts 4294967295 18446744060824649730 ∧ 2 ^ 63 - 1 < 18446744060824649730 := by
  intro b spec raw
  have htable : IsName "users" := isIdentifier_iff.1 (by decide)
  have hcolumn : IsName "id" := isIdentifier_iff.1 (by decide)
  have hq : spec.compile raw = .ok _ := rfl
  exact ⟨_, _, by decide +kernel, htable, hcolumn, hq,
    select_eq_wherePart .postgres htable (List.forall_mem_singleton.2 hcolumn) _, by decide +kernel,
    ⟨"SELECT id FROM users", by decide +kernel⟩, by decide⟩

end FieldSpec

end QueryFilter
