import QueryFilter.Proofs.Building
import QueryFilter.Proofs.Numeral

/-!
# The page of a query

Every query has a page, whatever stands at the two keys that select it. The pages of one size divide
the rows of a listing among them.

* `PageLimits.WritesPositive`, **`PageLimits.NumberAt`**: positive numbers as a query writes them,
  and the number at a key, be it written there or the default; `PageLimits.numberAt_iff`;
* **`PageLimits.extract_exact`**: the page that a query asks for, and its bounds;
* **`FieldSpec.limit_of_numeral`**, `FieldSpec.limit_shrinks`: numerals of page sizes above the
  greatest one;
* `Pagination.toNat_skip`: the rows before a page are counted without overflow;
* **`PageLimits.pages_tile`**: each row is on exactly one page.
-/

namespace QueryFilter

namespace PageLimits

/-! ## Positive numbers -/

/-- A text that writes a positive number of 32 bits: at most a plus sign, then decimal digits. -/
structure WritesPositive (s : String) (n : Nat) : Prop where
  unsigned : Numeral.WritesUnsigned s n
  pos : 1 ≤ n
  lt : n < 2 ^ 32

theorem positive?_eq_some_iff {s : String} {w : UInt32} :
    positive? s = some w ↔ WritesPositive s w.toNat := by
  rw [positive?, Option.filter_eq_some_iff, Numeral.uint32?_eq_some_iff, decide_eq_true_eq]
  constructor
  · rintro ⟨hw, hpos⟩
    exact ⟨hw, hpos, w.toNat_lt⟩
  · exact fun h => ⟨h.unsigned, h.pos⟩

theorem WritesPositive.exists_word {s : String} {n : Nat} (h : WritesPositive s n) :
    ∃ w : UInt32, w.toNat = n ∧ positive? s = some w := by
  have hn : (UInt32.ofNat n).toNat = n := UInt32.toNat_ofNat_of_lt h.lt
  exact ⟨.ofNat n, hn, positive?_eq_some_iff.2 (hn.symm ▸ h)⟩

theorem positive?_eq_none_iff {s : String} : positive? s = none ↔ ∀ n, ¬ WritesPositive s n := by
  rw [Option.eq_none_iff_forall_ne_some]
  constructor
  · intro h n hn
    obtain ⟨w, -, hw⟩ := hn.exists_word
    exact h w hw
  · exact fun h w hw => h _ (positive?_eq_some_iff.1 hw)

theorem writesPositive_decimal {n : Nat} (hpos : 1 ≤ n) (hlt : n < 2 ^ 32) :
    WritesPositive (Numeral.decimal n) n :=
  ⟨Numeral.writesUnsigned_decimal n, hpos, hlt⟩

/-! ## The number at a key -/

/-- **The number at a key** of a query: the positive number that is written there, or the default if
none is. -/
inductive NumberAt (raw : RawQuery) (key : String) (default : Nat) : Nat → Prop
  | written {value : String} {n : Nat} (hv : raw.get? key = some value)
    (hn : WritesPositive value n) : NumberAt raw key default n
  | defaulted (h : ∀ value n, raw.get? key = some value → ¬ WritesPositive value n) :
    NumberAt raw key default default

variable {raw : RawQuery} {key : String} {default : UInt32} {n : Nat}

theorem NumberAt.toNat_positiveOr (h : NumberAt raw key default.toNat n) :
    (positiveOr raw key default).value.toNat = n := by
  unfold positiveOr
  cases h with
  | written hv hn =>
    obtain ⟨w, rfl, hw⟩ := hn.exists_word
    rw [hv]
    simp only [hw]
    rfl
  | defaulted h =>
    split
    · rfl
    · next value hv =>
      rw [positive?_eq_none_iff.2 fun n => h value n hv]
      rfl

theorem numberAt_positiveOr (raw : RawQuery) (key : String) (default : UInt32) :
    NumberAt raw key default.toNat (positiveOr raw key default).value.toNat := by
  by_cases h : ∃ value n, raw.get? key = some value ∧ WritesPositive value n
  · obtain ⟨value, n, hv, hn⟩ := h
    have hwritten : NumberAt raw key default.toNat n := .written hv hn
    rwa [hwritten.toNat_positiveOr]
  · have hdefaulted : NumberAt raw key default.toNat default.toNat :=
      .defaulted fun value n hv hn => h ⟨value, n, hv, hn⟩
    rwa [hdefaulted.toNat_positiveOr]

theorem NumberAt.pos {default : Nat} (hdefault : 1 ≤ default) (h : NumberAt raw key default n) :
    1 ≤ n := by
  cases h with
  | written hv hn => exact hn.pos
  | defaulted h => exact hdefault

/-- There is exactly one number at a key. -/
theorem numberAt_iff :
    NumberAt raw key default.toNat n ↔ n = (positiveOr raw key default).value.toNat := by
  constructor
  · exact fun h => h.toNat_positiveOr.symm
  · rintro rfl
    exact numberAt_positiveOr raw key default

end PageLimits

open PageLimits

namespace Pagination

/-! ## The page -/

/-- A page size within limits: no greater than the greatest one if there is one, and then at least
one. -/
def sizeWithin (limits : PageLimits) (n : Nat) : Nat :=
  max 1 (limits.max.elim n fun max => min n max.toNat)

theorem toNat_raise (w : UInt32) : (if w = 0 then 1 else w).toNat = max 1 w.toNat := by
  split
  · next h =>
    rw [h]
    rfl
  · next h =>
    have hne : w.toNat ≠ 0 := fun e => h (UInt32.toNat_inj.1 e)
    omega

theorem toNat_clamp (limits : PageLimits) (w : UInt32) :
    (limits.clamp w).toNat = limits.max.elim w.toNat fun max => min w.toNat max.toNat := by
  unfold clamp
  cases limits.max with
  | none => rfl
  | some max =>
    show (if max < w then max else w).toNat = min w.toNat max.toNat
    split
    · next h => exact (Nat.min_eq_right (Nat.le_of_lt h)).symm
    · next h => exact (Nat.min_eq_left (Nat.le_of_not_lt h)).symm

theorem toNat_page_extract (limits : PageLimits) (raw : RawQuery) :
    (limits.extract raw).value.page.toNat = max 1 (positiveOr raw "page" 1).value.toNat :=
  toNat_raise _

theorem toNat_limit_extract (limits : PageLimits) (raw : RawQuery) :
    (limits.extract raw).value.limit.toNat =
      sizeWithin limits (positiveOr raw "limit" limits.default).value.toNat := by
  rw [sizeWithin, ← toNat_clamp]
  exact toNat_raise _

/-- **A page answers a query** if its number is the one at `page`, or else one, and its size the one
at `limit`, or else the default, within the limits. -/
structure Answers (p : Pagination) (limits : PageLimits) (raw : RawQuery) : Prop where
  page : ∀ n, NumberAt raw "page" 1 n ↔ n = p.page.toNat
  size : ∃ m, (∀ n, NumberAt raw "limit" limits.default.toNat n ↔ n = m) ∧
    p.limit.toNat = sizeWithin limits m
  page_pos : 1 ≤ p.page.toNat
  size_pos : 1 ≤ p.limit.toNat
  size_le : ∀ greatest, limits.max = some greatest → p.limit.toNat ≤ max 1 greatest.toNat

theorem answers_extract (limits : PageLimits) (raw : RawQuery) :
    (limits.extract raw).value.Answers limits raw where
  page n := by
    have hpos : 1 ≤ (positiveOr raw "page" 1).value.toNat :=
      (numberAt_positiveOr raw "page" 1).pos Nat.le.refl
    rw [toNat_page_extract, Nat.max_eq_right hpos]
    show NumberAt raw "page" (1 : UInt32).toNat n ↔ _
    exact numberAt_iff
  size := ⟨_, fun _ => numberAt_iff, toNat_limit_extract limits raw⟩
  page_pos := by
    rw [toNat_page_extract]
    exact Nat.le_max_left _ _
  size_pos := by
    rw [toNat_limit_extract]
    exact Nat.le_max_left _ _
  size_le greatest hmax := by
    rw [toNat_limit_extract, sizeWithin, hmax, Option.elim_some]
    omega

end Pagination

/-! ## Limits that have been checked -/

/-- Limits that are built need no raising: the default is a size, and no greater than the greatest
one. -/
theorem FieldSpec.Builder.limits_of_build {b : Builder} {spec : FieldSpec}
    (h : b.build = .ok spec) : spec.limits.default = b.defaultLimit.getD 10 ∧
      1 ≤ spec.limits.default.toNat ∧
      ∀ greatest, spec.limits.max = some greatest →
        spec.limits.default.toNat ≤ greatest.toNat := by
  have hrealizes := realizes_of_build h
  have hvalid : (Given.ofBuilder b).Valid := exists_build_eq_ok_iff.1 ⟨spec, h⟩
  refine ⟨hrealizes.default, ?_, fun greatest hmax => ?_⟩
  · rw [hrealizes.default]
    cases hsize : (Given.ofBuilder b).limit .default with
    | none => decide
    | some size => exact hvalid.positive .default size hsize
  · rw [hrealizes.default]
    exact hvalid.ordered greatest (hrealizes.max.symm.trans hmax)

namespace Pagination

theorem toNat_limit_of_build {b : FieldSpec.Builder} {spec : FieldSpec} (hb : b.build = .ok spec)
    {raw : RawQuery} {n : Nat} (hn : NumberAt raw "limit" spec.limits.default.toNat n) :
    (spec.limits.extract raw).value.limit.toNat =
      spec.limits.max.elim n fun max => min n max.toNat := by
  obtain ⟨-, hdefault, hordered⟩ := FieldSpec.Builder.limits_of_build hb
  have hpos : 1 ≤ n := hn.pos hdefault
  rw [toNat_limit_extract, hn.toNat_positiveOr, sizeWithin]
  refine Nat.max_eq_right ?_
  cases hmax : spec.limits.max with
  | none => exact hpos
  | some greatest => exact Nat.le_min.2 ⟨hpos, hdefault.trans (hordered greatest hmax)⟩

/-- Where no size is written, an accepted specification gives the default that was configured. -/
theorem limit_of_build_of_not_written {b : FieldSpec.Builder} {spec : FieldSpec}
    (hb : b.build = .ok spec) {raw : RawQuery}
    (hnone : ∀ value n, raw.get? "limit" = some value → ¬ WritesPositive value n) :
    (spec.limits.extract raw).value.limit = b.defaultLimit.getD 10 := by
  obtain ⟨hdefault, -, hordered⟩ := FieldSpec.Builder.limits_of_build hb
  rw [← hdefault]
  apply UInt32.toNat_inj.1
  rw [toNat_limit_of_build hb (.defaulted hnone)]
  cases hmax : spec.limits.max with
  | none => rfl
  | some greatest => exact Nat.min_eq_left (hordered greatest hmax)

/-- **Every query has a page.** Its number is the positive number of 32 bits that is written at
`page`, or one; its size is the one that is written at `limit`, or the default, lowered to the
greatest size and raised to one. Where the limits have been checked, the size is never greater than
the greatest, and it is the configured default if none is written. -/
theorem extract_exact :
    (∀ (limits : PageLimits) (raw : RawQuery), (limits.extract raw).value.Answers limits raw) ∧
    ∀ {b : FieldSpec.Builder} {spec : FieldSpec}, b.build = .ok spec → ∀ raw : RawQuery,
      (∀ greatest, spec.limits.max = some greatest →
        (spec.limits.extract raw).value.limit ≤ greatest) ∧
      ((∀ value n, raw.get? "limit" = some value → ¬ WritesPositive value n) →
        (spec.limits.extract raw).value.limit = b.defaultLimit.getD 10) := by
  refine ⟨answers_extract, fun {b spec} hb raw => ⟨fun greatest hmax => ?_, fun hnone => ?_⟩⟩
  · have hsize := toNat_limit_of_build hb (numberAt_positiveOr raw "limit" spec.limits.default)
    rw [hmax, Option.elim_some] at hsize
    exact UInt32.le_iff_toNat_le.2 (hsize ▸ Nat.min_le_right _ _)
  · exact limit_of_build_of_not_written hb hnone

/-- Numerals with a sign and leading zeros, with limits that no check has seen, and a size that is
none. -/
theorem extract_exact_zeros :
    let raw : RawQuery := .ofList [("page", "+0042"), ("limit", "4294967296")]
    let b : FieldSpec.Builder := { defaultLimit := some 20, maxLimit := some 50 }
    let spec := b.rules ⟨20, some 50⟩
    let limits : PageLimits := ⟨0, some 0⟩
    b.build = .ok spec ∧ WritesPositive "+0042" 42 ∧
      (∀ n, ¬ WritesPositive "4294967296" n) ∧
      (limits.extract raw).value = ⟨42, 1⟩ ∧ (limits.extract raw).value.Answers limits raw ∧
      (spec.limits.extract raw).value.limit ≤ 50 ∧ (spec.limits.extract raw).value.limit = 20 := by
  intro raw b spec limits
  have hb : b.build = .ok spec := by decide +kernel
  have hplus : positive? "+0042" = some 42 := by decide +kernel
  have hpage : WritesPositive "+0042" 42 := positive?_eq_some_iff.1 hplus
  have hlimit : ∀ n, ¬ WritesPositive "4294967296" n := positive?_eq_none_iff.1 (by decide +kernel)
  have hnone : ∀ value n, raw.get? "limit" = some value → ¬ WritesPositive value n := by
    intro value n hv
    cases hv
    exact hlimit n
  obtain ⟨hanswers, hbuilt⟩ := extract_exact
  obtain ⟨hle, hdefault⟩ := hbuilt hb raw
  exact ⟨hb, hpage, hlimit, by decide +kernel, hanswers limits raw, hle 50 rfl, hdefault hnone⟩

end Pagination

/-! ## Numerals of page sizes -/

namespace FieldSpec

variable {b : Builder} {spec : FieldSpec} {greatest : UInt32} {raw raw' : RawQuery}
  {value value' : String} {n n' : Nat}

theorem limit_of_numeral_lt (hb : b.build = .ok spec) (hmax : spec.limits.max = some greatest)
    (hv : raw.get? "limit" = some value) (hn : Numeral.WritesNatural value.toList n) (hpos : 1 ≤ n)
    (hlt : n < 2 ^ 32) : (spec.limits.extract raw).value.limit.toNat = min n greatest.toNat := by
  have hnumber : NumberAt raw "limit" spec.limits.default.toNat n :=
    .written hv ⟨⟨_, .inl rfl, hn⟩, hpos, hlt⟩
  rw [Pagination.toNat_limit_of_build hb hnumber, hmax, Option.elim_some]

theorem limit_of_numeral_ge (hb : b.build = .ok spec) (hv : raw.get? "limit" = some value)
    (hn : Numeral.WritesNatural value.toList n) (hge : 2 ^ 32 ≤ n) :
    (spec.limits.extract raw).value.limit = b.defaultLimit.getD 10 := by
  refine Pagination.limit_of_build_of_not_written hb fun value' m hv' hm => ?_
  obtain rfl : value = value' := Option.some.inj (hv.symm.trans hv')
  have hm_eq : m = n := hn.eq_of_writesUnsigned hm.unsigned
  have hm_lt := hm.lt
  omega

/-- **Page sizes above the greatest one.** A numeral that fits into 32 bits asks for its number,
lowered to the greatest size, so that a greater one never gives a smaller page. A greater numeral is
no page size at all: it gives the default, which is what lowering it would give only if the default
is the greatest size itself. -/
theorem limit_of_numeral (hb : b.build = .ok spec) (hmax : spec.limits.max = some greatest) :
    (∀ (raw : RawQuery) (value : String) (n : Nat), raw.get? "limit" = some value →
      Numeral.WritesNatural value.toList n → 1 ≤ n →
      (n < 2 ^ 32 → (spec.limits.extract raw).value.limit.toNat = min n greatest.toNat) ∧
      (2 ^ 32 ≤ n → (spec.limits.extract raw).value.limit = b.defaultLimit.getD 10) ∧
      ((spec.limits.extract raw).value.limit.toNat = min n greatest.toNat ↔
        n < 2 ^ 32 ∨ b.defaultLimit.getD 10 = greatest)) ∧
    ∀ (raw raw' : RawQuery) (value value' : String) (n n' : Nat),
      raw.get? "limit" = some value → Numeral.WritesNatural value.toList n → 1 ≤ n →
      raw'.get? "limit" = some value' → Numeral.WritesNatural value'.toList n' → n' < 2 ^ 32 →
      n ≤ n' →
      (spec.limits.extract raw).value.limit ≤ (spec.limits.extract raw').value.limit := by
  constructor
  · intro raw value n hv hn hpos
    refine ⟨limit_of_numeral_lt hb hmax hv hn hpos, limit_of_numeral_ge hb hv hn, ?_⟩
    by_cases hlt : n < 2 ^ 32
    · exact iff_of_true (limit_of_numeral_lt hb hmax hv hn hpos hlt) (.inl hlt)
    · have hge : 2 ^ 32 ≤ n := Nat.le_of_not_lt hlt
      have hle : greatest.toNat ≤ n := Nat.le_of_lt (greatest.toNat_lt.trans_le hge)
      rw [limit_of_numeral_ge hb hv hn hge, Nat.min_eq_right hle, UInt32.toNat_inj,
        or_iff_right hlt]
  · intro raw raw' value value' n n' hv hn hpos hv' hn' hlt' hle
    rw [UInt32.le_iff_toNat_le, limit_of_numeral_lt hb hmax hv hn hpos (hle.trans_lt hlt'),
      limit_of_numeral_lt hb hmax hv' hn' (hpos.trans hle) hlt']
    omega

/-- A numeral of 32 bits that is lowered. -/
theorem limit_of_numeral_last :
    let b : Builder := { defaultLimit := some 20, maxLimit := some 100 }
    let spec := b.rules ⟨20, some 100⟩
    let asking (limit : String) : RawQuery := .ofList [("limit", limit)]
    b.build = .ok spec ∧ spec.limits.max = some 100 ∧
      Numeral.WritesNatural "0099".toList 99 ∧
      Numeral.WritesNatural "4294967295".toList 4294967295 ∧
      Numeral.WritesNatural "4294967296".toList 4294967296 ∧
      (spec.limits.extract (asking "4294967295")).value.limit.toNat = min 4294967295 100 ∧
      (spec.limits.extract (asking "4294967296")).value.limit = 20 ∧
      (spec.limits.extract (asking "0099")).value.limit ≤
        (spec.limits.extract (asking "4294967295")).value.limit := by
  intro b spec asking
  have hb : b.build = .ok spec := by decide +kernel
  have digits {s : String} {n : Nat} (h : Numeral.natural? s.toList = some n) :
      Numeral.WritesNatural s.toList n := Numeral.natural?_eq_some_iff.1 h
  have hsmall : Numeral.WritesNatural "0099".toList 99 := digits (by decide +kernel)
  have hlast : Numeral.WritesNatural "4294967295".toList 4294967295 := digits (by decide +kernel)
  have hover : Numeral.WritesNatural "4294967296".toList 4294967296 := digits (by decide +kernel)
  have hmax : spec.limits.max = some 100 := rfl
  obtain ⟨hnumeral, hmono⟩ := limit_of_numeral hb hmax
  obtain ⟨hlowered, -, -⟩ := hnumeral (asking "4294967295") _ _ rfl hlast (by decide)
  obtain ⟨-, hdefault, -⟩ := hnumeral (asking "4294967296") _ _ rfl hover (by decide)
  exact ⟨hb, hmax, hsmall, hlast, hover, hlowered (by decide), hdefault (by decide),
    hmono _ _ _ _ _ _ rfl hsmall (by decide) rfl hlast (by decide) (by decide)⟩

/-- **A greater page size that gives a smaller page**: the first numeral beyond 32 bits is not
lowered to the greatest size. -/
theorem limit_shrinks :
    let b : Builder := { maxLimit := some 100 }
    let spec := b.rules ⟨10, some 100⟩
    let asking (limit : String) : RawQuery := .ofList [("limit", limit)]
    b.build = .ok spec ∧ spec.limits.max = some 100 ∧
      Numeral.WritesNatural "4294967295".toList 4294967295 ∧
      Numeral.WritesNatural "4294967296".toList 4294967296 ∧
      (spec.limits.extract (asking "4294967295")).value.limit = 100 ∧
      (spec.limits.extract (asking "4294967296")).value.limit = 10 ∧
      (spec.limits.extract (asking "4294967296")).value.limit.toNat ≠ min 4294967296 100 := by
  intro b spec asking
  have digits {s : String} {n : Nat} (h : Numeral.natural? s.toList = some n) :
      Numeral.WritesNatural s.toList n := Numeral.natural?_eq_some_iff.1 h
  exact ⟨by decide +kernel, rfl, digits (by decide +kernel), digits (by decide +kernel),
    by decide +kernel, by decide +kernel, by decide +kernel⟩

end FieldSpec

/-! ## Rows -/

namespace Pagination

/-- **The rows before a page** are counted without overflow. -/
theorem toNat_skip (p : Pagination) : p.skip.toNat = (p.page.toNat - 1) * p.limit.toNat := by
  have hbefore : (if p.page = 0 then 0 else p.page.toUInt64 - 1).toNat = p.page.toNat - 1 := by
    split
    · next h =>
      rw [h]
      rfl
    · next h =>
      have hne : p.page.toNat ≠ 0 := fun e => h (UInt32.toNat_inj.1 e)
      have hone : (1 : UInt64) ≤ p.page.toUInt64 := by
        rw [UInt64.le_iff_toNat_le, UInt32.toNat_toUInt64]
        exact Nat.one_le_iff_ne_zero.2 hne
      rw [UInt64.toNat_sub_of_le _ _ hone, UInt32.toNat_toUInt64]
      rfl
  have hlt : (p.page.toNat - 1) * p.limit.toNat < 2 ^ 64 := by
    calc
      (p.page.toNat - 1) * p.limit.toNat < 2 ^ 32 * 2 ^ 32 :=
        Nat.mul_lt_mul'' ((Nat.sub_le _ _).trans_lt p.page.toNat_lt) p.limit.toNat_lt
      _ = 2 ^ 64 := rfl
  rw [skip, UInt64.toNat_mul, hbefore, UInt32.toNat_toUInt64, Nat.mod_eq_of_lt hlt]

/-- A row, counted from zero, that is on a page. -/
def Holds (p : Pagination) (row : Nat) : Prop :=
  p.skip.toNat ≤ row ∧ row < p.skip.toNat + p.take.toNat

/-- The page of a row is found by division. -/
theorem holds_iff {p : Pagination} (hsize : 1 ≤ p.limit.toNat) {row : Nat} :
    p.Holds row ↔ row / p.limit.toNat = p.page.toNat - 1 := by
  have htake : p.take.toNat = p.limit.toNat := rfl
  rw [Holds, htake, toNat_skip, Nat.div_eq_iff hsize]
  omega

/-- Another number at `page` leaves the size of the page alone. -/
theorem extract_insert_page (limits : PageLimits) (raw : RawQuery) {value : String} {n : Nat}
    (h : WritesPositive value n) : (limits.extract (raw.insert "page" value)).value =
      ⟨.ofNat n, (limits.extract raw).value.limit⟩ := by
  have hwritten : NumberAt (raw.insert "page" value) "page" (1 : UInt32).toNat n :=
    .written (by rw [KeyMap.get?_insert, if_pos rfl]) h
  have hpage : (limits.extract (raw.insert "page" value)).value.page = .ofNat n := by
    apply UInt32.toNat_inj.1
    rw [toNat_page_extract, hwritten.toNat_positiveOr, Nat.max_eq_right h.pos,
      UInt32.toNat_ofNat_of_lt' h.lt]
  have hother : (raw.insert "page" value).get? "limit" = raw.get? "limit" := by
    rw [KeyMap.get?_insert, if_neg (by decide)]
  have hlimit : (limits.extract (raw.insert "page" value)).value.limit =
      (limits.extract raw).value.limit := by
    apply UInt32.toNat_inj.1
    rw [toNat_limit_extract, toNat_limit_extract, positiveOr, positiveOr, hother]
  rw [← hpage, ← hlimit]

/-- **Pages tile the rows.** Whatever else a query asks for, the pages that differ in their number
have one size; each starts where the one before it ends, and the first with the first row, so that
every row is on exactly one page. The rows before a page are counted without overflow. -/
theorem pages_tile :
    (∀ (limits : PageLimits) (raw : RawQuery),
      let size := (limits.extract raw).value.limit.toNat
      let page (n : Nat) := (limits.extract (raw.insert "page" (Numeral.decimal n))).value
      (∀ value n, WritesPositive value n →
        (limits.extract (raw.insert "page" value)).value = page n) ∧
      (∀ n, 1 ≤ n → n < 2 ^ 32 → (page n).page.toNat = n ∧ (page n).take.toNat = size) ∧
      (page 1).skip.toNat = 0 ∧
      (∀ n, 1 ≤ n → n + 1 < 2 ^ 32 →
        (page (n + 1)).skip.toNat = (page n).skip.toNat + (page n).take.toNat) ∧
      ∀ row, row < (2 ^ 32 - 1) * size → ∃! n, (1 ≤ n ∧ n < 2 ^ 32) ∧ (page n).Holds row) ∧
    ∀ p : Pagination, (p.skip.toNat : Int) = max ((p.page.toNat : Int) - 1) 0 * p.limit.toNat ∧
      (p.page.toNat - 1) * p.limit.toNat < 2 ^ 64 := by
  refine ⟨fun limits raw => ?_, fun p => ⟨?_, toNat_skip p ▸ p.skip.toNat_lt⟩⟩
  · intro size page
    have hpage {n : Nat} (hpos : 1 ≤ n) (hlt : n < 2 ^ 32) :
        page n = ⟨.ofNat n, (limits.extract raw).value.limit⟩ :=
      extract_insert_page limits raw (writesPositive_decimal hpos hlt)
    have hskip {n : Nat} (hpos : 1 ≤ n) (hlt : n < 2 ^ 32) :
        (page n).skip.toNat = (n - 1) * size := by
      rw [toNat_skip, hpage hpos hlt, UInt32.toNat_ofNat_of_lt' hlt]
    have hholds {n : Nat} (hpos : 1 ≤ n) (hlt : n < 2 ^ 32) (row : Nat) :
        (page n).Holds row ↔ row / size = n - 1 := by
      have hsize : 1 ≤ (page n).limit.toNat := (answers_extract limits _).size_pos
      rw [holds_iff hsize, hpage hpos hlt, UInt32.toNat_ofNat_of_lt' hlt]
    refine ⟨fun value n h => ?_, fun n hpos hlt => ?_, ?_, fun n hpos hlt => ?_, fun row hrow => ?_⟩
    · rw [hpage h.pos h.lt]
      exact extract_insert_page limits raw h
    · rw [hpage hpos hlt]
      exact ⟨UInt32.toNat_ofNat_of_lt' hlt, rfl⟩
    · rw [hskip (Nat.le_refl 1) (by decide), Nat.sub_self, Nat.zero_mul]
    · have hlast : n < 2 ^ 32 := Nat.lt_of_succ_lt hlt
      have htake : (page n).take.toNat = size := by
        rw [hpage hpos hlast]
        rfl
      rw [hskip (Nat.le_add_left 1 n) hlt, hskip hpos hlast, htake, Nat.add_sub_cancel,
        ← Nat.succ_mul, Nat.succ_eq_add_one, Nat.sub_add_cancel hpos]
    · have hquotient : row / size < 2 ^ 32 - 1 := Nat.div_lt_of_lt_mul (Nat.mul_comm _ _ ▸ hrow)
      have hpos : 1 ≤ row / size + 1 := Nat.le_add_left 1 _
      have hlt : row / size + 1 < 2 ^ 32 := Nat.add_lt_of_lt_sub hquotient
      refine ⟨row / size + 1, ⟨⟨hpos, hlt⟩, (hholds hpos hlt row).2 rfl⟩, fun n hn => ?_⟩
      obtain ⟨⟨hpos, hlt⟩, hon⟩ := hn
      rw [(hholds hpos hlt row).1 hon, Nat.sub_add_cancel hpos]
  · rw [toNat_skip, Int.natCast_mul]
    congr 1
    omega

/-- The third page of a query, asked for with a sign, in front of a page that was asked for
before. -/
theorem pages_tile_third :
    let limits : PageLimits := ⟨10, some 25⟩
    let raw : RawQuery := .ofList [("page", "9"), ("limit", "100"), ("role", "x")]
    let page (n : Nat) := (limits.extract (raw.insert "page" (Numeral.decimal n))).value
    WritesPositive "+03" 3 ∧ (limits.extract (raw.insert "page" "+03")).value = page 3 ∧
      (page 3).skip.toNat = 50 ∧ (page 4).skip.toNat = (page 3).skip.toNat + (page 3).take.toNat ∧
      (∃! n, (1 ≤ n ∧ n < 2 ^ 32) ∧ (page n).Holds 74) ∧ (page 3).Holds 74 := by
  intro limits raw page
  have hplus : positive? "+03" = some 3 := by decide +kernel
  have hthird : WritesPositive "+03" 3 := positive?_eq_some_iff.1 hplus
  have hsize : (limits.extract raw).value.limit.toNat = 25 := by decide +kernel
  have hskip : (page 3).skip.toNat = 50 := by decide +kernel
  have htake : (page 3).take.toNat = 25 := by decide +kernel
  obtain ⟨hspelling, -, -, hnext, hrow⟩ := pages_tile.1 limits raw
  refine ⟨hthird, hspelling _ _ hthird, hskip, hnext 3 (by decide) (by decide), hrow 74 ?_, ?_⟩
  · rw [hsize]
    decide
  · rw [Holds, hskip, htake]
    decide

end Pagination

end QueryFilter
