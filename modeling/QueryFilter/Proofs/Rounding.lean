import QueryFilter.Binary64.Basic
import Mathlib.Algebra.Order.Floor.Semifield
import Mathlib.Data.Int.Log
import Mathlib.Data.Rat.Floor
import Mathlib.Tactic.FieldSimp
import Mathlib.Tactic.Linarith
import Mathlib.Tactic.Positivity

/-!
# Rounding

Rounding is a function of rational numbers: it does not depend on the fraction by which a number is
given, nor on the coefficient and the power of ten of a decimal.

* `Binary64.absolute`, `Decimal.absolute`: the absolute value that a magnitude and a decimal mean;
* `Binary64.nearestTo`: the magnitude nearest to a rational number;
  **`Binary64.nearest_eq_nearestTo`**: this is what is computed;
* `Binary64.nearestTo_absolute`: a finite magnitude is the one nearest to what it means;
* **`Binary64.magnitude_ofDecimal`**: a decimal is read as the magnitude nearest to it, however
  large or small its power of ten.
-/

namespace QueryFilter

namespace Binary64

/-! ## Fractions -/

theorem scale_snd_pos {base : Nat} (hb : 0 < base) (num : Nat) {den : Nat} (hd : 0 < den)
    (power : Int) : 0 < (scale base num den power).2 :=
  Nat.mul_pos hd (Nat.pow_pos hb)

theorem scale_div {base : Nat} (hb : 0 < base) (num den : Nat) (power : Int) :
    ((scale base num den power).1 : ℚ) / (scale base num den power).2 =
      num / den / (base : ℚ) ^ power := by
  have hbase : (base : ℚ) ≠ 0 := Nat.cast_ne_zero.2 hb.ne'
  obtain ⟨k, rfl | rfl⟩ := power.eq_nat_or_neg
  · simp [scale, div_div]
  · simp [scale, mul_div_right_comm]

/-! ## Rounding to natural numbers -/

/-- The natural number nearest to a rational number that is not negative; a tie goes to the even
one. -/
def nearestNat (v : ℚ) : Nat :=
  if v - ⌊v⌋₊ < 1 / 2 then ⌊v⌋₊
  else if 1 / 2 < v - ⌊v⌋₊ then ⌊v⌋₊ + 1
  else ⌊v⌋₊ + ⌊v⌋₊ % 2

theorem roundHalfEven_eq (num : Nat) {den : Nat} (hd : 0 < den) :
    roundHalfEven num den = nearestNat (num / den) := by
  have hden : (0 : ℚ) < den := Nat.cast_pos.2 hd
  have hrest : (num / den : ℚ) - (num / den : Nat) = (num % den : Nat) / den := by
    have hsplit : (num : ℚ) = den * (num / den : Nat) + (num % den : Nat) := by
      exact_mod_cast (Nat.div_add_mod num den).symm
    rw [eq_div_iff hden.ne', sub_mul, div_mul_cancel₀ _ hden.ne']
    linarith
  have hlow : 2 * (num % den) < den ↔ ((num % den : Nat) : ℚ) / den < 1 / 2 := by
    rw [div_lt_div_iff₀ hden two_pos, one_mul, mul_comm]
    exact_mod_cast Iff.rfl
  have hhigh : den < 2 * (num % den) ↔ (1 / 2 : ℚ) < (num % den : Nat) / den := by
    rw [div_lt_div_iff₀ two_pos hden, one_mul, mul_comm]
    exact_mod_cast Iff.rfl
  unfold roundHalfEven nearestNat
  rw [Nat.floor_div_eq_div, hrest]
  simp only [hlow, hhigh]

@[simp]
theorem nearestNat_natCast (n : Nat) : nearestNat n = n := by
  simp [nearestNat]

theorem nearestNat_eq_zero {v : ℚ} (h : v < 1 / 2) : nearestNat v = 0 := by
  have hfloor : ⌊v⌋₊ = 0 := Nat.floor_eq_zero.2 (by linarith)
  rw [nearestNat, hfloor, Nat.cast_zero, sub_zero, if_pos h]

theorem le_nearestNat {v : ℚ} {n : Nat} (h : (n : ℚ) ≤ v) : n ≤ nearestNat v := by
  have hfloor : n ≤ ⌊v⌋₊ := Nat.le_floor h
  unfold nearestNat
  split
  · exact hfloor
  · split <;> omega

/-! ## Rounding to magnitudes -/

theorem log2_bounds {n : Nat} (hn : n ≠ 0) :
    (2 : ℚ) ^ (n.log2 : Int) ≤ n ∧ (n : ℚ) < 2 ^ (n.log2 + 1 : Int) := by
  constructor
  · rw [zpow_natCast]
    exact_mod_cast Nat.log2_self_le hn
  · have hlt : n < 2 ^ (n.log2 + 1) := Nat.lt_log2_self
    exact_mod_cast hlt

theorem two_zpow_le_iff {v : ℚ} (hv : 0 < v) {l : Int} : 2 ^ l ≤ v ↔ l ≤ Int.log 2 v := by
  rw [← Int.zpow_le_iff_le_log one_lt_two hv, Nat.cast_ofNat]

theorem lt_two_zpow_iff {v : ℚ} (hv : 0 < v) {l : Int} : v < 2 ^ l ↔ Int.log 2 v < l := by
  rw [← Int.lt_zpow_iff_log_lt one_lt_two hv, Nat.cast_ofNat]

/-- The binary logarithm of a quotient is the difference of the logarithms, or one less. -/
theorem log_div_bounds {num den : Nat} (hn : num ≠ 0) (hd : den ≠ 0) :
    (num.log2 : Int) - den.log2 - 1 ≤ Int.log 2 (num / den : ℚ) ∧
      Int.log 2 (num / den : ℚ) < (num.log2 : Int) - den.log2 + 1 := by
  have hnum : (0 : ℚ) < num := Nat.cast_pos.2 (Nat.pos_of_ne_zero hn)
  have hden : (0 : ℚ) < den := Nat.cast_pos.2 (Nat.pos_of_ne_zero hd)
  have htwo : (2 : ℚ) ≠ 0 := two_ne_zero
  obtain ⟨hnlow, hnhigh⟩ := log2_bounds hn
  obtain ⟨hdlow, hdhigh⟩ := log2_bounds hd
  constructor
  · rw [← two_zpow_le_iff (div_pos hnum hden), le_div_iff₀ hden]
    calc (2 : ℚ) ^ ((num.log2 : Int) - den.log2 - 1) * den
        ≤ 2 ^ ((num.log2 : Int) - den.log2 - 1) * 2 ^ (den.log2 + 1 : Int) :=
          mul_le_mul_of_nonneg_left hdhigh.le (zpow_pos two_pos _).le
      _ = 2 ^ (num.log2 : Int) := by rw [← zpow_add₀ htwo]; congr 1; ring
      _ ≤ num := hnlow
  · rw [← lt_two_zpow_iff (div_pos hnum hden), div_lt_iff₀ hden]
    calc (num : ℚ) < 2 ^ (num.log2 + 1 : Int) := hnhigh
      _ = 2 ^ ((num.log2 : Int) - den.log2 + 1) * 2 ^ (den.log2 : Int) := by
          rw [← zpow_add₀ htwo]; congr 1; ring
      _ ≤ 2 ^ ((num.log2 : Int) - den.log2 + 1) * den :=
          mul_le_mul_of_nonneg_left hdlow (zpow_pos two_pos _).le

/-- The exponent of the grid depends on the binary logarithm only. -/
theorem gridExponent_eq {num den : Nat} (hn : num ≠ 0) (hd : den ≠ 0) :
    gridExponent num den = max (-1074) (Int.log 2 (num / den : ℚ) - 52) := by
  have hden : 0 < den := Nat.pos_of_ne_zero hd
  have hpos : (0 : ℚ) < num / den :=
    div_pos (Nat.cast_pos.2 (Nat.pos_of_ne_zero hn)) (Nat.cast_pos.2 hden)
  obtain ⟨hlow, hhigh⟩ := log_div_bounds hn hd
  let e : Int := (num.log2 : Int) - den.log2 - 52
  have htest : (scale 2 num den e).1 < (scale 2 num den e).2 <<< 52 ↔
      Int.log 2 (num / den : ℚ) < e + 52 := by
    have hscaled : (0 : ℚ) < (scale 2 num den e).2 :=
      Nat.cast_pos.2 (scale_snd_pos two_pos num hden e)
    have hquotient := scale_div two_pos num den e
    rw [Nat.cast_ofNat] at hquotient
    rw [← lt_two_zpow_iff hpos, zpow_add₀ two_ne_zero, mul_comm, ← div_lt_iff₀ (zpow_pos two_pos e),
      ← hquotient, div_lt_iff₀ hscaled, Nat.shiftLeft_eq, mul_comm]
    exact_mod_cast Iff.rfl
  show max (-1074) (if (scale 2 num den e).1 < (scale 2 num den e).2 <<< 52 then e - 1 else e) = _
  by_cases h : (scale 2 num den e).1 < (scale 2 num den e).2 <<< 52
  · rw [if_pos h]
    have := htest.1 h
    omega
  · rw [if_neg h]
    have := mt htest.2 h
    omega

/-- **The magnitude nearest to a rational number** that is not negative; a tie goes to the even
one. -/
def nearestTo (v : ℚ) : Nat :=
  if v = 0 then 0
  else
    let q := max (-1074) (Int.log 2 v - 52)
    min infinite ((q + 1074).toNat * 2 ^ 52 + nearestNat (v / 2 ^ q))

/-- **The rounding of a fraction** depends on the rational number only. -/
theorem nearest_eq_nearestTo (num : Nat) {den : Nat} (hd : den ≠ 0) :
    nearest num den = nearestTo (num / den) := by
  have hden : (den : ℚ) ≠ 0 := Nat.cast_ne_zero.2 hd
  unfold nearest nearestTo
  by_cases hn : num = 0
  · simp [hn]
  · have hquotient : (num / den : ℚ) ≠ 0 := div_ne_zero (Nat.cast_ne_zero.2 hn) hden
    rw [if_neg hn, if_neg hquotient, ← gridExponent_eq hn hd]
    generalize gridExponent num den = q
    have hround := roundHalfEven_eq (scale 2 num den q).1
      (scale_snd_pos two_pos num (Nat.pos_of_ne_zero hd) q)
    rw [scale_div two_pos, Nat.cast_ofNat] at hround
    show min infinite (((q + 1074).toNat <<< 52) +
      roundHalfEven (scale 2 num den q).1 (scale 2 num den q).2) = _
    rw [hround, Nat.shiftLeft_eq]

/-! ## What a magnitude means -/

/-- The number that a finite magnitude means. -/
def absolute (magnitude : Nat) : ℚ :=
  (grid magnitude).1 * 2 ^ (grid magnitude).2

theorem log_mul_two_zpow {m : Nat} (h : 2 ^ 52 ≤ m) (h' : m < 2 ^ 53) (q : Int) :
    Int.log 2 (m * 2 ^ q : ℚ) = q + 52 := by
  have hpower : (0 : ℚ) < 2 ^ q := zpow_pos two_pos q
  have hm : (0 : ℚ) < m := Nat.cast_pos.2 (by omega)
  have hlow : q + 52 ≤ Int.log 2 (m * 2 ^ q : ℚ) := by
    rw [← two_zpow_le_iff (mul_pos hm hpower), add_comm, zpow_add₀ two_ne_zero]
    exact mul_le_mul_of_nonneg_right (by exact_mod_cast h) hpower.le
  have hhigh : Int.log 2 (m * 2 ^ q : ℚ) < q + 53 := by
    rw [← lt_two_zpow_iff (mul_pos hm hpower), add_comm, zpow_add₀ two_ne_zero]
    exact mul_lt_mul_of_pos_right (by exact_mod_cast h') hpower
  omega

/-- A multiple of a step of its own grid is not changed by rounding. -/
theorem nearestTo_mul_two_zpow {m : Nat} {q : Int} (hm : m ≠ 0)
    (hq : max (-1074) (Int.log 2 (m * 2 ^ q : ℚ) - 52) = q) :
    nearestTo (m * 2 ^ q) = min infinite ((q + 1074).toNat * 2 ^ 52 + m) := by
  have hpower : (2 : ℚ) ^ q ≠ 0 := zpow_ne_zero q two_ne_zero
  have hv : (m * 2 ^ q : ℚ) ≠ 0 := mul_ne_zero (Nat.cast_ne_zero.2 hm) hpower
  unfold nearestTo
  simp only [if_neg hv, hq]
  rw [mul_div_cancel_right₀ _ hpower, nearestNat_natCast]

/-- **A finite magnitude is the one nearest to what it means.** -/
theorem nearestTo_absolute {magnitude : Nat} (h : magnitude < infinite) :
    nearestTo (absolute magnitude) = magnitude := by
  have hsplit : magnitude = magnitude / 2 ^ 52 * 2 ^ 52 + magnitude % 2 ^ 52 :=
    (Nat.div_add_mod' magnitude (2 ^ 52)).symm
  have hfraction : magnitude % 2 ^ 52 < 2 ^ 52 := Nat.mod_lt _ (by decide)
  have hinfinite : infinite = 2047 * 2 ^ 52 := by decide
  unfold absolute grid
  rw [Nat.shiftRight_eq_div_pow, Nat.one_shiftLeft]
  by_cases hbiased : magnitude / 2 ^ 52 = 0
  · simp only [if_pos hbiased]
    have hwhole : magnitude % 2 ^ 52 = magnitude := by omega
    rw [hwhole]
    by_cases hzero : magnitude = 0
    · simp [hzero, nearestTo]
    · have hmagnitude : (0 : ℚ) < magnitude := Nat.cast_pos.2 (Nat.pos_of_ne_zero hzero)
      have hpower : (0 : ℚ) < 2 ^ (-1074 : Int) := zpow_pos two_pos _
      -- a magnitude below the smallest normal one is rounded on the smallest grid
      have hlog : Int.log 2 (magnitude * 2 ^ (-1074 : Int) : ℚ) < 52 + -1074 := by
        rw [← lt_two_zpow_iff (mul_pos hmagnitude hpower), zpow_add₀ two_ne_zero]
        refine mul_lt_mul_of_pos_right ?_ hpower
        exact_mod_cast (by omega : magnitude < 2 ^ 52)
      rw [nearestTo_mul_two_zpow hzero (by omega)]
      show min infinite (0 * 2 ^ 52 + magnitude) = magnitude
      omega
  · simp only [if_neg hbiased]
    have hlog := log_mul_two_zpow (m := 2 ^ 52 + magnitude % 2 ^ 52) (by omega) (by omega)
      ((magnitude / 2 ^ 52 : Nat) - 1075 : Int)
    rw [nearestTo_mul_two_zpow (by omega) (by omega)]
    omega

/-! ## Numbers that are too small or too large -/

theorem nearestTo_eq_zero {v : ℚ} (h0 : 0 ≤ v) (h : v < 2 ^ (-1075 : Int)) : nearestTo v = 0 := by
  unfold nearestTo
  by_cases hv : v = 0
  · rw [if_pos hv]
  · have hpos : 0 < v := lt_of_le_of_ne h0 (Ne.symm hv)
    have hlog : Int.log 2 v < -1075 := (lt_two_zpow_iff hpos).1 h
    have hq : max (-1074) (Int.log 2 v - 52) = -1074 := by omega
    have hhalf : v / 2 ^ (-1074 : Int) < 1 / 2 := by
      rw [div_lt_iff₀ (zpow_pos two_pos _)]
      have hstep : (1 / 2 : ℚ) * 2 ^ (-1074 : Int) = 2 ^ (-1075 : Int) := by
        rw [one_div, ← zpow_neg_one, ← zpow_add₀ two_ne_zero]
        rfl
      rwa [hstep]
    simp only [if_neg hv, hq, nearestNat_eq_zero hhalf]
    rfl

theorem nearestTo_eq_infinite {v : ℚ} (h : 2 ^ (1024 : Int) ≤ v) : nearestTo v = infinite := by
  have hpos : 0 < v := lt_of_lt_of_le (zpow_pos two_pos _) h
  have hlog : 1024 ≤ Int.log 2 v := (two_zpow_le_iff hpos).1 h
  have hq : max (-1074) (Int.log 2 v - 52) = Int.log 2 v - 52 := by omega
  have hround : 2 ^ 52 ≤ nearestNat (v / 2 ^ (Int.log 2 v - 52)) := by
    refine le_nearestNat ?_
    rw [le_div_iff₀ (zpow_pos two_pos _)]
    have hpower : ((2 ^ 52 : Nat) : ℚ) = 2 ^ (52 : Int) := by norm_num
    rw [hpower, ← zpow_add₀ two_ne_zero, add_sub_cancel, two_zpow_le_iff hpos]
  have hinfinite : infinite = 2047 * 2 ^ 52 := by decide
  unfold nearestTo
  simp only [if_neg hpos.ne', hq]
  omega

end Binary64

/-! ## Decimals -/

namespace Decimal

/-- The absolute value of a decimal. -/
def absolute (d : Decimal) : ℚ :=
  d.coefficient * 10 ^ d.exponent

theorem absolute_nonneg (d : Decimal) : 0 ≤ d.absolute :=
  mul_nonneg d.coefficient.cast_nonneg (zpow_pos (by norm_num) _).le

end Decimal

namespace Binary64

theorem eight_zpow_le_ten_zpow {k : Int} (hk : 0 ≤ k) : (2 : ℚ) ^ (3 * k) ≤ 10 ^ k := by
  rw [zpow_mul]
  exact zpow_le_zpow_left₀ hk (by norm_num) (by norm_num)

theorem two_zpow_le_ten_zpow : (2 : ℚ) ^ (1024 : Int) ≤ 10 ^ (400 : Int) :=
  (zpow_le_zpow_right₀ one_le_two (by decide)).trans (eight_zpow_le_ten_zpow (by decide))

theorem ten_zpow_lt_two_zpow : (10 : ℚ) ^ (-400 : Int) < 2 ^ (-1075 : Int) := by
  rw [zpow_neg, zpow_neg]
  refine inv_strictAnti₀ (zpow_pos two_pos _) ?_
  exact (zpow_lt_zpow_right₀ one_lt_two (by decide)).trans_le (eight_zpow_le_ten_zpow (by decide))

@[simp]
theorem negative_ofDecimal (d : Decimal) : (ofDecimal d).negative = d.negative := by
  unfold ofDecimal
  dsimp only
  split
  · rfl
  · split <;> rfl

/-- A large power of ten leaves every number but zero beyond the largest finite magnitude. -/
theorem two_zpow_le_absolute {d : Decimal} (hne : d.coefficient ≠ 0) (h : 400 ≤ d.exponent) :
    2 ^ (1024 : Int) ≤ d.absolute := by
  have hten : (0 : ℚ) ≤ 10 ^ d.exponent := (zpow_pos (by norm_num) _).le
  have hone : (1 : ℚ) ≤ d.coefficient := by exact_mod_cast Nat.pos_of_ne_zero hne
  calc (2 : ℚ) ^ (1024 : Int) ≤ 10 ^ (400 : Int) := two_zpow_le_ten_zpow
    _ ≤ 10 ^ d.exponent := zpow_le_zpow_right₀ (by norm_num) h
    _ ≤ d.absolute := le_mul_of_one_le_left hten hone

/-- A power of ten that is smaller than the digits by far leaves a number below the smallest
magnitude. -/
theorem absolute_lt_two_zpow {d : Decimal} {digits : Nat} (hdigits : d.coefficient < 10 ^ digits)
    (h : digits + d.exponent ≤ -400) : d.absolute < 2 ^ (-1075 : Int) := by
  have hten : (0 : ℚ) < 10 ^ d.exponent := zpow_pos (by norm_num) _
  have hcoefficient : (d.coefficient : ℚ) < 10 ^ (digits : Int) := by
    rw [zpow_natCast]
    exact_mod_cast hdigits
  calc d.absolute < 10 ^ (digits : Int) * 10 ^ d.exponent :=
        mul_lt_mul_of_pos_right hcoefficient hten
    _ = 10 ^ ((digits : Int) + d.exponent) := (zpow_add₀ (by norm_num) _ _).symm
    _ ≤ 10 ^ (-400 : Int) := zpow_le_zpow_right₀ (by norm_num) h
    _ < 2 ^ (-1075 : Int) := ten_zpow_lt_two_zpow

/-- **A decimal is read as the magnitude nearest to it.** The powers of ten that are not computed
are those of which the outcome is known. -/
theorem magnitude_ofDecimal (d : Decimal) :
    (ofDecimal d).magnitude = nearestTo d.absolute := by
  unfold ofDecimal
  dsimp only
  split
  · next hsmall =>
    refine (nearestTo_eq_zero d.absolute_nonneg ?_).symm
    by_cases hzero : d.coefficient = 0
    · rw [Decimal.absolute, hzero, Nat.cast_zero, zero_mul]
      exact zpow_pos two_pos _
    · have htop : (d.coefficient.log2 : Int) + 1 + d.exponent < -400 := hsmall.resolve_left hzero
      refine absolute_lt_two_zpow ?_ htop.le
      exact Nat.lt_log2_self.trans_le (Nat.pow_le_pow_left (by decide) _)
  · next hsome =>
    obtain ⟨hne, -⟩ := not_or.1 hsome
    split
    · next hlarge => exact (nearestTo_eq_infinite (two_zpow_le_absolute hne hlarge.le)).symm
    · have hscale := scale_div (by decide : 0 < 10) d.coefficient 1 (-d.exponent)
      have hden := scale_snd_pos (by decide : 0 < 10) d.coefficient one_pos (-d.exponent)
      rw [Nat.cast_one, div_one, Nat.cast_ofNat, zpow_neg, div_inv_eq_mul] at hscale
      rw [Decimal.absolute, ← hscale]
      exact nearest_eq_nearestTo _ hden.ne'

theorem eq_of_parts {x y : Binary64} (hnegative : x.negative = y.negative)
    (hmagnitude : x.magnitude = y.magnitude) : x = y := by
  cases x
  cases y
  cases hnegative
  cases hmagnitude
  rfl

/-- Decimals of one sign and one absolute value are read as one number. -/
theorem ofDecimal_congr {d d' : Decimal} (hnegative : d.negative = d'.negative)
    (habsolute : d.absolute = d'.absolute) : ofDecimal d = ofDecimal d' :=
  eq_of_parts (by rw [negative_ofDecimal, negative_ofDecimal, hnegative])
    (by rw [magnitude_ofDecimal, magnitude_ofDecimal, habsolute])

end Binary64

end QueryFilter
