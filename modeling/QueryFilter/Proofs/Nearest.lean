import QueryFilter.Proofs.Rounding

/-!
# The nearest number

Rounding finds the magnitude that is nearest to a number, and there is only one. The infinity counts
as `2 ^ 1024`, the power of two that follows the largest finite magnitude.

* `Binary64.absolute_strictMono`: magnitudes mean numbers in their order;
* **`Binary64.Nearest`**: the magnitude nearest to a number, apart from how it is found;
  `Binary64.Nearest.unique`;
* **`Binary64.nearest_iff`**: it is the one that rounding gives;
* `Binary64.IsNearest`, **`Binary64.isNearest_iff`**: the number nearest to a decimal is the one
  that it is read as.
-/

namespace QueryFilter.Binary64

/-! ## The order of magnitudes -/

theorem absolute_of_lt {n : Nat} (h : n < 2 ^ 52) : absolute n = n * 2 ^ (-1074 : Int) := by
  have hbiased : n >>> 52 = 0 := by rw [Nat.shiftRight_eq_div_pow]; omega
  have hfraction : n % (1 <<< 52) = n := Nat.mod_eq_of_lt h
  rw [absolute, grid, hbiased, hfraction, if_pos rfl]

theorem absolute_of_biased {b f : Nat} (hb : b ≠ 0) (hf : f < 2 ^ 52) :
    absolute (b * 2 ^ 52 + f) = (2 ^ 52 + f : Nat) * 2 ^ ((b : Int) - 1075) := by
  have hbiased : (b * 2 ^ 52 + f) >>> 52 = b := by rw [Nat.shiftRight_eq_div_pow]; omega
  have hfraction : (b * 2 ^ 52 + f) % (1 <<< 52) = f := by rw [Nat.one_shiftLeft]; omega
  rw [absolute, grid, hbiased, hfraction, if_neg hb, Nat.one_shiftLeft]

/-- Every magnitude is a multiple of a step of its grid; the end of a grid is the first magnitude of
the next one. -/
theorem absolute_mul_add {k n : Nat} (hk : k = 0 ∨ 2 ^ 52 ≤ n) (hn : n ≤ 2 ^ 53) :
    absolute (k * 2 ^ 52 + n) = n * 2 ^ ((k : Int) - 1074) := by
  by_cases hsmall : n < 2 ^ 52
  · obtain rfl : k = 0 := hk.resolve_right (Nat.not_le.2 hsmall)
    rw [Nat.zero_mul, Nat.zero_add, absolute_of_lt hsmall, Nat.cast_zero, zero_sub]
  · by_cases hlast : n = 2 ^ 53
    · have hplace : k * 2 ^ 52 + n = (k + 2) * 2 ^ 52 + 0 := by omega
      have hexponent : ((k + 2 : Nat) : Int) - 1075 = 1 + ((k : Int) - 1074) := by omega
      rw [hplace, absolute_of_biased (Nat.succ_ne_zero _) (by decide), hexponent,
        zpow_add₀ two_ne_zero, ← mul_assoc, hlast]
      norm_num
    · obtain ⟨f, rfl⟩ := Nat.exists_eq_add_of_le (Nat.le_of_not_lt hsmall)
      have hplace : k * 2 ^ 52 + (2 ^ 52 + f) = (k + 1) * 2 ^ 52 + f := by omega
      have hexponent : ((k + 1 : Nat) : Int) - 1075 = (k : Int) - 1074 := by omega
      rw [hplace, absolute_of_biased (Nat.succ_ne_zero _) (by omega), hexponent]

theorem absolute_lt_succ (m : Nat) : absolute m < absolute (m + 1) := by
  obtain ⟨k, n, rfl, hk, hn⟩ : ∃ k n, m = k * 2 ^ 52 + n ∧ (k = 0 ∨ 2 ^ 52 ≤ n) ∧ n < 2 ^ 53 :=
    ⟨m / 2 ^ 52 - 1, m - (m / 2 ^ 52 - 1) * 2 ^ 52, by omega, by omega, by omega⟩
  rw [Nat.add_assoc, absolute_mul_add hk hn.le, absolute_mul_add (by omega) hn]
  refine mul_lt_mul_of_pos_right ?_ (zpow_pos two_pos _)
  exact_mod_cast Nat.lt_succ_self n

/-- **Magnitudes mean numbers in their order.** -/
theorem absolute_strictMono : StrictMono absolute :=
  strictMono_nat_of_lt_succ absolute_lt_succ

/-! ## The nearest magnitude -/

/-- **The magnitude nearest to a number**: no other is nearer, and if one is equally near, this is
the even one of the two. -/
structure Nearest (v : ℚ) (magnitude : Nat) : Prop where
  le_infinite : magnitude ≤ infinite
  least : ∀ m ≤ infinite, |absolute magnitude - v| ≤ |absolute m - v|
  even : ∀ m ≤ infinite, m ≠ magnitude → |absolute m - v| = |absolute magnitude - v| →
    magnitude % 2 = 0

variable {v : ℚ} {m m' : Nat}

/-- There is at most one nearest magnitude: between two even ones there is a nearer one. -/
theorem Nearest.not_lt (h : Nearest v m) (h' : Nearest v m') : ¬ m < m' := by
  intro hlt
  have hdistance : |absolute m - v| = |absolute m' - v| :=
    le_antisymm (h.least m' h'.le_infinite) (h'.least m h.le_infinite)
  have heven : m % 2 = 0 := h.even m' h'.le_infinite hlt.ne' hdistance.symm
  have heven' : m' % 2 = 0 := h'.even m h.le_infinite hlt.ne hdistance
  have hbetween : m + 1 < m' := by omega
  have hlow : absolute m < absolute (m + 1) := absolute_lt_succ m
  have hhigh : absolute (m + 1) < absolute m' := absolute_strictMono hbetween
  have hmiddle : v - absolute m = absolute m' - v := by
    rcases abs_eq_abs.1 hdistance with heq | heq <;> linarith
  have hnearer : |absolute (m + 1) - v| < |absolute m - v| := by
    rw [abs_of_nonpos (by linarith : absolute m - v ≤ 0), abs_lt]
    constructor <;> linarith
  exact absurd (h.least (m + 1) (by have := h'.le_infinite; omega)) (not_le.2 hnearer)

theorem Nearest.unique (h : Nearest v m) (h' : Nearest v m') : m = m' :=
  Nat.le_antisymm (Nat.le_of_not_lt (h'.not_lt h)) (Nat.le_of_not_lt (h.not_lt h'))

/-- The neighbour of a number that is no farther from it than the other one is nearest to it. -/
theorem nearest_of_between {a : Nat} (hlow : absolute a ≤ v) (hhigh : v < absolute (a + 1))
    (ha : a < infinite) (hm : m = a ∨ m = a + 1) (hbelow : |absolute m - v| ≤ v - absolute a)
    (habove : |absolute m - v| ≤ absolute (a + 1) - v)
    (heven : v - absolute a = absolute (a + 1) - v → m % 2 = 0) : Nearest v m := by
  have hdistance : |absolute a - v| = v - absolute a := by
    rw [abs_of_nonpos (sub_nonpos.2 hlow), neg_sub]
  have hdistance' : |absolute (a + 1) - v| = absolute (a + 1) - v := abs_of_pos (sub_pos.2 hhigh)
  have hfarther (m' : Nat) : m' = a ∨ m' = a + 1 ∨
      v - absolute a < |absolute m' - v| ∨ absolute (a + 1) - v < |absolute m' - v| := by
    rcases lt_trichotomy m' a with hlt | rfl | hgt
    · have hbefore := absolute_strictMono hlt
      refine .inr (.inr (.inl ?_))
      rw [abs_of_neg (by linarith)]
      linarith
    · exact .inl rfl
    · rcases Nat.eq_or_lt_of_le (Nat.succ_le_of_lt hgt) with rfl | hlt
      · exact .inr (.inl rfl)
      · have hbehind := absolute_strictMono hlt
        refine .inr (.inr (.inr ?_))
        rw [abs_of_pos (by linarith)]
        linarith
  refine ⟨by omega, fun m' _ => ?_, fun m' _ hne heq => heven ?_⟩
  · rcases hfarther m' with rfl | rfl | hfar | hfar
    · rwa [hdistance]
    · rwa [hdistance']
    · exact hbelow.trans hfar.le
    · exact habove.trans hfar.le
  · rcases hfarther m' with rfl | rfl | hfar | hfar
    · obtain rfl : m = m' + 1 := hm.resolve_left hne.symm
      rw [← hdistance, ← hdistance', heq]
    · obtain rfl : m = a := hm.resolve_right hne.symm
      rw [← hdistance, ← hdistance', heq]
    · exact absurd (heq.trans_le hbelow) (not_le.2 hfar)
    · exact absurd (heq.trans_le habove) (not_le.2 hfar)

/-- No magnitude is nearer than the infinity to a number beyond it. -/
theorem nearest_infinite (h : absolute infinite ≤ v) : Nearest v infinite := by
  have hdistance : |absolute infinite - v| = v - absolute infinite := by
    rw [abs_of_nonpos (sub_nonpos.2 h), neg_sub]
  have hbelow {m' : Nat} (hle : m' ≤ infinite) : |absolute m' - v| = v - absolute m' := by
    rw [abs_of_nonpos (sub_nonpos.2 ((absolute_strictMono.monotone hle).trans h)), neg_sub]
  refine ⟨le_rfl, fun m' hle => ?_, fun _ _ _ _ => by decide⟩
  rw [hdistance, hbelow hle]
  exact sub_le_sub_left (absolute_strictMono.monotone hle) v

/-! ## Rounding finds it -/

/-- Rounding to a natural number takes the neighbour that is no farther than the other one. -/
theorem nearestNat_spec {t : ℚ} (ht : 0 ≤ t) :
    (nearestNat t = ⌊t⌋₊ ∨ nearestNat t = ⌊t⌋₊ + 1) ∧ |nearestNat t - t| ≤ t - ⌊t⌋₊ ∧
      |nearestNat t - t| ≤ ⌊t⌋₊ + 1 - t ∧
      (t - ⌊t⌋₊ = ⌊t⌋₊ + 1 - t → nearestNat t % 2 = 0) := by
  have hlow : (⌊t⌋₊ : ℚ) ≤ t := Nat.floor_le ht
  have hhigh : t < ⌊t⌋₊ + 1 := Nat.lt_floor_add_one t
  have hdown : |(⌊t⌋₊ : ℚ) - t| = t - ⌊t⌋₊ := by
    rw [abs_of_nonpos (sub_nonpos.2 hlow), neg_sub]
  have hup : |((⌊t⌋₊ + 1 : Nat) : ℚ) - t| = ⌊t⌋₊ + 1 - t := by
    rw [Nat.cast_add_one, abs_of_pos (sub_pos.2 hhigh)]
  unfold nearestNat
  split
  · next hlt =>
    rw [hdown]
    exact ⟨.inl rfl, le_rfl, by linarith, fun htie => by linarith⟩
  · split
    · next hgt =>
      rw [hup]
      exact ⟨.inr rfl, by linarith, le_rfl, fun htie => by linarith⟩
    · have htie : t - ⌊t⌋₊ = 1 / 2 := by linarith
      rcases Nat.mod_two_eq_zero_or_one ⌊t⌋₊ with heven | hodd
      · rw [heven, Nat.add_zero, hdown]
        exact ⟨.inl rfl, le_rfl, by linarith, fun _ => heven⟩
      · rw [hodd, hup]
        exact ⟨.inr rfl, by linarith, le_rfl, fun _ => by omega⟩

/-- Rounding on the grid of a number gives the nearest magnitude. -/
theorem nearest_on_grid {t : ℚ} {k : Nat} (ht : 0 ≤ t) (hk : k = 0 ∨ 2 ^ 52 ≤ ⌊t⌋₊)
    (hlt : ⌊t⌋₊ < 2 ^ 53) :
    Nearest (t * 2 ^ ((k : Int) - 1074)) (min infinite (k * 2 ^ 52 + nearestNat t)) := by
  have hstep : (0 : ℚ) < 2 ^ ((k : Int) - 1074) := zpow_pos two_pos _
  have hbelow : absolute (k * 2 ^ 52 + ⌊t⌋₊) = ⌊t⌋₊ * 2 ^ ((k : Int) - 1074) :=
    absolute_mul_add hk hlt.le
  have habove : absolute (k * 2 ^ 52 + ⌊t⌋₊ + 1) = (⌊t⌋₊ + 1) * 2 ^ ((k : Int) - 1074) := by
    rw [Nat.add_assoc, absolute_mul_add (by omega) hlt, Nat.cast_add_one]
  have hlow : absolute (k * 2 ^ 52 + ⌊t⌋₊) ≤ t * 2 ^ ((k : Int) - 1074) := by
    rw [hbelow]
    exact mul_le_mul_of_nonneg_right (Nat.floor_le ht) hstep.le
  obtain ⟨hchosen, hdown, hup, heven⟩ := nearestNat_spec ht
  rcases Nat.lt_or_ge (k * 2 ^ 52 + ⌊t⌋₊) infinite with hfinite | hoverflow
  · have hdistance : |absolute (k * 2 ^ 52 + nearestNat t) - t * 2 ^ ((k : Int) - 1074)| =
        |nearestNat t - t| * 2 ^ ((k : Int) - 1074) := by
      rw [absolute_mul_add (by omega) (by omega), ← sub_mul, abs_mul, abs_of_pos hstep]
    rw [Nat.min_eq_right (by omega)]
    refine nearest_of_between hlow ?_ hfinite (by omega) ?_ ?_ fun htie => ?_
    · rw [habove]
      exact mul_lt_mul_of_pos_right (Nat.lt_floor_add_one t) hstep
    · rw [hdistance, hbelow, ← sub_mul]
      exact mul_le_mul_of_nonneg_right hdown hstep.le
    · rw [hdistance, habove, ← sub_mul]
      exact mul_le_mul_of_nonneg_right hup hstep.le
    · rw [hbelow, habove, ← sub_mul, ← sub_mul] at htie
      have := heven (mul_right_cancel₀ hstep.ne' htie)
      omega
  · rw [Nat.min_eq_left (by omega)]
    exact nearest_infinite ((absolute_strictMono.monotone hoverflow).trans hlow)

/-- The quotient by a step of the grid has 53 bits, or fewer on the smallest grid. -/
theorem floor_div_bounds (hv : 0 < v) {q : Int} (hq : q = max (-1074) (Int.log 2 v - 52)) :
    (q = -1074 ∨ 2 ^ 52 ≤ ⌊v / 2 ^ q⌋₊) ∧ ⌊v / 2 ^ q⌋₊ < 2 ^ 53 := by
  have hstep : (0 : ℚ) < 2 ^ q := zpow_pos two_pos q
  constructor
  · by_cases hsmall : q = -1074
    · exact .inl hsmall
    · refine .inr (Nat.le_floor ?_)
      rw [le_div_iff₀ hstep, Nat.cast_pow, Nat.cast_ofNat, ← zpow_natCast, ← zpow_add₀ two_ne_zero,
        two_zpow_le_iff hv]
      omega
  · rw [Nat.floor_lt (div_pos hv hstep).le, div_lt_iff₀ hstep, Nat.cast_pow, Nat.cast_ofNat,
      ← zpow_natCast, ← zpow_add₀ two_ne_zero, lt_two_zpow_iff hv]
    omega

/-- **Rounding gives the nearest magnitude.** -/
theorem nearest_nearestTo (hv : 0 ≤ v) : Nearest v (nearestTo v) := by
  rcases hv.eq_or_lt with rfl | hpos
  · have hfloor : ⌊(0 : ℚ)⌋₊ = 0 := Nat.floor_zero
    have hzero := nearest_on_grid (k := 0) le_rfl (.inl rfl) (hfloor ▸ by decide)
    rw [zero_mul, nearestNat_eq_zero (by norm_num)] at hzero
    rwa [nearestTo, if_pos rfl]
  · obtain ⟨q, hq⟩ : ∃ q, q = max (-1074) (Int.log 2 v - 52) := ⟨_, rfl⟩
    obtain ⟨hlow, hhigh⟩ := floor_div_bounds hpos hq
    have hstep : (0 : ℚ) < 2 ^ q := zpow_pos two_pos q
    have hexponent : ((q + 1074).toNat : Int) - 1074 = q := by omega
    have hgrid := nearest_on_grid (k := (q + 1074).toNat) (div_pos hpos hstep).le (by omega) hhigh
    rw [hexponent, div_mul_cancel₀ v hstep.ne'] at hgrid
    rw [nearestTo, if_neg hpos.ne']
    dsimp only
    rwa [← hq]

theorem nearest_iff (hv : 0 ≤ v) : Nearest v m ↔ m = nearestTo v :=
  ⟨fun h => h.unique (nearest_nearestTo hv), fun h => h ▸ nearest_nearestTo hv⟩

/-! ## Decimals -/

/-- **The number nearest to a decimal**, with its sign. -/
def IsNearest (x : Binary64) (d : Decimal) : Prop :=
  x.negative = d.negative ∧ Nearest d.absolute x.magnitude

/-- **A decimal is read as the number nearest to it.** -/
theorem isNearest_iff {x : Binary64} {d : Decimal} : x.IsNearest d ↔ x = ofDecimal d := by
  rw [IsNearest, nearest_iff d.absolute_nonneg, ← magnitude_ofDecimal, ← negative_ofDecimal]
  exact ⟨fun ⟨hnegative, hmagnitude⟩ => eq_of_parts hnegative hmagnitude, fun h => h ▸ ⟨rfl, rfl⟩⟩

end QueryFilter.Binary64
