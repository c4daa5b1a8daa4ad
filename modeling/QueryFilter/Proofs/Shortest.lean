import QueryFilter.Binary64.Shortest
import QueryFilter.Proofs.Rounding

/-!
# The shortest decimal reads back

* `Decimal.absolute_trim`: trailing zeros do not change a decimal;
* `Binary64.absolute_exact`: all digits of a number mean it;
* **`Binary64.ofDecimal_shortest`**: the shortest decimal of a finite number is read as it.
-/

namespace QueryFilter

theorem Decimal.absolute_trim (coefficient : Nat) (exponent : Int) :
    ((trim coefficient exponent).1 * 10 ^ (trim coefficient exponent).2 : ℚ) =
      coefficient * 10 ^ exponent := by
  fun_induction trim coefficient exponent with
  | case1 coefficient exponent h ih =>
    have hcoefficient : (coefficient : ℚ) = (coefficient / 10 : Nat) * 10 := by
      exact_mod_cast (Nat.div_mul_cancel (Nat.dvd_of_mod_eq_zero h.2)).symm
    rw [ih, zpow_add_one₀ (by norm_num), hcoefficient]
    ring
  | case2 => rfl

namespace Binary64

variable {x : Binary64}

theorem absolute_candidate (x : Binary64) (coefficient : Nat) (exponent : Int) :
    (candidate x coefficient exponent).absolute = coefficient * 10 ^ exponent :=
  Decimal.absolute_trim coefficient exponent

theorem absolute_exact (x : Binary64) : (exact x).absolute = absolute x.magnitude := by
  unfold exact absolute
  rw [absolute_candidate]
  generalize grid x.magnitude = g
  obtain ⟨m, q⟩ := g
  dsimp only
  obtain ⟨k, rfl | rfl⟩ := q.eq_nat_or_neg
  · simp [Nat.shiftLeft_eq]
  · have hten : (10 : ℚ) ^ k = 5 ^ k * 2 ^ k := by
      rw [← mul_pow]
      norm_num
    have hpowers : (m * 5 ^ k * (5 ^ k * 2 ^ k)⁻¹ : ℚ) = m * (2 ^ k)⁻¹ := by field_simp
    simpa [hten] using hpowers

/-- All digits of a finite number read back. -/
theorem ofDecimal_exact (h : x.isFinite = true) : ofDecimal (exact x) = x := by
  refine eq_of_parts (negative_ofDecimal _) ?_
  rw [magnitude_ofDecimal, absolute_exact]
  exact nearestTo_absolute (of_decide_eq_true h)

theorem ofDecimal_of_shortestOn? {tie : Tie} {num den n : Nat} {power : Int} {d : Decimal}
    (h : shortestOn? tie x num den power n = some d) : ofDecimal d = x := by
  -- whichever of the two candidates is tried first
  have checked (first second : Decimal) (h : (if ofDecimal first = x then some first
      else if ofDecimal second = x then some second else none) = some d) : ofDecimal d = x := by
    split at h
    · next hfirst =>
      cases h
      exact hfirst
    · obtain ⟨hsecond, heq⟩ := Option.ite_none_right_eq_some.1 h
      cases heq
      exact hsecond
  exact checked _ _ h

/-- **The shortest decimal of a finite number reads back.** -/
theorem ofDecimal_shortest (tie : Tie) (h : x.isFinite = true) :
    ofDecimal (shortest tie x) = x := by
  unfold shortest
  split
  · next hzero =>
    refine eq_of_parts (negative_ofDecimal _) ?_
    rw [magnitude_ofDecimal, hzero, Decimal.absolute, Nat.cast_zero, zero_mul]
    exact if_pos rfl
  · dsimp only
    cases hfound : (List.range 17).findSome? fun n => shortestOn? tie x (fraction x.magnitude).1
        (fraction x.magnitude).2
        (leadingPower (fraction x.magnitude).1 (fraction x.magnitude).2) (n + 1) with
    | none => exact ofDecimal_exact h
    | some d =>
      obtain ⟨n, -, hd⟩ := List.exists_of_findSome?_eq_some hfound
      exact ofDecimal_of_shortestOn? hd

end Binary64

end QueryFilter
