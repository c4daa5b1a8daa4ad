import QueryFilter.Binary64.Text
import QueryFilter.Proofs.Grammar
import QueryFilter.Proofs.Shortest

/-!
# Number tokens read back

The token of a floating-point number is made of digits, a point and a power of ten, and it is read
as the number again. It shows a point or a power of ten, so it is never the numeral of an integer.

* `Decimal.Parts`: the parts of a written number; **`Decimal.Parts.parse?_text`**: what they are
  read as;
* `Decimal.positionalParts`, `Decimal.scientificParts`: the parts of the written forms of a decimal;
* `Binary64.natAbs_power_lt`: the power of ten of a finite number is small;
* **`Binary64.parse?_literal`**: the token of a finite number is read as the number;
* `Binary64.mem_literal`, `Binary64.exists_mark_literal`: the characters of a token, one of which is
  a point or an `e`.
-/

namespace QueryFilter

namespace Decimal

open Numeral

/-! ## Written numbers -/

/-- The parts of a written number: its sign, the digits before and behind the point, and the power
of ten if it is written. -/
structure Parts where
  negative : Bool
  whole : List Char
  fraction : List Char
  power : Option Int

namespace Parts

/-- The digits behind the point, with the point if there are any. -/
def fractionText : List Char → List Char
  | [] => []
  | tail => '.' :: tail

/-- The power of ten, if it is written. -/
def powerText : Option Int → List Char
  | none => []
  | some power => 'e' :: (if power < 0 then '-' else '+') :: Nat.toDigits 10 power.natAbs

/-- The text of the parts. -/
def text (p : Parts) : List Char :=
  (if p.negative then ['-'] else []) ++ (p.whole ++ (fractionText p.fraction ++ powerText p.power))

/-- The decimal that the parts mean. -/
def decimal (p : Parts) : Decimal :=
  ⟨p.negative, ofDigits 10 (p.whole ++ p.fraction), p.power.getD 0 - p.fraction.length⟩

/-- Parts that are digits, of which there is one before the point, and a power of ten that is read
in full. -/
structure WellFormed (p : Parts) : Prop where
  whole_ne_nil : p.whole ≠ []
  whole : ∀ c ∈ p.whole, c.isDigit = true
  fraction : ∀ c ∈ p.fraction, c.isDigit = true
  power_lt : ∀ power, p.power = some power → power.natAbs < 1 <<< 16

end Parts

/-! ### Reading -/

open Literal

theorem spellsFraction_fractionText (fraction : List Char) :
    SpellsFraction fraction (Parts.fractionText fraction) := by
  cases fraction with
  | nil => exact .absent
  | cons c cs => exact .point _

/-- The sign of a power of ten and its digits. -/
def Parts.powerDigits (p : Parts) : Option (Bool × List Char) :=
  p.power.map fun power => (decide (power < 0), Nat.toDigits 10 power.natAbs)

theorem spellsPower_powerText (p : Parts) :
    SpellsPower p.powerDigits (Parts.powerText p.power) := by
  unfold Parts.powerDigits
  cases p.power with
  | none => exact .absent
  | some power =>
    show SpellsPower (some (decide (power < 0), Nat.toDigits 10 power.natAbs))
      ('e' :: ([if power < 0 then '-' else '+'] ++ Nat.toDigits 10 power.natAbs))
    by_cases hneg : power < 0
    · rw [if_pos hneg, decide_eq_true hneg]
      exact .marked (.inl rfl) .minus
    · rw [if_neg hneg, decide_eq_false hneg]
      exact .marked (.inl rfl) .plus

/-- A power of ten that is written with its sign and its digits is read as it. -/
theorem Parts.elim_powerDigits {p : Parts} (h : p.WellFormed) :
    (p.powerDigits.elim 0 fun e => signed e.1 (cappedExponent e.2)) = p.power.getD 0 := by
  unfold Parts.powerDigits
  cases hpower : p.power with
  | none => rfl
  | some power =>
    have hvalue := Nat.ofDigitChars_ten_toDigits (n := power.natAbs)
    have hsmall : Nat.ofDigitChars 10 (Nat.toDigits 10 power.natAbs) 0 < 1 <<< 16 :=
      hvalue.trans_lt (h.power_lt _ hpower)
    have hcapped : cappedExponent (Nat.toDigits 10 power.natAbs) = power.natAbs :=
      (cappedExponent_eq (fun _ => isDigit_of_mem_toDigits) hsmall).trans hvalue
    show signed (decide (power < 0)) (cappedExponent (Nat.toDigits 10 power.natAbs)) = power
    rw [hcapped, signed]
    split
    · next hneg =>
      have := of_decide_eq_true hneg
      omega
    · next hneg =>
      have : ¬ power < 0 := fun hlt => hneg (decide_eq_true hlt)
      omega

/-- The decimal that the parts write. -/
def Parts.literal {p : Parts} (h : p.WellFormed) : Literal where
  negative := p.negative
  whole := p.whole
  fraction := p.fraction
  power := p.powerDigits
  ne_nil := List.append_ne_nil_of_left_ne_nil h.whole_ne_nil _
  digits := List.forall_mem_append.2 ⟨h.whole, h.fraction⟩
  power_digits e he := by
    obtain ⟨power, -, rfl⟩ := Option.map_eq_some_iff.1 he
    exact ⟨Nat.toDigits_ne_nil, fun _ => isDigit_of_mem_toDigits⟩

theorem Parts.spells_text {p : Parts} (h : p.WellFormed) : (literal h).Spells p.text := by
  refine ⟨_, _, _, rfl, ?_, spellsFraction_fractionText p.fraction, spellsPower_powerText p⟩
  show SpellsSign p.negative _
  cases p.negative with
  | true => exact .minus
  | false => exact .absent

/-- **What a written number is read as.** -/
theorem Parts.parse?_text {p : Parts} (h : p.WellFormed) : parse? p.text = some p.decimal := by
  have hread : (literal h).read = p.decimal := by
    have hcoefficient := ofDigits_ten (List.forall_mem_append.2 ⟨h.whole, h.fraction⟩)
    rw [decimal, hcoefficient, ← elim_powerDigits h]
    rfl
  rw [parse?_of_spells (spells_text h), hread]

/-! ### Characters -/

/-- The characters of a written number. -/
theorem Parts.mem_text {p : Parts} (h : p.WellFormed) {c : Char} (hc : c ∈ p.text) :
    c.isDigit = true ∨ c ∈ ['-', '+', '.', 'e'] := by
  unfold text at hc
  rw [List.mem_append, List.mem_append, List.mem_append] at hc
  rcases hc with hsign | hwhole | hfraction | hpower
  · split at hsign
    · refine .inr ?_
      rw [List.mem_singleton.1 hsign]
      decide
    · cases hsign
  · exact .inl (h.whole c hwhole)
  · cases heq : p.fraction with
    | nil =>
      rw [heq] at hfraction
      cases hfraction
    | cons a as =>
      rw [heq] at hfraction
      rcases List.mem_cons.1 hfraction with rfl | hmem
      · exact .inr (by decide)
      · exact .inl (h.fraction c (heq ▸ hmem))
  · cases heq : p.power with
    | none =>
      rw [heq] at hpower
      cases hpower
    | some power =>
      rw [heq] at hpower
      rcases List.mem_cons.1 hpower with rfl | hpower
      · exact .inr (by decide)
      · rcases List.mem_cons.1 hpower with rfl | hmem
        · split <;> exact .inr (by decide)
        · exact .inl (isDigit_of_mem_toDigits hmem)

/-- Digits behind the point, or a power of ten, can be seen. -/
theorem Parts.exists_mark {p : Parts} (h : p.fraction ≠ [] ∨ p.power ≠ none) :
    '.' ∈ p.text ∨ 'e' ∈ p.text := by
  unfold text
  rcases h with hfraction | hpower
  · obtain ⟨a, as, heq⟩ := List.exists_cons_of_ne_nil hfraction
    rw [heq]
    exact .inl (by simp [fractionText])
  · obtain ⟨power, heq⟩ := Option.ne_none_iff_exists'.1 hpower
    rw [heq]
    exact .inr (by simp [powerText])

/-! ## The written forms of a decimal -/

/-- The parts of the positional form, with a zero behind the point if there is no fraction. -/
def positionalParts (d : Decimal) : Parts :=
  if 0 ≤ d.exponent then
    ⟨d.negative, d.digits ++ List.replicate d.exponent.toNat '0', ['0'], none⟩
  else if 0 < d.point then
    ⟨d.negative, d.digits.take d.point.toNat, d.digits.drop d.point.toNat, none⟩
  else ⟨d.negative, ['0'], List.replicate (-d.point).toNat '0' ++ d.digits, none⟩

/-- The parts of the scientific form. -/
def scientificParts (d : Decimal) : Parts :=
  ⟨d.negative, d.digits.take 1, d.digits.drop 1, some (d.point - 1)⟩

variable (d : Decimal)

theorem isDigit_of_mem_digits {c : Char} (h : c ∈ d.digits) : c.isDigit = true :=
  isDigit_of_mem_toDigits h

theorem digits_ne_nil : d.digits ≠ [] :=
  Nat.toDigits_ne_nil

theorem length_digits_pos : 0 < d.digits.length :=
  List.length_pos_iff.2 d.digits_ne_nil

theorem drop_point_ne_nil (h : d.exponent < 0) : d.digits.drop d.point.toNat ≠ [] := by
  have hpos := d.length_digits_pos
  intro hnil
  have hlength := List.drop_eq_nil_iff.1 hnil
  unfold point at hlength
  omega

theorem text_positionalParts :
    d.positionalParts.text = d.positional ++ if 0 ≤ d.exponent then ['.', '0'] else [] := by
  unfold positionalParts positional Parts.text sign
  by_cases hexponent : 0 ≤ d.exponent
  · simp [if_pos hexponent, Parts.fractionText, Parts.powerText]
  · obtain ⟨c, cs, hdrop⟩ := List.exists_cons_of_ne_nil (d.drop_point_ne_nil (by omega))
    by_cases hpoint : 0 < d.point
    · simp [hexponent, hpoint, hdrop, Parts.fractionText, Parts.powerText]
    · obtain ⟨a, as, htail⟩ := List.exists_cons_of_ne_nil
        (List.append_ne_nil_of_right_ne_nil (List.replicate (-d.point).toNat '0') d.digits_ne_nil)
      simp [hexponent, hpoint, htail, Parts.fractionText, Parts.powerText]

theorem text_scientificParts : d.scientificParts.text = d.scientific := by
  have hassoc (a b c e : List Char) : a ++ (b ++ (c ++ e)) = a ++ b ++ c ++ e := by
    rw [List.append_assoc, List.append_assoc]
  exact hassoc _ _ _ _

theorem wellFormed_positionalParts : d.positionalParts.WellFormed := by
  have hdigits : ∀ c ∈ d.digits, c.isDigit = true := fun _ => d.isDigit_of_mem_digits
  have hzeros (n : Nat) : ∀ c ∈ List.replicate n '0', c.isDigit = true := fun c hc => by
    rw [List.eq_of_mem_replicate hc]
    rfl
  unfold positionalParts
  by_cases hexponent : 0 ≤ d.exponent
  · rw [if_pos hexponent]
    exact {
      whole_ne_nil := List.append_ne_nil_of_left_ne_nil d.digits_ne_nil _
      whole := List.forall_mem_append.2 ⟨hdigits, hzeros _⟩
      fraction := hzeros 1
      power_lt := nofun }
  · rw [if_neg hexponent]
    by_cases hpoint : 0 < d.point
    · have hpos := d.length_digits_pos
      rw [if_pos hpoint]
      exact {
        whole_ne_nil := fun hnil => by
          rcases List.take_eq_nil_iff.1 hnil with hzero | hnil
          · omega
          · exact d.digits_ne_nil hnil
        whole := fun c hc => hdigits c (List.mem_of_mem_take hc)
        fraction := fun c hc => hdigits c (List.mem_of_mem_drop hc)
        power_lt := nofun }
    · rw [if_neg hpoint]
      exact {
        whole_ne_nil := nofun
        whole := hzeros 1
        fraction := List.forall_mem_append.2 ⟨hzeros _, hdigits⟩
        power_lt := nofun }

theorem fraction_positionalParts_ne_nil : d.positionalParts.fraction ≠ [] := by
  unfold positionalParts
  by_cases hexponent : 0 ≤ d.exponent
  · rw [if_pos hexponent]
    exact List.cons_ne_nil _ _
  · rw [if_neg hexponent]
    split
    · exact d.drop_point_ne_nil (by omega)
    · exact List.append_ne_nil_of_right_ne_nil _ d.digits_ne_nil

theorem wellFormed_scientificParts (h : (d.point - 1).natAbs < 1 <<< 16) :
    d.scientificParts.WellFormed where
  whole_ne_nil hnil := by
    rcases List.take_eq_nil_iff.1 hnil with hzero | hnil
    · cases hzero
    · exact d.digits_ne_nil hnil
  whole c hc := d.isDigit_of_mem_digits (List.mem_of_mem_take hc)
  fraction c hc := d.isDigit_of_mem_digits (List.mem_of_mem_drop hc)
  power_lt power heq := by
    cases heq
    exact h

theorem ofDigitChars_digits (init : Nat) :
    Nat.ofDigitChars 10 d.digits init = 10 ^ d.digits.length * init + d.coefficient := by
  rw [Nat.ofDigitChars_eq_ofDigitChars_zero]
  exact congrArg _ Nat.ofDigitChars_ten_toDigits

/-- The positional form means the decimal. -/
theorem absolute_positionalParts : d.positionalParts.decimal.absolute = d.absolute := by
  have hpos := d.length_digits_pos
  have hwell := d.wellFormed_positionalParts
  have hread := ofDigits_ten (List.forall_mem_append.2 ⟨hwell.whole, hwell.fraction⟩)
  unfold absolute Parts.decimal
  dsimp only
  rw [hread]
  unfold positionalParts
  by_cases hexponent : 0 ≤ d.exponent
  · have hcoefficient : Nat.ofDigitChars 10
        (d.digits ++ List.replicate d.exponent.toNat '0' ++ ['0']) 0 =
        d.coefficient * 10 ^ (d.exponent.toNat + 1) := by
      have hlast : (['0'] : List Char) = List.replicate 1 '0' := rfl
      rw [List.append_assoc, hlast, List.replicate_append_replicate, Nat.ofDigitChars_append,
        Nat.ofDigitChars_replicate_zero, ofDigitChars_digits]
      ring
    have hpower : (10 : ℚ) ^ (d.exponent.toNat + 1) * 10 ^ (0 - 1 : Int) = 10 ^ d.exponent := by
      rw [← zpow_natCast, ← zpow_add₀ (by norm_num)]
      congr 1
      omega
    simp only [if_pos hexponent]
    rw [hcoefficient, Nat.cast_mul, Nat.cast_pow, mul_assoc, ← hpower]
    rfl
  · by_cases hpoint : 0 < d.point
    · have hplace : (0 : Int) - (d.digits.drop d.point.toNat).length = d.exponent := by
        rw [List.length_drop]
        unfold point at hpoint ⊢
        omega
      simp only [if_neg hexponent, if_pos hpoint]
      rw [List.take_append_drop, ofDigitChars_digits, Nat.mul_zero, Nat.zero_add,
        Option.getD_none, hplace]
    · have hcoefficient : Nat.ofDigitChars 10
          (['0'] ++ (List.replicate (-d.point).toNat '0' ++ d.digits)) 0 = d.coefficient := by
        rw [Nat.ofDigitChars_append, Nat.ofDigitChars_append, Nat.ofDigitChars_replicate_zero,
          ofDigitChars_digits]
        show 10 ^ d.digits.length * (10 ^ (-d.point).toNat * 0) + d.coefficient = d.coefficient
        rw [Nat.mul_zero, Nat.mul_zero, Nat.zero_add]
      have hplace : (0 : Int) - (List.replicate (-d.point).toNat '0' ++ d.digits).length =
          d.exponent := by
        rw [List.length_append, List.length_replicate]
        unfold point at hpoint ⊢
        omega
      simp only [if_neg hexponent, if_neg hpoint]
      rw [hcoefficient, Option.getD_none, hplace]

theorem absolute_scientificParts : d.scientificParts.decimal.absolute = d.absolute := by
  have hpos := d.length_digits_pos
  have hdigits : ofDigits 10 d.digits = d.coefficient := ofDigits_toDigits d.coefficient
  have hexponent : d.point - 1 - ((d.digits.drop 1).length : Int) = d.exponent := by
    rw [List.length_drop, point]
    omega
  unfold absolute Parts.decimal scientificParts
  dsimp only
  rw [List.take_append_drop, hdigits, Option.getD_some, hexponent]

/-! ## The place of the first digit -/

/-- The first digit of a decimal tells its order of magnitude. -/
theorem absolute_bounds (h : d.coefficient ≠ 0) :
    10 ^ (d.point - 1) ≤ d.absolute ∧ d.absolute < 10 ^ d.point := by
  have hten : (10 : ℚ) ≠ 0 := by norm_num
  have hpower : (0 : ℚ) < 10 ^ d.exponent := zpow_pos (by norm_num) _
  have hpos := d.length_digits_pos
  have hhigh : d.coefficient < 10 ^ d.digits.length :=
    (Nat.length_toDigits_le_iff (by decide) hpos).1 (Nat.le_refl _)
  have hlow : 10 ^ (d.digits.length - 1) ≤ d.coefficient := by
    by_cases hone : d.digits.length = 1
    · rw [hone]
      exact Nat.pos_of_ne_zero h
    · refine Nat.le_of_not_lt fun hlt => ?_
      have hlength := (Nat.length_toDigits_le_iff (by decide) (by omega)).2 hlt
      change d.digits.length ≤ d.digits.length - 1 at hlength
      omega
  constructor
  · have hsplit : d.point - 1 = (d.digits.length - 1 : Nat) + d.exponent := by
      unfold point
      omega
    rw [hsplit, zpow_add₀ hten, zpow_natCast]
    exact mul_le_mul_of_nonneg_right (by exact_mod_cast hlow) hpower.le
  · unfold point
    rw [zpow_add₀ hten, zpow_natCast]
    exact mul_lt_mul_of_pos_right (by exact_mod_cast hhigh) hpower

end Decimal

namespace Binary64

variable {x : Binary64} {d : Decimal}

/-- The power of ten of a decimal that is read as a finite number other than zero is small. -/
theorem natAbs_power_lt (hfinite : (ofDecimal d).isFinite = true)
    (hne : (ofDecimal d).magnitude ≠ 0) : (d.point - 1).natAbs < 1 <<< 16 := by
  have hten : (1 : ℚ) < 10 := by norm_num
  have hmagnitude := magnitude_ofDecimal d
  have hcoefficient : d.coefficient ≠ 0 := fun hzero => hne <| by
    rw [hmagnitude, Decimal.absolute, hzero, Nat.cast_zero, zero_mul]
    exact if_pos rfl
  obtain ⟨hlow, hhigh⟩ := d.absolute_bounds hcoefficient
  have hbelow : d.absolute < 2 ^ (1024 : Int) := by
    refine lt_of_not_ge fun hle => ?_
    have hlt : (ofDecimal d).magnitude < infinite := of_decide_eq_true hfinite
    rw [hmagnitude, nearestTo_eq_infinite hle] at hlt
    exact Nat.lt_irrefl _ hlt
  have habove : 2 ^ (-1075 : Int) ≤ d.absolute := by
    refine le_of_not_gt fun hlt => hne ?_
    rw [hmagnitude, nearestTo_eq_zero d.absolute_nonneg hlt]
  have hmost : d.point - 1 < 400 := by
    rw [← zpow_lt_zpow_iff_right₀ hten]
    exact lt_of_le_of_lt hlow (lt_of_lt_of_le hbelow two_zpow_le_ten_zpow)
  have hleast : -400 < d.point := by
    rw [← zpow_lt_zpow_iff_right₀ hten]
    exact lt_trans (lt_of_lt_of_le ten_zpow_lt_two_zpow habove) hhigh
  omega

/-! ## Tokens -/

/-- The parts of the token of a finite number. -/
def literalParts (x : Binary64) : Decimal.Parts :=
  let d := shortest .even x
  if -5 ≤ d.point - 1 ∧ d.point - 1 ≤ 15 then d.positionalParts else d.scientificParts

theorem literal?_eq (h : x.isFinite = true) :
    x.literal? = some (String.ofList x.literalParts.text) := by
  unfold literal? literalParts
  rw [h]
  by_cases hpower : -5 ≤ (shortest .even x).point - 1 ∧ (shortest .even x).point - 1 ≤ 15
  · simp only [if_pos hpower, Decimal.text_positionalParts]
    rfl
  · simp only [if_neg hpower, Decimal.text_scientificParts]
    rfl

theorem wellFormed_literalParts (h : x.isFinite = true) : x.literalParts.WellFormed := by
  unfold literalParts
  dsimp only
  split
  · exact Decimal.wellFormed_positionalParts _
  · next hpower =>
    have hread := ofDecimal_shortest .even h
    refine Decimal.wellFormed_scientificParts _ (natAbs_power_lt (by rwa [hread]) ?_)
    rw [hread]
    -- the digit of zero stands before the point, so that its form is positional
    intro hzero
    have hpoint : (shortest .even x).point = 1 := by
      rw [shortest, if_pos hzero, Decimal.point, Decimal.digits, Nat.toDigits_zero]
      rfl
    omega

theorem ofDecimal_literalParts (h : x.isFinite = true) : ofDecimal x.literalParts.decimal = x := by
  have hnegative : x.literalParts.decimal.negative = (shortest .even x).negative := by
    unfold literalParts Decimal.positionalParts Decimal.scientificParts Decimal.Parts.decimal
    dsimp only
    split
    · split
      · rfl
      · split <;> rfl
    · rfl
  have habsolute : x.literalParts.decimal.absolute = (shortest .even x).absolute := by
    unfold literalParts
    dsimp only
    split
    · exact Decimal.absolute_positionalParts _
    · exact Decimal.absolute_scientificParts _
  rw [ofDecimal_congr hnegative habsolute, ofDecimal_shortest .even h]

theorem isFinite_of_literal? {token : String} (h : x.literal? = some token) :
    x.isFinite = true := by
  by_contra hinfinite
  rw [literal?, if_pos (by simpa using hinfinite)] at h
  cases h

/-- **The token of a finite number is read as the number.** -/
theorem parse?_literal {token : String} (h : x.literal? = some token) : parse? token = some x := by
  have hfinite := isFinite_of_literal? h
  rw [literal?_eq hfinite] at h
  cases h
  rw [parse?, String.toList_ofList, Decimal.Parts.parse?_text (wellFormed_literalParts hfinite)]
  exact congrArg some (ofDecimal_literalParts hfinite)

/-- The characters of a token. -/
theorem mem_literal {token : String} (h : x.literal? = some token) {c : Char}
    (hc : c ∈ token.toList) : c.isDigit = true ∨ c ∈ ['-', '+', '.', 'e'] := by
  have hfinite := isFinite_of_literal? h
  rw [literal?_eq hfinite] at h
  cases h
  rw [String.toList_ofList] at hc
  exact Decimal.Parts.mem_text (wellFormed_literalParts hfinite) hc

/-- A token shows that its number is no integer. -/
theorem exists_mark_literal {token : String} (h : x.literal? = some token) :
    '.' ∈ token.toList ∨ 'e' ∈ token.toList := by
  rw [literal?_eq (isFinite_of_literal? h)] at h
  cases h
  rw [String.toList_ofList]
  refine Decimal.Parts.exists_mark ?_
  unfold literalParts
  dsimp only
  split
  · exact .inl (Decimal.fraction_positionalParts_ne_nil _)
  · exact .inr (Option.some_ne_none _)

end Binary64

end QueryFilter
