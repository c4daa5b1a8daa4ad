import QueryFilter.Coerce
import Mathlib.Algebra.Ring.Int.Defs

/-!
# What values become

* `WritesNumber`: the texts that write a number, apart from what it is;
* `number?_isSome_iff`, `number?_cases`: the numbers that a text is read as;
* **`coerce_eq_error_iff`**: only a comparison by size fails, and only on a text without a number;
* `coerce_range_cases`, `coerce_ne_cases`, `coerce_eq_cases`: what the operators compare with;
* `isFinite_of_coerce`: no value is an infinity or a non-number.
-/

namespace QueryFilter

/-- A text that writes an integer of 64 bits, or a decimal whose nearest floating-point number is
finite. -/
def WritesNumber (raw : String) : Prop :=
  (∃ i, Numeral.integer? raw.toList = some i ∧ -2 ^ 63 ≤ i ∧ i < 2 ^ 63) ∨
    ∃ d, Decimal.parse? raw.toList = some d ∧ (Binary64.ofDecimal d).isFinite = true

/-! ## Numbers -/

theorem integerValue?_eq_some_iff {raw : String} {v : Value} : integerValue? raw = some v ↔
    ∃ i, Numeral.integer? raw.toList = some i ∧ -2 ^ 63 ≤ i ∧ i < 2 ^ 63 ∧ v = .int (.ofInt i) := by
  have hmin : Int64.minValue.toInt = -2 ^ 63 := rfl
  have hmax : Int64.maxValue.toInt = 2 ^ 63 - 1 := rfl
  rw [integerValue?, Numeral.int64?, Option.map_eq_some_iff]
  simp only [Option.bind_eq_some_iff, hmin, hmax]
  constructor
  · rintro ⟨n, ⟨i, hi, h⟩, rfl⟩
    split at h
    · next bounds =>
      cases h
      exact ⟨i, hi, bounds.1, by omega, rfl⟩
    · cases h
  · rintro ⟨i, hi, hl, hh, rfl⟩
    exact ⟨.ofInt i, ⟨i, hi, if_pos ⟨hl, by omega⟩⟩, rfl⟩

theorem decimalValue?_eq_some_iff {raw : String} {v : Value} : decimalValue? raw = some v ↔
    ∃ d, Decimal.parse? raw.toList = some d ∧ (Binary64.ofDecimal d).isFinite = true ∧
      v = .float (.ofDecimal d) := by
  rw [decimalValue?, Option.bind_eq_some_iff]
  simp only [Option.map_eq_some_iff]
  constructor
  · rintro ⟨x, ⟨d, hd, rfl⟩, h⟩
    split at h
    · next hf =>
      cases h
      exact ⟨d, hd, hf, rfl⟩
    · cases h
  · rintro ⟨d, hd, hf, rfl⟩
    exact ⟨_, ⟨d, hd, rfl⟩, if_pos hf⟩

theorem number?_isSome_iff {raw : String} : (number? raw).isSome = true ↔ WritesNumber raw := by
  rw [number?, Option.orElse_eq_orElse, Option.orElse_eq_or, Option.isSome_or, Bool.or_eq_true,
    Option.isSome_iff_exists, Option.isSome_iff_exists]
  refine or_congr ?_ ?_
  · simp only [integerValue?_eq_some_iff]
    constructor
    · rintro ⟨-, i, hi, hl, hh, -⟩
      exact ⟨i, hi, hl, hh⟩
    · rintro ⟨i, hi, hl, hh⟩
      exact ⟨_, i, hi, hl, hh, rfl⟩
  · simp only [decimalValue?_eq_some_iff]
    constructor
    · rintro ⟨-, d, hd, hf, -⟩
      exact ⟨d, hd, hf⟩
    · rintro ⟨d, hd, hf⟩
      exact ⟨_, d, hd, hf, rfl⟩

theorem number?_eq_none_iff {raw : String} : number? raw = none ↔ ¬ WritesNumber raw := by
  rw [← number?_isSome_iff, Option.not_isSome_iff_eq_none]

/-- A number is an integer or a finite floating-point number. -/
theorem number?_cases {raw : String} {v : Value} (h : number? raw = some v) :
    (∃ i, v = .int i) ∨ ∃ x, v = .float x ∧ x.isFinite = true := by
  rw [number?, Option.orElse_eq_orElse, Option.orElse_eq_or, Option.or_eq_some_iff] at h
  rcases h with h | ⟨-, h⟩
  · obtain ⟨i, -, -, -, rfl⟩ := integerValue?_eq_some_iff.1 h
    exact .inl ⟨_, rfl⟩
  · obtain ⟨d, -, hf, rfl⟩ := decimalValue?_eq_some_iff.1 h
    exact .inr ⟨_, rfl, hf⟩

/-! ## Operators -/

theorem Operator.isRange_iff {op : Operator} :
    op.isRange = true ↔ op ∈ [Operator.gt, .gte, .lt, .lte] := by
  cases op <;> decide

theorem coerce_of_isRange {op : Operator} (hop : op.isRange = true) (raw : String) :
    coerce op raw =
      match number? raw with
      | some v => .ok v
      | none => .error (.notANumber op raw) := by
  cases op with
  | gt | gte | lt | lte => rfl
  | ne | like | eq => cases hop

theorem exists_coerce_eq_ok {op : Operator} (hop : op.isRange = false) (raw : String) :
    ∃ v, coerce op raw = .ok v := by
  cases op with
  | gt | gte | lt | lte => cases hop
  | ne | like | eq => exact ⟨_, rfl⟩

/-- **Only a comparison by size fails**, and only where there is no number. -/
theorem coerce_eq_error_iff {op : Operator} {raw : String} {reason : Reason} :
    coerce op raw = .error reason ↔
      op.isRange = true ∧ ¬ WritesNumber raw ∧ reason = .notANumber op raw := by
  rw [← number?_eq_none_iff]
  cases hop : op.isRange with
  | true =>
    rw [coerce_of_isRange hop]
    cases number? raw with
    | some v => simp
    | none =>
      simp only [Except.error.injEq, true_and]
      exact eq_comm
  | false =>
    obtain ⟨v, hv⟩ := exists_coerce_eq_ok hop raw
    simp [hv]

/-- A comparison by size is with a number. -/
theorem coerce_range_cases {op : Operator} {raw : String} {v : Value} (hop : op.isRange = true)
    (h : coerce op raw = .ok v) : (∃ i, v = .int i) ∨ ∃ x, v = .float x ∧ x.isFinite = true := by
  rw [coerce_of_isRange hop] at h
  split at h
  · next hn =>
    cases h
    exact number?_cases hn
  · cases h

theorem coerce_ne_cases {raw : String} {v : Value} (h : coerce .ne raw = .ok v) :
    number? raw = some v ∨ v = .text raw := by
  cases h
  cases number? raw <;> simp

theorem truthValue?_cases {raw : String} {v : Value} (h : truthValue? raw = some v) :
    ∃ b, v = .bool b := by
  unfold truthValue? at h
  split at h <;> simp_all

theorem coerce_eq_cases {raw : String} {v : Value} (h : coerce .eq raw = .ok v) :
    (∃ b, v = .bool b) ∨ number? raw = some v ∨ v = .text raw := by
  cases h
  cases ht : truthValue? raw with
  | some t => exact .inl (by simpa using truthValue?_cases ht)
  | none => cases number? raw <;> simp

/-- No value is an infinity or a non-number. -/
theorem isFinite_of_coerce {op : Operator} {raw : String} {v : Value}
    (h : coerce op raw = .ok v) : v.isFinite = true := by
  have number {v : Value} (hv : (∃ i, v = .int i) ∨ ∃ x, v = .float x ∧ x.isFinite = true) :
      v.isFinite = true := by
    rcases hv with ⟨i, rfl⟩ | ⟨x, rfl, hx⟩
    · rfl
    · exact hx
  cases hop : op.isRange with
  | true => exact number (coerce_range_cases hop h)
  | false =>
    cases op with
    | gt | gte | lt | lte => cases hop
    | like =>
      cases h
      rfl
    | ne =>
      rcases coerce_ne_cases h with hn | rfl
      · exact number (number?_cases hn)
      · rfl
    | eq =>
      rcases coerce_eq_cases h with ⟨b, rfl⟩ | hn | rfl
      · rfl
      · exact number (number?_cases hn)
      · rfl

end QueryFilter
