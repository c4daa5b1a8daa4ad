import QueryFilter.Proofs.Coerce
import QueryFilter.Proofs.Grammar
import QueryFilter.Proofs.Nearest

/-!
# The numbers that texts write

Which texts are numbers, and which numbers they are, in terms of the grammar of numbers: an integer
of 64 bits, or else the finite number nearest to a decimal. A power of ten is not always read in
full: the digits that are left out do not matter unless tens of thousands of digits stand before it.

* `Decimal.Literal.nearestTo_decimal`, **`Decimal.Literal.ofDecimal_read`**: where a decimal is read
  as the number nearest to what it means;
* **`Writes`**, `number?_eq_some_iff`: the number that a text writes; `Writes.isNumeric`: the
  characters of such a text;
* `coerce_range_eq_ok_iff`, `coerce_ne_eq_ok_iff`, `coerce_eq_eq_ok_iff`, **`coerce_exact`**: what
  each operator makes of a text;
* `coerce_overflowing`: a text whose power of ten is not read in full.
-/

namespace QueryFilter

/-! ## Powers of ten that are not read in full -/

/-- Digits write a number that has no more of them. -/
theorem Numeral.ofDigitChars_lt {ds : List Char} (hds : ∀ c ∈ ds, c.isDigit = true) :
    Nat.ofDigitChars 10 ds 0 < 10 ^ ds.length := by
  induction ds with
  | nil => decide
  | cons c ds ih =>
    obtain ⟨hc, hds⟩ := List.forall_mem_cons.1 hds
    have hdigit : c.toNat - '0'.toNat < 10 := by
      have hle : c.toNat ≤ 57 := (isDigit_iff_le.1 hc).2
      have hzero : '0'.toNat = 48 := rfl
      omega
    rw [Nat.ofDigitChars_cons, Nat.mul_zero, Nat.zero_add, Nat.ofDigitChars_eq_ofDigitChars_zero]
    calc
      10 ^ ds.length * (c.toNat - '0'.toNat) + Nat.ofDigitChars 10 ds 0
          < 10 ^ ds.length * (c.toNat - '0'.toNat) + 10 ^ ds.length :=
        Nat.add_lt_add_left (ih hds) _
      _ = 10 ^ ds.length * (c.toNat - '0'.toNat + 1) := (Nat.mul_succ _ _).symm
      _ ≤ 10 ^ ds.length * 10 := Nat.mul_le_mul_left _ hdigit
      _ = 10 ^ (ds.length + 1) := (Nat.pow_succ ..).symm

namespace Decimal.Literal

open Binary64

variable {l : Literal}

/-- With few digits before a large power of ten, the number that is nearest does not depend on how
large it is. -/
theorem nearestTo_decimal {value : List Char → Nat} {negative : Bool} {ds : List Char}
    (hpower : l.power = some (negative, ds)) (hvalue : 2 ^ 16 ≤ value ds)
    (hlength : (l.whole ++ l.fraction).length + 400 ≤ 2 ^ 16) :
    nearestTo (l.decimal value).absolute =
      if negative ∨ (l.decimal value).coefficient = 0 then 0 else infinite := by
  have hexponent : (l.decimal value).exponent =
      Numeral.signed negative (value ds) - l.fraction.length := by
    rw [decimal, hpower, Option.elim_some]
  have hdigits : (l.decimal value).coefficient < 10 ^ (l.whole ++ l.fraction).length :=
    Numeral.ofDigitChars_lt l.digits
  rw [List.length_append] at hlength hdigits
  split
  · next h =>
    refine nearestTo_eq_zero (absolute_nonneg _) ?_
    rcases h with rfl | hzero
    · refine absolute_lt_two_zpow hdigits ?_
      rw [hexponent, Numeral.signed, if_pos rfl]
      omega
    · rw [Decimal.absolute, hzero, Nat.cast_zero, zero_mul]
      exact zpow_pos two_pos _
  · next h =>
    obtain ⟨hpositive, hne⟩ := not_or.1 h
    refine nearestTo_eq_infinite (two_zpow_le_absolute hne ?_)
    rw [hexponent, Numeral.signed, if_neg hpositive]
    omega

/-- Only the digits of the power of ten are given a meaning. -/
theorem decimal_congr {value value' : List Char → Nat}
    (h : ∀ p ∈ l.power, value p.2 = value' p.2) : l.decimal value = l.decimal value' := by
  rw [decimal, decimal]
  cases hpower : l.power with
  | none => rfl
  | some p => rw [Option.elim_some, Option.elim_some, h p hpower]

/-- **A decimal is read as the number nearest to what it means** if its power of ten is read in
full, or if it has too few digits to make up for that power. -/
theorem ofDecimal_read (h : (∀ p ∈ l.power, Nat.ofDigitChars 10 p.2 0 < 2 ^ 16) ∨
    (l.whole ++ l.fraction).length + 400 ≤ 2 ^ 16) : ofDecimal l.read = ofDecimal l.exact := by
  by_cases hsmall : ∀ p ∈ l.power, Nat.ofDigitChars 10 p.2 0 < 2 ^ 16
  · have hread : l.read = l.exact :=
      decimal_congr fun p hp => cappedExponent_eq (l.power_digits p hp).2 (hsmall p hp)
    rw [hread]
  · have hlength := h.resolve_left hsmall
    push Not at hsmall
    obtain ⟨⟨negative, ds⟩, hp, hlarge⟩ := hsmall
    have hcapped : 2 ^ 16 ≤ cappedExponent ds := le_cappedExponent (l.power_digits _ hp).2 hlarge
    have hread : nearestTo l.read.absolute =
        if negative ∨ l.read.coefficient = 0 then 0 else infinite :=
      nearestTo_decimal hp hcapped hlength
    have hexact : nearestTo l.exact.absolute =
        if negative ∨ l.exact.coefficient = 0 then 0 else infinite :=
      nearestTo_decimal hp hlarge hlength
    refine eq_of_parts (by rw [negative_ofDecimal, negative_ofDecimal]; rfl) ?_
    rw [magnitude_ofDecimal, magnitude_ofDecimal]
    exact hread.trans hexact.symm

end Decimal.Literal

/-! ## Numbers -/

/-- **The number that a text writes**: an integer of 64 bits, and else the number nearest to a
decimal, if it is finite. -/
inductive Writes (raw : String) : Value → Prop
  | int {i : Int64} (h : Numeral.WritesInteger raw.toList i.toInt) : Writes raw (.int i)
  | float {l : Decimal.Literal} {x : Binary64}
    (hint : ∀ i : Int64, ¬ Numeral.WritesInteger raw.toList i.toInt)
    (hl : l.Spells raw.toList) (hx : x.IsNearest l.read) (hfinite : x.isFinite = true) :
    Writes raw (.float x)

variable {raw : String} {v : Value}

theorem integerValue?_eq_some_iff_writesInteger : integerValue? raw = some v ↔
    ∃ i : Int64, Numeral.WritesInteger raw.toList i.toInt ∧ v = .int i := by
  rw [integerValue?_eq_some_iff]
  simp only [Numeral.integer?_eq_some_iff]
  constructor
  · rintro ⟨i, hi, hlow, hhigh, rfl⟩
    have hback : (Int64.ofInt i).toInt = i := Int64.toInt_ofInt_of_le hlow hhigh
    exact ⟨.ofInt i, hback.symm ▸ hi, rfl⟩
  · rintro ⟨i, hi, rfl⟩
    exact ⟨i.toInt, hi, i.le_toInt, i.toInt_lt, by rw [Int64.ofInt_toInt]⟩

theorem integerValue?_eq_none_iff : integerValue? raw = none ↔
    ∀ i : Int64, ¬ Numeral.WritesInteger raw.toList i.toInt := by
  rw [Option.eq_none_iff_forall_ne_some]
  constructor
  · exact fun h i hi => h _ (integerValue?_eq_some_iff_writesInteger.2 ⟨i, hi, rfl⟩)
  · intro h v hv
    obtain ⟨i, hi, -⟩ := integerValue?_eq_some_iff_writesInteger.1 hv
    exact h i hi

/-- **A text is read as the number that it writes.** -/
theorem number?_eq_some_iff : number? raw = some v ↔ Writes raw v := by
  rw [number?, Option.orElse_eq_orElse, Option.orElse_eq_or, Option.or_eq_some_iff,
    integerValue?_eq_some_iff_writesInteger, integerValue?_eq_none_iff, decimalValue?_eq_some_iff]
  simp only [Decimal.parse?_eq_some_iff]
  constructor
  · rintro (⟨i, hi, rfl⟩ | ⟨hint, -, ⟨l, hl, rfl⟩, hfinite, rfl⟩)
    · exact .int hi
    · exact .float hint hl (Binary64.isNearest_iff.2 rfl) hfinite
  · intro h
    cases h with
    | int h => exact .inl ⟨_, h, rfl⟩
    | float hint hl hx hfinite =>
      obtain rfl := Binary64.isNearest_iff.1 hx
      exact .inr ⟨hint, _, ⟨_, hl, rfl⟩, hfinite, rfl⟩

/-- A text writes one number at most. -/
theorem Writes.unique {w : Value} (h : Writes raw v) (h' : Writes raw w) : v = w :=
  Option.some.inj ((number?_eq_some_iff.2 h).symm.trans (number?_eq_some_iff.2 h'))

theorem number?_eq_none_iff_not_writes : number? raw = none ↔ ∀ v, ¬ Writes raw v := by
  rw [Option.eq_none_iff_forall_ne_some]
  exact forall_congr' fun v => not_congr number?_eq_some_iff

theorem writesNumber_iff_exists_writes : WritesNumber raw ↔ ∃ v, Writes raw v := by
  rw [← number?_isSome_iff, Option.isSome_iff_exists]
  exact exists_congr fun v => number?_eq_some_iff

/-! ### The characters of numbers -/

/-- A character that stands in a number. -/
def IsNumeric (c : Char) : Prop :=
  c.isDigit = true ∨ c ∈ ['+', '-', '.', 'e', 'E']

theorem isNumeric_of_spellsSign {negative : Bool} {sign : List Char}
    (h : Numeral.SpellsSign negative sign) : ∀ c ∈ sign, IsNumeric c := by
  cases h with
  | absent => exact List.forall_mem_nil _
  | plus | minus => exact List.forall_mem_singleton.2 (.inr (by decide))

theorem isNumeric_of_digits {ds : List Char} (h : ∀ c ∈ ds, c.isDigit = true) :
    ∀ c ∈ ds, IsNumeric c :=
  fun c hc => .inl (h c hc)

theorem isNumeric_of_writesInteger {cs : List Char} {i : Int} (h : Numeral.WritesInteger cs i) :
    cs ≠ [] ∧ ∀ c ∈ cs, IsNumeric c := by
  obtain ⟨negative, sign, digits, n, rfl, hsign, hdigits, -⟩ := h
  exact ⟨List.append_ne_nil_of_right_ne_nil _ hdigits.ne_nil,
    List.forall_mem_append.2 ⟨isNumeric_of_spellsSign hsign, isNumeric_of_digits hdigits.digits⟩⟩

theorem isNumeric_of_spellsFraction {fraction cs : List Char}
    (h : Decimal.Literal.SpellsFraction fraction cs) (hdigits : ∀ c ∈ fraction, c.isDigit = true) :
    ∀ c ∈ cs, IsNumeric c := by
  cases h with
  | absent => exact List.forall_mem_nil _
  | point => exact List.forall_mem_cons.2 ⟨.inr (by decide), isNumeric_of_digits hdigits⟩

theorem isNumeric_of_spellsPower {power : Option (Bool × List Char)} {cs : List Char}
    (h : Decimal.Literal.SpellsPower power cs)
    (hdigits : ∀ p ∈ power, p.2 ≠ [] ∧ ∀ c ∈ p.2, c.isDigit = true) : ∀ c ∈ cs, IsNumeric c := by
  cases h with
  | absent => exact List.forall_mem_nil _
  | marked hmark hs =>
    refine List.forall_mem_cons.2 ⟨.inr ?_, List.forall_mem_append.2
      ⟨isNumeric_of_spellsSign hs, isNumeric_of_digits (hdigits _ rfl).2⟩⟩
    rcases hmark with rfl | rfl <;> decide

theorem isNumeric_of_spells {l : Decimal.Literal} {cs : List Char} (h : l.Spells cs) :
    cs ≠ [] ∧ ∀ c ∈ cs, IsNumeric c := by
  constructor
  · rintro rfl
    have hle := h.length_le
    exact l.ne_nil (List.length_eq_zero_iff.1 (Nat.le_zero.1 hle))
  · obtain ⟨sign, fraction, power, rfl, hsign, hfraction, hpower⟩ := h
    simp only [List.forall_mem_append]
    exact ⟨isNumeric_of_spellsSign hsign, isNumeric_of_digits l.whole_digits,
      isNumeric_of_spellsFraction hfraction l.fraction_digits,
      isNumeric_of_spellsPower hpower l.power_digits⟩

/-- A text that writes a number has nothing in it but digits, signs, points and marks of powers. -/
theorem Writes.isNumeric (h : Writes raw v) : raw ≠ "" ∧ ∀ c ∈ raw.toList, IsNumeric c := by
  have hlist : raw.toList ≠ [] ∧ ∀ c ∈ raw.toList, IsNumeric c := by
    cases h with
    | int h => exact isNumeric_of_writesInteger h
    | float hint hl => exact isNumeric_of_spells hl
  exact ⟨fun hempty => hlist.1 (by rw [hempty]; rfl), hlist.2⟩

/-! ## Operators -/

/-- The number that a text writes, or else the text itself. -/
def NumberOrText (raw : String) (v : Value) : Prop :=
  Writes raw v ∨ (∀ w, ¬ Writes raw w) ∧ v = .text raw

theorem numberOrText_iff : NumberOrText raw v ↔ (number? raw).getD (.text raw) = v := by
  rw [NumberOrText, ← number?_eq_some_iff, ← number?_eq_none_iff_not_writes]
  cases number? raw <;> simp [eq_comm]

theorem coerce_range_eq_ok_iff {op : Operator} (hop : op.isRange = true) :
    coerce op raw = .ok v ↔ Writes raw v := by
  rw [coerce_of_isRange hop, ← number?_eq_some_iff]
  cases number? raw <;> simp

theorem coerce_ne_eq_ok_iff : coerce .ne raw = .ok v ↔ NumberOrText raw v := by
  have hcoerce : coerce .ne raw = .ok ((number? raw).getD (.text raw)) := rfl
  rw [hcoerce, Except.ok.injEq, numberOrText_iff]

theorem coerce_eq_eq_ok_iff : coerce .eq raw = .ok v ↔ raw = "true" ∧ v = .bool true ∨
    raw = "false" ∧ v = .bool false ∨ raw ≠ "true" ∧ raw ≠ "false" ∧ NumberOrText raw v := by
  have hcoerce : coerce .eq raw = .ok ((truthValue? raw <|> number? raw).getD (.text raw)) := rfl
  rw [hcoerce, Except.ok.injEq, numberOrText_iff]
  unfold truthValue?
  split
  · simp [eq_comm]
  · simp [eq_comm]
  · next htrue hfalse =>
    have hne : raw ≠ "true" := htrue
    have hne' : raw ≠ "false" := hfalse
    simp [hne, hne']

/-- **What a text becomes.** A comparison by size takes the number that the text writes, and fails
on a text that writes none; `ne` and `eq` take that number, else the text, and `eq` takes exactly
two texts for truth values; `like` takes the text as it is. The number is an integer of 64 bits, and
else the finite number nearest to the decimal as it is read. That is the number nearest to the
decimal as it is written, if the power of ten is below 2^16 or if the text is shorter than that by
400 characters. -/
theorem coerce_exact (raw : String) :
    (∀ op : Operator, op.isRange = true → ∀ v, coerce op raw = .ok v ↔ Writes raw v) ∧
    (∀ (op : Operator) (reason : Reason), coerce op raw = .error reason ↔
      op.isRange = true ∧ (∀ v, ¬ Writes raw v) ∧ reason = .notANumber op raw) ∧
    (∀ v, coerce .ne raw = .ok v ↔ NumberOrText raw v) ∧
    (∀ v, coerce .eq raw = .ok v ↔ raw = "true" ∧ v = .bool true ∨
      raw = "false" ∧ v = .bool false ∨ raw ≠ "true" ∧ raw ≠ "false" ∧ NumberOrText raw v) ∧
    coerce .like raw = .ok (.text raw) ∧
    (∀ v, Writes raw v → raw ≠ "" ∧ ∀ c ∈ raw.toList, IsNumeric c) ∧
    ∀ l : Decimal.Literal, l.Spells raw.toList →
      (∀ p ∈ l.power, Nat.ofDigitChars 10 p.2 0 < 2 ^ 16) ∨ raw.length + 400 ≤ 2 ^ 16 →
      ∀ x : Binary64, x.IsNearest l.read ↔ x.IsNearest l.exact := by
  refine ⟨fun op hop v => coerce_range_eq_ok_iff hop, fun op reason => ?_,
    fun v => coerce_ne_eq_ok_iff, fun v => coerce_eq_eq_ok_iff, rfl, fun v => Writes.isNumeric,
    fun l hl hshort x => ?_⟩
  · rw [coerce_eq_error_iff, writesNumber_iff_exists_writes, not_exists]
  · have hlength : (l.whole ++ l.fraction).length ≤ raw.length :=
      hl.length_le.trans_eq String.length_toList
    have hread := Decimal.Literal.ofDecimal_read (l := l)
      (hshort.imp_right fun h => (Nat.add_le_add_right hlength 400).trans h)
    rw [Binary64.isNearest_iff, Binary64.isNearest_iff, hread]

/-- The first integer beyond 64 bits. -/
theorem coerce_exact_beyond :
    let raw := "9223372036854775808"
    let x := Binary64.ofInt (2 ^ 63)
    Operator.isRange .gte = true ∧ Writes raw (.float x) ∧ coerce .gte raw = .ok (.float x) ∧
      coerce .ne raw = .ok (.float x) ∧ coerce .eq raw = .ok (.float x) ∧
      coerce .like raw = .ok (.text raw) ∧ ∀ c ∈ raw.toList, IsNumeric c := by
  intro raw x
  let l : Decimal.Literal :=
    ⟨false, raw.toList, [], none, by decide, List.all_eq_true.1 (by decide), nofun⟩
  have hl : l.Spells raw.toList := ⟨[], [], [], by decide, .absent, .absent, .absent⟩
  have hinteger : Numeral.integer? raw.toList = some (2 ^ 63) := by decide +kernel
  have hint (i : Int64) : ¬ Numeral.WritesInteger raw.toList i.toInt := by
    intro hi
    have heq := Option.some.inj (hinteger.symm.trans (Numeral.integer?_eq_some_iff.2 hi))
    exact absurd i.toInt_lt (heq ▸ by decide)
  have hx : x.IsNearest l.read := Binary64.isNearest_iff.2 (by decide +kernel)
  have hwrites : Writes raw (.float x) := .float hint hl hx (by decide +kernel)
  obtain ⟨hrange, -, hne, heq, hlike, hnumeric, -⟩ := coerce_exact raw
  exact ⟨rfl, hwrites, (hrange .gte rfl _).2 hwrites, (hne _).2 (.inl hwrites),
    (heq _).2 (.inr (.inr ⟨by decide, by decide, .inl hwrites⟩)), hlike, (hnumeric _ hwrites).2⟩

/-! ### A power of ten that is cut short -/

namespace Decimal.Literal

/-- Zeros and a one behind the point, and a power of ten that is read without its last digit. -/
def cutShort (zeros : Nat) : Literal where
  negative := false
  whole := []
  fraction := List.replicate zeros '0' ++ ['1']
  power := some (false, "655360".toList)
  ne_nil := List.append_ne_nil_of_right_ne_nil _ (List.append_ne_nil_of_right_ne_nil _ nofun)
  digits := by
    intro c hc
    rw [List.nil_append, List.mem_append, List.mem_replicate, List.mem_singleton] at hc
    rcases hc with ⟨-, rfl⟩ | rfl <;> decide
  power_digits := by
    intro p hp
    cases hp
    exact ⟨by decide, List.all_eq_true.1 (by decide)⟩

variable (zeros : Nat)

theorem decimal_cutShort (value : List Char → Nat) : (cutShort zeros).decimal value =
    ⟨false, 1, value "655360".toList - (zeros + 1 : Nat)⟩ := by
  have hone : Nat.ofDigitChars 10 (List.replicate zeros '0' ++ ['1']) 0 = 1 := by
    rw [Nat.ofDigitChars_append, Nat.ofDigitChars_replicate_zero, Nat.mul_zero]
    rfl
  have hlength : (List.replicate zeros '0' ++ ['1']).length = zeros + 1 := by
    rw [List.length_append, List.length_replicate, List.length_singleton]
  rw [decimal, cutShort, List.nil_append, hone, hlength]
  rfl

theorem spells_cutShort : (cutShort zeros).Spells
    ("." ++ String.ofList (List.replicate zeros '0') ++ "1e655360").toList := by
  refine ⟨[], _, _, ?_, .absent, .point _, .marked (.inl rfl) .absent⟩
  simp [cutShort]

end Decimal.Literal

/-- A text that begins with the point writes no integer. -/
theorem Numeral.not_writesInteger_point (s t : String) (i : Int) :
    ¬ WritesInteger ("." ++ s ++ t).toList i := by
  have hlist : ("." ++ s ++ t).toList = '.' :: (s.toList ++ t.toList) := by simp
  rintro ⟨negative, sign, digits, n, hcs, hsign, hdigits, -⟩
  rw [hlist] at hcs
  cases hsign with
  | absent =>
    have hmem : '.' ∈ digits := by
      rw [← List.nil_append digits, ← hcs]
      exact List.mem_cons_self
    exact absurd (hdigits.digits _ hmem) (by decide)
  | plus | minus => cases hcs

/-- **A number that overflows, and is taken for a small one**: no finite number is nearest to what
the text means, and it is read as the hundred millions. -/
theorem coerce_overflowing :
    let raw := "." ++ String.ofList (List.replicate 65527 '0') ++ "1e655360"
    ∃ l : Decimal.Literal, l.Spells raw.toList ∧
      (∀ x : Binary64, x.IsNearest l.exact → x.isFinite = false) ∧
      (∀ i : Int64, ¬ Numeral.WritesInteger raw.toList i.toInt) ∧
      coerce .gt raw = .ok (.float (.ofInt 100000000)) ∧
      coerce .gt raw ≠ .error (.notANumber .gt raw) := by
  intro raw
  have hl := Decimal.Literal.spells_cutShort 65527
  have hexact : (Decimal.Literal.cutShort 65527).exact = ⟨false, 1, 589832⟩ :=
    (Decimal.Literal.decimal_cutShort 65527 _).trans (by decide)
  have hread : (Decimal.Literal.cutShort 65527).read = ⟨false, 1, 8⟩ :=
    (Decimal.Literal.decimal_cutShort 65527 _).trans (by decide)
  have hint (i : Int64) : ¬ Numeral.WritesInteger raw.toList i.toInt :=
    Numeral.not_writesInteger_point _ _ _
  have hgt : coerce .gt raw = .ok (.float (.ofInt 100000000)) := by
    refine (coerce_range_eq_ok_iff rfl).2 (.float hint hl ?_ (by decide +kernel))
    rw [hread, Binary64.isNearest_iff]
    decide +kernel
  refine ⟨_, hl, fun x hx => ?_, hint, hgt, by rw [hgt]; nofun⟩
  rw [Binary64.isNearest_iff.1 hx, hexact]
  decide +kernel

end QueryFilter
