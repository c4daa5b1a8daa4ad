import QueryFilter.Text.Decimal
import QueryFilter.Proofs.Numeral

/-!
# The grammar of numbers

How integers and decimals are written, apart from how they are read.

* `Numeral.SpellsSign`: the ways of writing a sign;
* `Numeral.WritesInteger`, **`Numeral.integer?_eq_some_iff`**: the texts that are read as integers;
* **`Decimal.Literal`**, with `exact` and `read`: the digits of a decimal, the number that they mean
  and the one that they are read as; `Decimal.Literal.Spells`: the ways of writing it;
* **`Decimal.parse?_eq_some_iff`**: the texts that are read as decimals;
* `Decimal.Literal.Spells.unique`: a text writes one decimal at most;
* `Decimal.cappedExponent_eq`, `Decimal.le_cappedExponent`: an exponent is read in full while it is
  small, and else as a large one.
-/

namespace QueryFilter

namespace Numeral

/-! ## Signs -/

/-- The ways of writing a sign; no sign is a plus. -/
inductive SpellsSign : Bool → List Char → Prop
  | absent : SpellsSign false []
  | plus : SpellsSign false ['+']
  | minus : SpellsSign true ['-']

/-- A text that does not begin with a sign. -/
def StopsSign (cs : List Char) : Prop :=
  ∀ c ∈ cs.head?, c ≠ '-' ∧ c ≠ '+'

variable {negative : Bool} {sign cs rest : List Char}

theorem takeSign_of_stopsSign (h : StopsSign cs) : takeSign cs = (false, cs) := by
  unfold takeSign
  split
  · exact absurd rfl (h '-' rfl).1
  · exact absurd rfl (h '+' rfl).2
  · rfl

theorem takeSign_append (h : SpellsSign negative sign) (hrest : StopsSign rest) :
    takeSign (sign ++ rest) = (negative, rest) := by
  cases h with
  | absent => exact takeSign_of_stopsSign hrest
  | plus | minus => rfl

theorem exists_spellsSign (cs : List Char) :
    ∃ sign, SpellsSign (takeSign cs).1 sign ∧ cs = sign ++ (takeSign cs).2 := by
  unfold takeSign
  split
  · exact ⟨_, .minus, rfl⟩
  · exact ⟨_, .plus, rfl⟩
  · exact ⟨_, .absent, rfl⟩

theorem stopsSign_of_isDigit {c : Char} (hc : c.isDigit = true) : StopsSign (c :: cs) := by
  intro d hd
  obtain rfl : c = d := Option.some.inj hd
  constructor
  · rintro rfl
    exact absurd hc (by decide)
  · rintro rfl
    exact absurd hc (by decide)

theorem stopsSign_digits {ds : List Char} (hds : ∀ c ∈ ds, c.isDigit = true) (hne : ds ≠ []) :
    StopsSign ds := by
  obtain ⟨c, ds, rfl⟩ := List.exists_cons_of_ne_nil hne
  exact stopsSign_of_isDigit (hds c List.mem_cons_self)

/-! ## Integers -/

/-- An optional sign, one or more digits, and the integer that they write. -/
def WritesInteger (cs : List Char) (i : Int) : Prop :=
  ∃ negative sign digits n, cs = sign ++ digits ∧ SpellsSign negative sign ∧
    WritesNatural digits n ∧ signed negative n = i

/-- **What is read as an integer.** -/
theorem integer?_eq_some_iff {i : Int} : integer? cs = some i ↔ WritesInteger cs i := by
  have hread : integer? cs = (natural? (takeSign cs).2).map (signed (takeSign cs).1) := rfl
  rw [hread, Option.map_eq_some_iff]
  simp only [natural?_eq_some_iff]
  constructor
  · rintro ⟨n, hn, rfl⟩
    obtain ⟨sign, hsign, hcs⟩ := exists_spellsSign cs
    exact ⟨_, sign, _, n, hcs, hsign, hn, rfl⟩
  · rintro ⟨negative, sign, digits, n, rfl, hsign, hn, rfl⟩
    rw [takeSign_append hsign (stopsSign_digits hn.digits hn.ne_nil)]
    exact ⟨n, hn, rfl⟩

end Numeral

namespace Decimal

open Numeral

/-! ## Exponents -/

/-- Digits that are read one by one never make a number smaller. -/
theorem le_ofDigitChars (ds : List Char) (n : Nat) : n ≤ Nat.ofDigitChars 10 ds n := by
  rw [Nat.ofDigitChars_eq_ofDigitChars_zero]
  exact Nat.le_trans (Nat.le_mul_of_pos_left n (Nat.pow_pos (by decide))) (Nat.le_add_right _ _)

/-- Digits behind a number are all read while it is small, and else it is read as a large one. -/
theorem foldl_capped {ds : List Char} (hds : ∀ c ∈ ds, c.isDigit = true) (n : Nat) :
    let capped := ds.foldl (fun n c => if n < 1 <<< 16 then 10 * n + (digit? 10 c).getD 0 else n) n
    (Nat.ofDigitChars 10 ds n < 1 <<< 16 → capped = Nat.ofDigitChars 10 ds n) ∧
      (1 <<< 16 ≤ Nat.ofDigitChars 10 ds n → 1 <<< 16 ≤ capped) := by
  induction ds generalizing n with
  | nil => exact ⟨fun _ => rfl, id⟩
  | cons c ds ih =>
    obtain ⟨hc, hds⟩ := List.forall_mem_cons.1 hds
    have hnext := le_ofDigitChars ds (10 * n + (c.toNat - '0'.toNat))
    rw [Nat.ofDigitChars_cons, List.foldl_cons]
    by_cases hn : n < 1 <<< 16
    · rw [if_pos hn, digit?_ten, if_pos hc, Option.getD_some]
      exact ih hds _
    · rw [if_neg hn]
      exact ⟨fun hlt => by omega, fun _ => (ih hds n).2 (by have := le_ofDigitChars ds n; omega)⟩

/-- A power of ten is read in full as long as it is small. -/
theorem cappedExponent_eq {ds : List Char} (hds : ∀ c ∈ ds, c.isDigit = true)
    (hlt : Nat.ofDigitChars 10 ds 0 < 1 <<< 16) : cappedExponent ds = Nat.ofDigitChars 10 ds 0 :=
  (foldl_capped hds 0).1 hlt

/-- A large power of ten is read as a large one. -/
theorem le_cappedExponent {ds : List Char} (hds : ∀ c ∈ ds, c.isDigit = true)
    (hle : 1 <<< 16 ≤ Nat.ofDigitChars 10 ds 0) : 1 <<< 16 ≤ cappedExponent ds :=
  (foldl_capped hds 0).2 hle

/-! ## Decimals -/

/-- **A decimal as it is written**: whether it has a minus, the digits before and behind the point,
of which there is one at least, and whether the power of ten has a minus, with its digits. -/
@[ext]
structure Literal where
  negative : Bool
  whole : List Char
  fraction : List Char
  power : Option (Bool × List Char)
  ne_nil : whole ++ fraction ≠ []
  digits : ∀ c ∈ whole ++ fraction, c.isDigit = true
  power_digits : ∀ p ∈ power, p.2 ≠ [] ∧ ∀ c ∈ p.2, c.isDigit = true

namespace Literal

/-- The decimal of the digits, where the digits of the power of ten mean what `value` says. -/
def decimal (l : Literal) (value : List Char → Nat) : Decimal :=
  ⟨l.negative, Nat.ofDigitChars 10 (l.whole ++ l.fraction) 0,
    (l.power.elim 0 fun p => signed p.1 (value p.2)) - l.fraction.length⟩

/-- The decimal that the digits mean. -/
def exact (l : Literal) : Decimal :=
  l.decimal fun digits => Nat.ofDigitChars 10 digits 0

/-- The decimal that the digits are read as: the digits of a power of ten do not count any more once
its value has reached `2 ^ 16`. -/
def read (l : Literal) : Decimal :=
  l.decimal cappedExponent

/-- The ways of writing digits behind the point; without digits, the point may be missing. -/
inductive SpellsFraction : List Char → List Char → Prop
  | absent : SpellsFraction [] []
  | point (fraction : List Char) : SpellsFraction fraction ('.' :: fraction)

/-- The ways of writing a power of ten. -/
inductive SpellsPower : Option (Bool × List Char) → List Char → Prop
  | absent : SpellsPower none []
  | marked {mark : Char} {negative : Bool} {sign digits : List Char} (hm : mark = 'e' ∨ mark = 'E')
    (hs : SpellsSign negative sign) :
    SpellsPower (some (negative, digits)) (mark :: (sign ++ digits))

/-- **The ways of writing a decimal.** -/
def Spells (l : Literal) (cs : List Char) : Prop :=
  ∃ sign fraction power, cs = sign ++ (l.whole ++ (fraction ++ power)) ∧
    SpellsSign l.negative sign ∧ SpellsFraction l.fraction fraction ∧ SpellsPower l.power power

theorem whole_digits (l : Literal) : ∀ c ∈ l.whole, c.isDigit = true :=
  (List.forall_mem_append.1 l.digits).1

theorem fraction_digits (l : Literal) : ∀ c ∈ l.fraction, c.isDigit = true :=
  (List.forall_mem_append.1 l.digits).2

theorem SpellsFraction.length_le {fraction cs : List Char} (h : SpellsFraction fraction cs) :
    fraction.length ≤ cs.length := by
  cases h with
  | absent => exact Nat.le_refl _
  | point => exact Nat.le_succ _

/-- The decimal of a text has as many digits before its power of ten as the text has characters, or
fewer. -/
theorem Spells.length_le {l : Literal} {cs : List Char} (h : l.Spells cs) :
    (l.whole ++ l.fraction).length ≤ cs.length := by
  obtain ⟨sign, fraction, power, rfl, -, hfraction, -⟩ := h
  have hle : l.fraction.length ≤ fraction.length := hfraction.length_le
  simp only [List.length_append]
  omega

end Literal

/-! ### Powers of ten -/

open Literal

theorem all_isDigit_iff {ds : List Char} :
    ds.all (isDigit 10) = true ↔ ∀ c ∈ ds, c.isDigit = true := by
  rw [List.all_eq_true]
  simp only [isDigit_ten]

theorem exponent?_eq_some_iff {cs : List Char} {e : Int} : exponent? cs = some e ↔
    ∃ power, SpellsPower power cs ∧ (∀ p ∈ power, p.2 ≠ [] ∧ ∀ c ∈ p.2, c.isDigit = true) ∧
      (power.elim 0 fun p => signed p.1 (cappedExponent p.2)) = e := by
  cases cs with
  | nil =>
    constructor
    · intro h
      exact ⟨none, .absent, nofun, Option.some.inj h⟩
    · rintro ⟨power, hspells, -, rfl⟩
      cases hspells
      rfl
  | cons mark rest =>
    have hread : exponent? (mark :: rest) =
        if (mark = 'e' ∨ mark = 'E') ∧ (takeSign rest).2 ≠ [] ∧
            (takeSign rest).2.all (isDigit 10) then
          some (signed (takeSign rest).1 (cappedExponent (takeSign rest).2)) else none := rfl
    rw [hread, Option.ite_none_right_eq_some, all_isDigit_iff]
    constructor
    · rintro ⟨⟨hmark, hdigits⟩, he⟩
      obtain ⟨sign, hsign, hrest⟩ := exists_spellsSign rest
      refine ⟨some (takeSign rest), ?_, ?_, Option.some.inj he⟩
      · conv => rhs; rw [hrest]
        exact .marked hmark hsign
      · intro p hp
        cases hp
        exact hdigits
    · rintro ⟨power, hspells, hdigits, rfl⟩
      cases hspells with
      | marked hmark hsign =>
        obtain ⟨hne, hds⟩ := hdigits _ rfl
        rw [takeSign_append hsign (stopsSign_digits hds hne)]
        exact ⟨⟨hmark, hne, hds⟩, rfl⟩

theorem stopsDigits_power {power : Option (Bool × List Char)} {cs : List Char}
    (h : SpellsPower power cs) : StopsDigits cs := by
  cases h with
  | absent => exact nofun
  | marked hmark =>
    intro c hc
    cases hc
    rcases hmark with rfl | rfl <;> rfl

/-! ### Reading -/

/-- A text that is taken apart: its sign, the digits before and behind the point, and what is left
of it. -/
structure Pieces where
  negative : Bool
  whole : List Char
  fraction : List Char
  rest : List Char

/-- Takes the digits behind a point apart from what follows them. -/
def splitFraction : List Char → List Char × List Char
  | '.' :: tail => (tail.takeWhile (isDigit 10), tail.dropWhile (isDigit 10))
  | tail => ([], tail)

/-- Takes a text apart. -/
def pieces (cs : List Char) : Pieces :=
  let (negative, unsigned) := takeSign cs
  let (fraction, rest) := splitFraction (unsigned.dropWhile (isDigit 10))
  ⟨negative, unsigned.takeWhile (isDigit 10), fraction, rest⟩

theorem parse?_eq (cs : List Char) : parse? cs =
    if (pieces cs).whole.isEmpty && (pieces cs).fraction.isEmpty then none
    else (exponent? (pieces cs).rest).map fun e => ⟨(pieces cs).negative,
      ofDigits 10 ((pieces cs).whole ++ (pieces cs).fraction), e - (pieces cs).fraction.length⟩ :=
  rfl

theorem splitFraction_append {fraction cs rest : List Char} (h : SpellsFraction fraction cs)
    (hfraction : ∀ c ∈ fraction, c.isDigit = true) {power : Option (Bool × List Char)}
    (hrest : SpellsPower power rest) : splitFraction (cs ++ rest) = (fraction, rest) := by
  have hstop := stopsDigits_power hrest
  cases h with
  | absent =>
    cases hrest with
    | absent => rfl
    | marked hmark => rcases hmark with rfl | rfl <;> rfl
  | point =>
    show ((fraction ++ rest).takeWhile (isDigit 10), (fraction ++ rest).dropWhile (isDigit 10)) = _
    rw [takeWhile_digits hfraction hstop, dropWhile_digits hfraction hstop]

theorem exists_spellsFraction (cs : List Char) : ∃ fraction,
    SpellsFraction (splitFraction cs).1 fraction ∧ cs = fraction ++ (splitFraction cs).2 ∧
      ∀ c ∈ (splitFraction cs).1, c.isDigit = true := by
  unfold splitFraction
  split
  · next tail =>
    refine ⟨_, .point _, ?_, all_isDigit_iff.1 List.all_takeWhile⟩
    rw [List.cons_append, List.takeWhile_append_dropWhile]
  · exact ⟨_, .absent, rfl, nofun⟩

theorem stopsDigits_fraction {fraction cs rest : List Char} (h : SpellsFraction fraction cs)
    (hrest : StopsDigits rest) : StopsDigits (cs ++ rest) := by
  cases h with
  | absent => exact hrest
  | point =>
    intro c hc
    cases hc
    rfl

/-- What follows a sign is a digit or the point. -/
theorem stopsSign_unsigned {whole fraction cs rest : List Char} (h : SpellsFraction fraction cs)
    (hne : whole ++ fraction ≠ []) (hwhole : ∀ c ∈ whole, c.isDigit = true) :
    StopsSign (whole ++ (cs ++ rest)) := by
  cases whole with
  | cons c whole => exact stopsSign_of_isDigit (hwhole c List.mem_cons_self)
  | nil =>
    cases h with
    | absent => exact absurd rfl hne
    | point =>
      intro c hc
      cases hc
      decide

namespace Literal

variable {l : Literal} {cs : List Char}

/-- A decimal is taken apart as it is written. -/
theorem Spells.pieces_eq (h : l.Spells cs) : ∃ rest, SpellsPower l.power rest ∧
    pieces cs = ⟨l.negative, l.whole, l.fraction, rest⟩ := by
  obtain ⟨sign, fraction, power, rfl, hsign, hfraction, hpower⟩ := h
  have hstop := stopsDigits_fraction hfraction (stopsDigits_power hpower)
  have hunsigned : StopsSign (l.whole ++ (fraction ++ power)) :=
    stopsSign_unsigned hfraction l.ne_nil l.whole_digits
  refine ⟨power, hpower, ?_⟩
  unfold pieces
  rw [takeSign_append hsign hunsigned]
  dsimp only
  rw [takeWhile_digits l.whole_digits hstop, dropWhile_digits l.whole_digits hstop,
    splitFraction_append hfraction l.fraction_digits hpower]

theorem parse?_of_spells (h : l.Spells cs) : parse? cs = some l.read := by
  obtain ⟨rest, hpower, hpieces⟩ := h.pieces_eq
  have hexponent := exponent?_eq_some_iff.2 ⟨l.power, hpower, l.power_digits, rfl⟩
  have hne : (l.whole.isEmpty && l.fraction.isEmpty) = false :=
    Bool.eq_false_iff.2 fun h => l.ne_nil (by simpa using h)
  rw [parse?_eq, hpieces]
  dsimp only
  rw [hne, if_neg Bool.false_ne_true, hexponent, Option.map_some, ofDigits_ten l.digits]
  rfl

theorem exists_spells_of_parse? {d : Decimal} (h : parse? cs = some d) :
    ∃ l : Literal, l.Spells cs ∧ l.read = d := by
  rw [parse?_eq, Option.ite_none_left_eq_some, Option.map_eq_some_iff] at h
  obtain ⟨hne, e, he, rfl⟩ := h
  obtain ⟨power, hpower, hpower_digits, rfl⟩ := exponent?_eq_some_iff.1 he
  obtain ⟨sign, hsign, hcs⟩ := exists_spellsSign cs
  obtain ⟨fraction, hfraction, htail, hfraction_digits⟩ :=
    exists_spellsFraction ((takeSign cs).2.dropWhile (isDigit 10))
  have hdigits : ∀ c ∈ (pieces cs).whole ++ (pieces cs).fraction, c.isDigit = true :=
    List.forall_mem_append.2 ⟨all_isDigit_iff.1 List.all_takeWhile, hfraction_digits⟩
  refine ⟨⟨(pieces cs).negative, (pieces cs).whole, (pieces cs).fraction, power, ?_, hdigits,
    hpower_digits⟩, ⟨sign, fraction, (pieces cs).rest, ?_, hsign, hfraction, hpower⟩, ?_⟩
  · intro hnil
    obtain ⟨hwhole, hfraction⟩ := List.append_eq_nil_iff.1 hnil
    exact hne (by rw [hwhole, hfraction]; rfl)
  · show cs = sign ++ ((takeSign cs).2.takeWhile (isDigit 10) ++
      (fraction ++ (splitFraction ((takeSign cs).2.dropWhile (isDigit 10))).2))
    rw [← htail, List.takeWhile_append_dropWhile]
    exact hcs
  · rw [ofDigits_ten hdigits]
    rfl

theorem SpellsPower.unique {power power' : Option (Bool × List Char)} {rest : List Char}
    (h : SpellsPower power rest) (h' : SpellsPower power' rest)
    (hdigits : ∀ p ∈ power, p.2 ≠ [] ∧ ∀ c ∈ p.2, c.isDigit = true)
    (hdigits' : ∀ p ∈ power', p.2 ≠ [] ∧ ∀ c ∈ p.2, c.isDigit = true) : power = power' := by
  have hsigned {p : Bool × List Char} {sign : List Char} (hs : SpellsSign p.1 sign)
      (hp : p.2 ≠ [] ∧ ∀ c ∈ p.2, c.isDigit = true) : takeSign (sign ++ p.2) = p :=
    takeSign_append hs (stopsSign_digits hp.2 hp.1)
  cases h with
  | absent =>
    cases h'
    rfl
  | marked hmark hs =>
    generalize hrest : _ :: (_ ++ _) = rest at h'
    cases h' with
    | absent => cases hrest
    | marked hmark' hs' =>
      have htail := (List.cons.inj hrest).2
      rw [← hsigned hs (hdigits _ rfl), ← hsigned hs' (hdigits' _ rfl)]
      exact congrArg (some ∘ takeSign) htail

/-- **A text writes one decimal at most.** -/
theorem Spells.unique {l' : Literal} (h : l.Spells cs) (h' : l'.Spells cs) : l = l' := by
  obtain ⟨rest, hpower, hpieces⟩ := h.pieces_eq
  obtain ⟨rest', hpower', hpieces'⟩ := h'.pieces_eq
  obtain ⟨hnegative, hwhole, hfraction, hrest⟩ := Pieces.mk.inj (hpieces.symm.trans hpieces')
  subst hrest
  exact Literal.ext hnegative hwhole hfraction
    (hpower.unique hpower' l.power_digits l'.power_digits)

end Literal

/-- **What is read as a decimal.** -/
theorem parse?_eq_some_iff {cs : List Char} {d : Decimal} :
    parse? cs = some d ↔ ∃ l : Literal, l.Spells cs ∧ l.read = d :=
  ⟨exists_spells_of_parse?, fun ⟨_, h, hd⟩ => hd ▸ parse?_of_spells h⟩

end Decimal

end QueryFilter
