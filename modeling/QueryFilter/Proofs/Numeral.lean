import QueryFilter.Text.Numeral

/-!
# Digits, read and written

* `Numeral.isDigit_ten`, `Numeral.ofDigits_ten`: decimal digits and the number that they write;
* `Numeral.StopsDigits`, `Numeral.takeWhile_digits`: digits in front of a text;
* `Numeral.WritesNatural`, `Numeral.WritesUnsigned`: the texts that write a number, with any leading
  zeros; `Numeral.natural?_eq_some_iff`, `Numeral.uint32?_eq_some_iff`: these are read, and no
  others;
* `Numeral.ofDigits_toDigits`: digits that are written are those of the number;
* `Numeral.decimal_injective`, **`Numeral.decimalInt_injective`**: different integers are written
  differently.
-/

namespace QueryFilter.Numeral

theorem isDigit_iff_le {c : Char} : c.isDigit = true ↔ '0' ≤ c ∧ c ≤ '9' := by
  rw [Char.isDigit, Bool.and_eq_true, decide_eq_true_iff, decide_eq_true_iff]
  exact Iff.rfl

theorem digit?_ten (c : Char) :
    digit? 10 c = if c.isDigit then some (c.toNat - '0'.toNat) else none := by
  have hzero : '0'.toNat = 48 := rfl
  by_cases h : c.isDigit
  · have hle : c.toNat ≤ 57 := (isDigit_iff_le.1 h).2
    rw [if_pos h, digit?, value?, if_pos (isDigit_iff_le.1 h), Option.filter_some, if_pos]
    exact decide_eq_true (by omega)
  · rw [if_neg h, digit?, value?, if_neg (mt isDigit_iff_le.2 h)]
    split
    · rw [Option.filter_some, if_neg (by simp)]
    · split
      · rw [Option.filter_some, if_neg (by simp)]
      · rfl

theorem isDigit_ten (c : Char) : isDigit 10 c = c.isDigit := by
  rw [isDigit, digit?_ten]
  cases c.isDigit <;> rfl

theorem ofDigits_ten {cs : List Char} (h : ∀ c ∈ cs, c.isDigit = true) :
    ofDigits 10 cs = Nat.ofDigitChars 10 cs 0 := by
  rw [ofDigits_eq_foldl, Nat.ofDigitChars_eq_foldl]
  generalize 0 = n
  induction cs generalizing n with
  | nil => rfl
  | cons c cs ih =>
    obtain ⟨hc, hcs⟩ := List.forall_mem_cons.1 h
    rw [List.foldl_cons, List.foldl_cons, ih hcs, pushDigit, digit?_ten, if_pos hc,
      Option.getD_some]

/-! ## Digits in front of a text -/

/-- A text that does not go on with a digit. -/
def StopsDigits (cs : List Char) : Prop :=
  ∀ c ∈ cs.head?, c.isDigit = false

theorem takeWhile_of_stopsDigits {rest : List Char} (hrest : StopsDigits rest) :
    rest.takeWhile (isDigit 10) = [] := by
  cases rest with
  | nil => rfl
  | cons c cs =>
    have hc : isDigit 10 c = false := (isDigit_ten c).trans (hrest c rfl)
    exact List.takeWhile_cons_of_neg (by simp [hc])

theorem takeWhile_append_of_stopsDigits {cs rest : List Char} (hrest : StopsDigits rest) :
    (cs ++ rest).takeWhile (isDigit 10) = cs.takeWhile (isDigit 10) := by
  induction cs with
  | nil => exact takeWhile_of_stopsDigits hrest
  | cons c cs ih => rw [List.cons_append, List.takeWhile_cons, List.takeWhile_cons, ih]

theorem takeWhile_digits {ds rest : List Char} (hds : ∀ c ∈ ds, c.isDigit = true)
    (hrest : StopsDigits rest) : (ds ++ rest).takeWhile (isDigit 10) = ds := by
  rw [List.takeWhile_append_of_pos fun c hc => (isDigit_ten c).trans (hds c hc),
    takeWhile_of_stopsDigits hrest, List.append_nil]

theorem dropWhile_digits {ds rest : List Char} (hds : ∀ c ∈ ds, c.isDigit = true)
    (hrest : StopsDigits rest) : (ds ++ rest).dropWhile (isDigit 10) = rest := by
  rw [List.dropWhile_append_of_pos fun c hc => (isDigit_ten c).trans (hds c hc)]
  cases rest with
  | nil => rfl
  | cons c cs =>
    have hc : isDigit 10 c = false := (isDigit_ten c).trans (hrest c rfl)
    rw [List.dropWhile_cons_of_neg (by simp [hc])]

/-! ## Reading -/

/-- One or more decimal digits and the number that they write. -/
structure WritesNatural (cs : List Char) (n : Nat) : Prop where
  ne_nil : cs ≠ []
  digits : ∀ c ∈ cs, c.isDigit = true
  value : Nat.ofDigitChars 10 cs 0 = n

/-- At most a plus sign, and digits behind it. -/
def WritesUnsigned (s : String) (n : Nat) : Prop :=
  ∃ digits, (s.toList = digits ∨ s.toList = '+' :: digits) ∧ WritesNatural digits n

theorem natural?_eq_some_iff {cs : List Char} {n : Nat} :
    natural? cs = some n ↔ WritesNatural cs n := by
  rw [natural?, naturalIn?, Option.ite_none_right_eq_some, Option.some.injEq, Bool.and_eq_true,
    Bool.not_eq_true', List.isEmpty_eq_false_iff, List.all_eq_true]
  simp only [isDigit_ten]
  constructor
  · rintro ⟨⟨hne, hdigits⟩, hvalue⟩
    exact ⟨hne, hdigits, (ofDigits_ten hdigits).symm.trans hvalue⟩
  · rintro ⟨hne, hdigits, hvalue⟩
    exact ⟨⟨hne, hdigits⟩, (ofDigits_ten hdigits).trans hvalue⟩

/-- Digits write one number, also where a sign is admitted. -/
theorem WritesNatural.eq_of_writesUnsigned {s : String} {m n : Nat} (hm : WritesNatural s.toList m)
    (hn : WritesUnsigned s n) : n = m := by
  obtain ⟨digits, hs | hs, hdigits⟩ := hn
  · rw [← hm.value, hs, hdigits.value]
  · have hplus : '+' ∈ s.toList := hs ▸ List.mem_cons_self
    exact absurd (hm.digits _ hplus) (by decide)

theorem word32?_eq_some_iff {n : Nat} {w : UInt32} : word32? n = some w ↔ n = w.toNat := by
  rw [word32?, Option.ite_none_right_eq_some, Option.some.injEq]
  constructor
  · rintro ⟨hlt, rfl⟩
    exact (UInt32.toNat_ofNat_of_lt hlt).symm
  · rintro rfl
    exact ⟨w.toNat_lt, UInt32.ofNat_toNat⟩

/-- **What is read as a number of 32 bits.** -/
theorem uint32?_eq_some_iff {s : String} {w : UInt32} :
    uint32? s = some w ↔ WritesUnsigned s w.toNat := by
  rw [uint32?]
  simp only [Option.bind_eq_some_iff, natural?_eq_some_iff, word32?_eq_some_iff]
  constructor
  · rintro ⟨n, hn, rfl⟩
    split at hn
    · next rest hs => exact ⟨rest, .inr hs, hn⟩
    · exact ⟨_, .inl rfl, hn⟩
  · rintro ⟨digits, hs, hn⟩
    refine ⟨_, ?_, rfl⟩
    rcases hs with hs | hs
    · split
      · next rest hplus =>
        -- a plus sign is no digit
        have hmem : '+' ∈ digits := by
          rw [← hs, hplus]
          exact List.mem_cons_self
        exact absurd (hn.digits _ hmem) (by decide)
      · rwa [hs]
    · rwa [hs]

/-! ## Writing -/

theorem isDigit_of_mem_toDigits {n : Nat} {c : Char} (h : c ∈ Nat.toDigits 10 n) :
    c.isDigit = true :=
  Nat.isDigit_of_mem_toDigits (by decide) (by decide) h

theorem ofDigits_toDigits (n : Nat) : ofDigits 10 (Nat.toDigits 10 n) = n := by
  rw [ofDigits_ten fun _ => isDigit_of_mem_toDigits, Nat.ofDigitChars_ten_toDigits]

theorem writesNatural_toDigits (n : Nat) : WritesNatural (Nat.toDigits 10 n) n :=
  ⟨Nat.toDigits_ne_nil, fun _ => isDigit_of_mem_toDigits, Nat.ofDigitChars_ten_toDigits⟩

theorem writesUnsigned_decimal (n : Nat) : WritesUnsigned (decimal n) n :=
  ⟨_, .inl (String.toList_ofList), writesNatural_toDigits n⟩

theorem decimal_injective {m n : Nat} (h : decimal m = decimal n) : m = n := by
  have hdigits : Nat.toDigits 10 m = Nat.toDigits 10 n := String.ofList_injective h
  calc
    m = Nat.ofDigitChars 10 (Nat.toDigits 10 m) 0 := Nat.ofDigitChars_ten_toDigits.symm
    _ = Nat.ofDigitChars 10 (Nat.toDigits 10 n) 0 := by rw [hdigits]
    _ = n := Nat.ofDigitChars_ten_toDigits

/-- Digits without a sign are not those after a minus sign. -/
theorem decimal_ne_minus (m : Nat) (s : String) : decimal m ≠ "-" ++ s := by
  intro h
  have hmem : '-' ∈ Nat.toDigits 10 m := by
    have hlist := congrArg String.toList h
    rw [decimal, String.toList_ofList, String.toList_append] at hlist
    rw [hlist]
    exact List.mem_append_left _ (by decide)
  exact absurd (isDigit_of_mem_toDigits hmem) (by decide)

/-- **Different integers are written differently.** -/
theorem decimalInt_injective {i j : Int} (h : decimalInt i = decimalInt j) : i = j := by
  cases i with
  | ofNat m =>
    cases j with
    | ofNat n => exact congrArg Int.ofNat (decimal_injective h)
    | negSucc n => exact absurd h (decimal_ne_minus m _)
  | negSucc m =>
    cases j with
    | ofNat n => exact absurd h.symm (decimal_ne_minus n _)
    | negSucc n =>
      have hdigits : decimal (m + 1) = decimal (n + 1) := by
        have hlist := congrArg String.toList h
        rw [decimalInt, decimalInt, String.toList_append, String.toList_append] at hlist
        exact String.toList_injective (List.append_cancel_left hlist)
      exact congrArg Int.negSucc (Nat.succ.inj (decimal_injective hdigits))

end QueryFilter.Numeral
