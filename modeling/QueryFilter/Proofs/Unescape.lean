import QueryFilter.Proofs.ByteOrder
import QueryFilter.Percent

/-!
# The limit on decoded components

A component is given up as soon as its units stand for more bytes than the limit. This is no other
than to read all units and to look at the length of what they stand for.

* `HexValue`: the hexadecimal digits among the bytes;
* **`StandsFor`**: the bytes that the units of a component stand for, from left to right;
* `standsFor_iff`: every component stands for exactly one sequence of bytes;
* `StandsFor.length_le`: which is no longer than the component;
* **`decoding_exact`**: a component is too long if and only if what it stands for is.
-/

namespace QueryFilter.Percent

/-! ## Units -/

/-- A byte that is a hexadecimal digit, in either case, and its value. -/
inductive HexValue : UInt8 → UInt8 → Prop
  | digit {n : UInt8} (h : n < 10) : HexValue (0x30 + n) n
  | lower {n : UInt8} (h : n < 6) : HexValue (0x61 + n) (10 + n)
  | upper {n : UInt8} (h : n < 6) : HexValue (0x41 + n) (10 + n)

/-- **What a component stands for.** A percent sign with two hexadecimal digits is one byte. With
two other bytes, or with fewer than two, it is kept with the bytes that it covers. A plus sign is a
space, and any other byte is itself. -/
inductive StandsFor : List UInt8 → List UInt8 → Prop
  | nil : StandsFor [] []
  | escape {high low h l : UInt8} {rest out : List UInt8} (hh : HexValue high h)
    (hl : HexValue low l) (hrest : StandsFor rest out) :
    StandsFor (percentSign :: high :: low :: rest) ((16 * h + l) :: out)
  | malformed {high low : UInt8} {rest out : List UInt8}
    (h : ¬ ((∃ v, HexValue high v) ∧ ∃ v, HexValue low v)) (hrest : StandsFor rest out) :
    StandsFor (percentSign :: high :: low :: rest) (percentSign :: high :: low :: out)
  | truncated {rest : List UInt8} (h : rest.length < 2) :
    StandsFor (percentSign :: rest) (percentSign :: rest)
  | plus {rest out : List UInt8} (hrest : StandsFor rest out) :
    StandsFor (0x2B :: rest) (0x20 :: out)
  | other {b : UInt8} {rest out : List UInt8} (hpercent : b ≠ percentSign) (hplus : b ≠ 0x2B)
    (hrest : StandsFor rest out) : StandsFor (b :: rest) (b :: out)

variable {bytes out : List UInt8}

theorem hexValue_of_hexDigit? {b v : UInt8} (h : hexDigit? b = some v) : HexValue b v := by
  have hall : ∀ n < 256, ∀ v ∈ hexDigit? (UInt8.ofNat n),
      (v < 10 ∧ UInt8.ofNat n = 0x30 + v) ∨
      (v - 10 < 6 ∧ 10 + (v - 10) = v ∧
        (UInt8.ofNat n = 0x61 + (v - 10) ∨ UInt8.ofNat n = 0x41 + (v - 10))) := by
    decide +kernel
  have hb := hall b.toNat b.toNat_lt v
  rw [UInt8.ofNat_toNat] at hb
  rcases hb h with ⟨hv, rfl⟩ | ⟨hv, hten, rfl | rfl⟩
  · exact .digit hv
  · conv => arg 2; rw [← hten]
    exact .lower hv
  · conv => arg 2; rw [← hten]
    exact .upper hv

theorem hexDigit?_of_hexValue {b v : UInt8} (h : HexValue b v) : hexDigit? b = some v := by
  have hdigit : ∀ n < 10, hexDigit? (0x30 + UInt8.ofNat n) = some (UInt8.ofNat n) := by decide
  have hletter : ∀ n < 6,
      hexDigit? (0x61 + UInt8.ofNat n) = some (10 + UInt8.ofNat n) ∧
      hexDigit? (0x41 + UInt8.ofNat n) = some (10 + UInt8.ofNat n) := by decide
  cases h with
  | digit hn =>
    have hfound := hdigit v.toNat (UInt8.lt_iff_toNat_lt.1 hn)
    rwa [UInt8.ofNat_toNat] at hfound
  | @lower n hn =>
    have hfound := (hletter n.toNat (UInt8.lt_iff_toNat_lt.1 hn)).1
    rwa [UInt8.ofNat_toNat] at hfound
  | @upper n hn =>
    have hfound := (hletter n.toNat (UInt8.lt_iff_toNat_lt.1 hn)).2
    rwa [UInt8.ofNat_toNat] at hfound

theorem exists_hexValue_iff {b : UInt8} : (∃ v, HexValue b v) ↔ ∃ v, hexDigit? b = some v :=
  exists_congr fun _ => ⟨hexDigit?_of_hexValue, hexValue_of_hexDigit?⟩

theorem escape_of_hexValue {high low h l : UInt8} (hh : HexValue high h) (hl : HexValue low l) :
    escape high low = [16 * h + l] := by
  rw [escape, hexDigit?_of_hexValue hh, hexDigit?_of_hexValue hl]

theorem escape_of_malformed {high low : UInt8}
    (h : ¬ ((∃ v, HexValue high v) ∧ ∃ v, HexValue low v)) :
    escape high low = [percentSign, high, low] := by
  rw [exists_hexValue_iff, exists_hexValue_iff] at h
  unfold escape
  cases hhigh : hexDigit? high with
  | none => rfl
  | some u =>
    cases hlow : hexDigit? low with
    | none => rfl
    | some v => exact absurd ⟨⟨u, hhigh⟩, v, hlow⟩ h

/-! ## What all units stand for -/

theorem standsFor_unescape (bytes : List UInt8) : StandsFor bytes (unescape bytes) := by
  fun_induction unescape bytes with
  | case1 => exact .nil
  | case2 high low rest ih =>
    by_cases h : (∃ v, HexValue high v) ∧ ∃ v, HexValue low v
    · obtain ⟨⟨u, hu⟩, v, hv⟩ := h
      rw [escape_of_hexValue hu hv]
      exact .escape hu hv ih
    · rw [escape_of_malformed h]
      exact .malformed h ih
  | case3 rest short =>
    refine .truncated ?_
    match rest with
    | [] => decide
    | [_] => exact Nat.lt_succ_self 1
    | high :: low :: tail => exact (short high low tail rfl).elim
  | case4 b rest hb ih =>
    unfold plain
    split
    · next hplus => exact hplus ▸ .plus ih
    · next hplus => exact .other hb hplus ih

/-- **Every component stands for exactly one sequence of bytes.** -/
theorem standsFor_iff : StandsFor bytes out ↔ out = unescape bytes := by
  constructor
  · intro h
    induction h with
    | nil => rfl
    | escape hh hl _ ih =>
      rw [ih, unescape_escape, escape_of_hexValue hh hl, List.singleton_append]
    | malformed h _ ih =>
      rw [ih, unescape_escape, escape_of_malformed h]
      rfl
    | truncated h =>
      refine (unescape_truncated fun high low tail e => ?_).symm
      rw [e, List.length_cons, List.length_cons] at h
      omega
    | plus _ ih => rw [ih, unescape_cons_of_ne (by decide), plain, if_pos rfl]
    | other hpercent hplus _ ih =>
      rw [ih, unescape_cons_of_ne hpercent, plain, if_neg hplus]
  · rintro rfl
    exact standsFor_unescape bytes

/-- No unit stands for more bytes than it has. -/
theorem StandsFor.length_le (h : StandsFor bytes out) : out.length ≤ bytes.length := by
  induction h with
  | nil => exact Nat.le_refl 0
  | truncated => exact Nat.le_refl _
  | escape | malformed | plus | other =>
    simp only [List.length_cons]
    omega

/-! ## The limit -/

/-- **The limit is exact.** A text stands for exactly one sequence of bytes. It cannot be decoded if
and only if these bytes are more than 64 KB, and otherwise it is decoded to the text that they are
read as. So no text of at most 64 KB is given up. -/
theorem decoding_exact (s : String) : ∃ out, StandsFor (Utf8.encode s.toList) out ∧
    (∀ out', StandsFor (Utf8.encode s.toList) out' → out' = out) ∧
    (decodeComponent s.toList = .error .tooLong ↔ 65536 < out.length) ∧
    (out.length ≤ 65536 →
      decodeComponent s.toList = .ok (String.ofList (Utf8.decodeLossy out))) ∧
    (s.utf8ByteSize ≤ 65536 → ∃ t, decodeComponent s.toList = .ok t) := by
  have hmax : maxDecodedSize = 65536 := rfl
  have hstands := standsFor_unescape (Utf8.encode s.toList)
  have hok (h : (unescape (Utf8.encode s.toList)).length ≤ 65536) :
      decodeComponent s.toList = .ok (String.ofList (Utf8.decodeLossy _)) :=
    decodeComponent_eq_ok_iff.2 ⟨h, rfl⟩
  refine ⟨_, hstands, fun out' h => standsFor_iff.1 h, ⟨fun h => ?_, fun h => ?_⟩, hok,
    fun h => ⟨_, hok ?_⟩⟩
  · refine Nat.lt_of_not_le fun hle => ?_
    rw [hok hle] at h
    cases h
  · cases hd : decodeComponent s.toList with
    | error e => rfl
    | ok t =>
      have hle := (decodeComponent_eq_ok_iff.1 hd).1
      omega
  · have hsize : (Utf8.encode s.toList).length = s.utf8ByteSize := Utf8.size_eq_utf8ByteSize s
    exact hstands.length_le.trans (hsize ▸ h)

theorem encode_letters (n : Nat) (cs : List Char) :
    Utf8.encode (List.replicate n 'x' ++ cs) = List.replicate n 0x78 ++ Utf8.encode cs := by
  induction n with
  | zero => rfl
  | succ n ih =>
    rw [List.replicate_succ, List.cons_append, Utf8.encode_cons, ih]
    rfl

theorem StandsFor.letters (h : StandsFor bytes out) (n : Nat) :
    StandsFor (List.replicate n 0x78 ++ bytes) (List.replicate n 0x78 ++ out) := by
  induction n with
  | zero => exact h
  | succ n ih => exact .other (by decide) (by decide) ih

/-- A malformed escape up to the limit, and one that passes it by a single byte of its three. -/
theorem decoding_exact_at_limit :
    let text n := String.ofList (List.replicate n 'x' ++ ['%', 'z', '%'])
    (∃ t, decodeComponent (text 65533).toList = .ok t) ∧
      decodeComponent (text 65534).toList = .error .tooLong := by
  intro text
  have hz : ¬ ((∃ v, HexValue 0x7A v) ∧ ∃ v, HexValue 0x25 v) := by
    rintro ⟨⟨v, hv⟩, -⟩
    have hnone : hexDigit? 0x7A = none := by decide
    rw [hexDigit?_of_hexValue hv] at hnone
    cases hnone
  have hstands (n : Nat) : StandsFor (Utf8.encode (text n).toList)
      (List.replicate n 0x78 ++ [percentSign, 0x7A, 0x25]) := by
    rw [String.toList_ofList, encode_letters]
    exact StandsFor.letters (.malformed hz .nil) n
  have hlength (n : Nat) :
      (List.replicate n 0x78 ++ [percentSign, 0x7A, 0x25]).length = n + 3 := by
    rw [List.length_append, List.length_replicate]
    rfl
  obtain ⟨short, -, hshort, -, hok, -⟩ := decoding_exact (text 65533)
  obtain ⟨long, -, hlong, herror, -, -⟩ := decoding_exact (text 65534)
  constructor
  · refine ⟨_, hok ?_⟩
    rw [← hshort _ (hstands _), hlength]
  · refine herror.2 ?_
    rw [← hlong _ (hstands _), hlength]
    decide

end QueryFilter.Percent
