import QueryFilter.Text.Utf8
import Mathlib.Data.String.Basic

/-!
# The order of bytes

Strings are ordered by their characters. This is the order of their UTF-8 bytes as well: a character
is a leading byte, which grows with the length of the encoding, followed by digits of base 64.

* `Utf8.trailing`, `Utf8.coded`: the bytes of a number in an encoding of given length;
* `Utf8.encodeChar_append_lt`: a smaller character has smaller bytes, whatever follows;
* **`Utf8.encode_lt_encode_iff`**: texts are ordered as their bytes are;
* `Utf8.size_eq_utf8ByteSize`: the length in bytes is that of the string type.
-/

namespace QueryFilter.Utf8

/-! ## Comparing bytes -/

theorem cons_ofNat_lt {m n : Nat} (h : m < n) (hn : n < 256) (us ws : List UInt8) :
    UInt8.ofNat m :: us < UInt8.ofNat n :: ws := by
  refine List.cons_lt_cons_iff.2 (.inl (UInt8.lt_iff_toNat_lt.2 ?_))
  rwa [toNat_ofNat_of_lt (by omega), toNat_ofNat_of_lt hn]

theorem append_lt_append {us ws : List UInt8} (hl : us.length = ws.length) (h : us < ws)
    (xs ys : List UInt8) : us ++ xs < ws ++ ys := by
  induction us generalizing ws with
  | nil =>
    rw [List.eq_nil_of_length_eq_zero hl.symm] at h
    exact absurd h (List.not_lt_nil _)
  | cons u us ih =>
    match ws with
    | [] => exact absurd h (List.not_lt_nil _)
    | w :: ws =>
      rw [List.cons_append, List.cons_append, List.cons_lt_cons_iff]
      exact (List.cons_lt_cons_iff.1 h).imp id fun ⟨e, ht⟩ => ⟨e, ih (by simpa using hl) ht⟩

/-! ## Digits of base 64 -/

/-- The last `k` digits of a number, as the trailing bytes of a character. -/
def trailing : Nat → Nat → List UInt8
  | 0, _ => []
  | k + 1, v => UInt8.ofNat (v / 64 ^ k % 64 + 0x80) :: trailing k v

/-- The bytes of a number with `k` trailing bytes, the leading one counted from `base`. -/
def coded (base k v : Nat) : List UInt8 :=
  UInt8.ofNat (v / 64 ^ k + base) :: trailing k v

theorem length_trailing (k v : Nat) : (trailing k v).length = k := by
  induction k with
  | zero => rfl
  | succ k ih => rw [trailing, List.length_cons, ih]

theorem length_coded (base k v : Nat) : (coded base k v).length = k + 1 := by
  rw [coded, List.length_cons, length_trailing]

theorem trailing_lt {k v w : Nat} (h : v < w) (he : v / 64 ^ k = w / 64 ^ k) :
    trailing k v < trailing k w := by
  induction k with
  | zero =>
    rw [Nat.pow_zero, Nat.div_one, Nat.div_one] at he
    omega
  | succ k ih =>
    rw [Nat.pow_succ, ← Nat.div_div_eq_div_mul, ← Nat.div_div_eq_div_mul] at he
    have hle : v / 64 ^ k ≤ w / 64 ^ k := Nat.div_le_div_right h.le
    rw [trailing, trailing]
    by_cases heq : v / 64 ^ k = w / 64 ^ k
    · rw [heq]
      exact List.cons_lt_cons_iff.2 (.inr ⟨rfl, ih heq⟩)
    · exact cons_ofNat_lt (by omega) (by omega) _ _

theorem coded_lt {base k v w : Nat} (h : v < w) (hw : w / 64 ^ k + base < 256) :
    coded base k v < coded base k w := by
  have hle : v / 64 ^ k ≤ w / 64 ^ k := Nat.div_le_div_right h.le
  by_cases heq : v / 64 ^ k = w / 64 ^ k
  · rw [coded, coded, heq]
    exact List.cons_lt_cons_iff.2 (.inr ⟨rfl, trailing_lt h heq⟩)
  · exact cons_ofNat_lt (by omega) hw _ _

theorem encodeChar_eq_coded (c : Char) :
    String.utf8EncodeChar c =
      if c.toNat ≤ 0x7F then coded 0 0 c.toNat
      else if c.toNat ≤ 0x7FF then coded 0xC0 1 c.toNat
      else if c.toNat ≤ 0xFFFF then coded 0xE0 2 c.toNat
      else coded 0xF0 3 c.toNat := by
  have hc := c.valid
  simp only [UInt32.isValidChar, Nat.isValidChar] at hc
  unfold String.utf8EncodeChar Char.toNat
  generalize c.val.toNat = v at *
  simp only [coded, trailing, Nat.pow_zero, Nat.div_one, Nat.reducePow]
  split
  · rfl
  · split
    · rw [Nat.mod_eq_of_lt (show v / 64 < 0x20 by omega)]
    · split
      · rw [Nat.mod_eq_of_lt (show v / 4096 < 0x10 by omega)]
      · rw [Nat.mod_eq_of_lt (show v / 262144 < 0x08 by omega)]

/-! ## Texts -/

theorem encodeChar_append_lt {c d : Char} (h : c < d) (xs ys : List UInt8) :
    String.utf8EncodeChar c ++ xs < String.utf8EncodeChar d ++ ys := by
  have hvw : c.toNat < d.toNat := h
  have hw : d.toNat < 0x110000 := by
    have hd := d.valid
    simp only [UInt32.isValidChar, Nat.isValidChar] at hd
    show d.val.toNat < 0x110000
    omega
  rw [encodeChar_eq_coded, encodeChar_eq_coded]
  generalize c.toNat = v at *
  generalize d.toNat = w at *
  have same {base k : Nat} (hk : w / 64 ^ k + base < 256) :
      coded base k v ++ xs < coded base k w ++ ys :=
    append_lt_append (by rw [length_coded, length_coded]) (coded_lt hvw hk) xs ys
  -- encodings of one length differ in a digit, those of two lengths in the leading byte
  split
  · split
    · exact same (by omega)
    · split
      · exact cons_ofNat_lt (by omega) (by omega) _ _
      · split <;> exact cons_ofNat_lt (by omega) (by omega) _ _
  · rw [if_neg (show ¬ w ≤ 0x7F by omega)]
    split
    · split
      · exact same (by omega)
      · split <;> exact cons_ofNat_lt (by omega) (by omega) _ _
    · rw [if_neg (show ¬ w ≤ 0x7FF by omega)]
      split
      · split
        · exact same (by omega)
        · exact cons_ofNat_lt (by omega) (by omega) _ _
      · rw [if_neg (show ¬ w ≤ 0xFFFF by omega)]
        exact same (by omega)

theorem encode_cons (c : Char) (cs : List Char) :
    encode (c :: cs) = String.utf8EncodeChar c ++ encode cs := List.flatMap_cons ..

theorem encode_append (as bs : List Char) : encode (as ++ bs) = encode as ++ encode bs :=
  List.flatMap_append

theorem encode_lt_encode {as bs : List Char} (h : as < bs) : encode as < encode bs := by
  induction h with
  | @nil b bs =>
    rw [encode_cons]
    match he : String.utf8EncodeChar b with
    | [] => exact absurd he String.utf8EncodeChar_ne_nil
    | u :: us => exact List.nil_lt_cons _ _
  | @cons a as bs _ ih =>
    rw [encode_cons, encode_cons]
    exact List.append_left_lt ih
  | @rel a as b bs hab =>
    rw [encode_cons, encode_cons]
    exact encodeChar_append_lt hab _ _

/-- **Texts are ordered as their bytes are.** -/
theorem encode_lt_encode_iff {as bs : List Char} : encode as < encode bs ↔ as < bs := by
  refine ⟨fun h => ?_, encode_lt_encode⟩
  rcases lt_trichotomy as bs with lt | rfl | gt
  · exact lt
  · exact absurd h (List.lt_irrefl _)
  · exact absurd h (List.lt_asymm (encode_lt_encode gt))

theorem size_eq_utf8ByteSize (s : String) : size s = s.utf8ByteSize := by
  rw [← String.size_toByteArray, ← s.ofList_toList, String.toByteArray_ofList, List.utf8Encode,
    List.size_toByteArray, String.ofList_toList, size, encode]

theorem utf8ByteSize_ofList (cs : List Char) :
    (String.ofList cs).utf8ByteSize = (encode cs).length := by
  rw [← size_eq_utf8ByteSize, size, String.toList_ofList]

end QueryFilter.Utf8
