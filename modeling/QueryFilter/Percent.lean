import QueryFilter.Text.Numeral
import QueryFilter.Text.Utf8

/-!
# Percent decoding

A component of a query string is a sequence of units. A percent sign covers the two bytes behind
it: with two hexadecimal digits it stands for one byte, and otherwise it and what it covers are
kept as written. A plus sign stands for a space, and any other byte for itself.

* `unescape`: what a component decodes to, however long;
* `unescapeWithin?`: the same, given up as soon as a limit is passed (`unescapeWithin?_eq`);
* **`decodeComponent`**: the text of a component, or the failure of an output over the limit
  (`decodeComponent_eq_ok_iff`).
-/

namespace QueryFilter.Percent

/-- The greatest length of a decoded component, in bytes. -/
def maxDecodedSize : Nat := 64 * 1024

/-- Failure to decode a component. -/
inductive DecodeError where
  /-- The decoded component is longer than the limit. -/
  | tooLong
  deriving DecidableEq

/-- The wording of the failure. -/
def DecodeError.message : DecodeError → String
  | tooLong =>
    "url decoded output exceeds maximum length (" ++ toString (maxDecodedSize / 1024) ++ "KB limit)"

/-- The value of a byte that is a hexadecimal digit. -/
def hexDigit? (b : UInt8) : Option UInt8 :=
  (Numeral.digit? 16 (Char.ofNat b.toNat)).map UInt8.ofNat

/-- The byte of a percent sign. -/
def percentSign : UInt8 := 0x25

/-- What a percent sign and the two bytes behind it stand for. -/
def escape (high low : UInt8) : List UInt8 :=
  match hexDigit? high, hexDigit? low with
  | some h, some l => [16 * h + l]
  | _, _ => [percentSign, high, low]

/-- What a byte other than a percent sign stands for. -/
def plain (b : UInt8) : UInt8 :=
  if b = 0x2B then 0x20 else b

/-- What the bytes of a component stand for. -/
def unescape : List UInt8 → List UInt8
  | [] => []
  | b :: rest =>
    if b = percentSign then
      match rest with
      | high :: low :: rest => escape high low ++ unescape rest
      | rest => b :: rest
    else plain b :: unescape rest

/-- What the bytes of a component stand for, behind `done`, which is reversed; none as soon as the
units stand for more bytes than there is room for. -/
def unescapeWithin? (room : Nat) (done : List UInt8) : List UInt8 → Option (List UInt8)
  | [] => some done.reverse
  | b :: rest =>
    if b = percentSign then
      match rest with
      | high :: low :: rest =>
        let unit := escape high low
        if room < unit.length then none
        else unescapeWithin? (room - unit.length) (unit.reverse ++ done) rest
      | rest =>
        let unit := b :: rest
        if room < unit.length then none else some (done.reverse ++ unit)
    else if room < 1 then none
    else unescapeWithin? (room - 1) (plain b :: done) rest

/-! ## The early exit is exact -/

theorem unescape_cons_of_ne {b : UInt8} (h : b ≠ percentSign) (rest : List UInt8) :
    unescape (b :: rest) = plain b :: unescape rest := by
  match rest with
  | [] => simp [unescape, h]
  | [_] => simp [unescape, h]
  | _ :: _ :: _ => rw [unescape, if_neg h]

theorem unescape_escape (high low : UInt8) (rest : List UInt8) :
    unescape (percentSign :: high :: low :: rest) = escape high low ++ unescape rest := by
  rw [unescape, if_pos rfl]

theorem unescape_truncated {rest : List UInt8}
    (h : ∀ high low tail, rest = high :: low :: tail → False) :
    unescape (percentSign :: rest) = percentSign :: rest := by
  match rest with
  | [] => rfl
  | [_] => rfl
  | high :: low :: tail => exact (h high low tail rfl).elim

/-- **The early exit is exact**: it is taken if and only if the whole output is too long. -/
theorem unescapeWithin?_eq (room : Nat) (done bytes : List UInt8) :
    unescapeWithin? room done bytes =
      if room < (unescape bytes).length then none else some (done.reverse ++ unescape bytes) := by
  fun_induction unescapeWithin? room done bytes with
  | case1 room done => simp [unescape]
  | case2 room done high low rest unit excess =>
    have hu : unit.length = (escape high low).length := rfl
    rw [unescape_escape, List.length_append, if_pos (by omega)]
  | case3 room done high low rest unit fits ih =>
    have hu : unit.length = (escape high low).length := rfl
    rw [ih, unescape_escape, List.length_append]
    by_cases h : room - unit.length < (unescape rest).length
    · rw [if_pos h, if_pos (by omega)]
    · rw [if_neg h, if_neg (by omega)]
      simp [unit]
  | case4 room done rest short unit excess => rw [unescape_truncated short, if_pos excess]
  | case5 room done rest short unit fits => rw [unescape_truncated short, if_neg fits]
  | case6 room done b rest ne excess =>
    rw [unescape_cons_of_ne ne, List.length_cons, if_pos (by omega)]
  | case7 room done b rest ne fits ih =>
    rw [ih, unescape_cons_of_ne ne, List.length_cons]
    by_cases h : room - 1 < (unescape rest).length
    · rw [if_pos h, if_pos (by omega)]
    · rw [if_neg h, if_neg (by omega)]
      simp

/-! ## Components -/

/-- **The text of a component.** Bytes that are no UTF-8 are replaced in it. -/
def decodeComponent (component : List Char) : Except DecodeError String :=
  match unescapeWithin? maxDecodedSize [] (Utf8.encode component) with
  | none => .error .tooLong
  | some out => .ok (String.ofList (Utf8.decodeLossy out))

/-- A component is decoded if what its units stand for keeps to the limit. -/
theorem decodeComponent_eq_ok_iff {component : List Char} {t : String} :
    decodeComponent component = .ok t ↔
      (unescape (Utf8.encode component)).length ≤ maxDecodedSize ∧
        t = String.ofList (Utf8.decodeLossy (unescape (Utf8.encode component))) := by
  rw [decodeComponent, unescapeWithin?_eq, List.reverse_nil, List.nil_append, ← Nat.not_lt]
  by_cases h : maxDecodedSize < (unescape (Utf8.encode component)).length
  · simp [h]
  · simp [h, eq_comm]

end QueryFilter.Percent
