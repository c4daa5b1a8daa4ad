/-!
# UTF-8

Characters as bytes and bytes as characters. Reading never fails: the bytes of an ill-formed
sequence are replaced. A character that breaks off counts once, with all the bytes that could
still have begun one, and the byte that breaks it off is read afresh.

* `encode`: the bytes of a text;
* `Partial`, `Decoder`: the state of a reader between two bytes;
* `decodeLossy`: the text of any bytes, with U+FFFD for each ill-formed sequence;
* `decode?`: the text of well-formed bytes only;
* **`decodeLossy_encode`**: reading recovers every text from its bytes.
-/

namespace QueryFilter.Utf8

/-- The bytes of a text. -/
def encode (cs : List Char) : List UInt8 :=
  cs.flatMap String.utf8EncodeChar

/-- The length of a string in bytes. -/
def size (s : String) : Nat :=
  (encode s.toList).length

/-- A character of which some bytes have been read. The next byte lies between `low` and `high`,
and `further` bytes follow it; `code` is the number that the bytes read so far spell. -/
structure Partial where
  low : Nat
  high : Nat
  further : Nat
  code : Nat

/-- What a byte at the start of a character is. -/
inductive Lead where
  /-- A character of one byte. -/
  | whole (c : Char)
  /-- The first byte of a longer character. -/
  | opens (p : Partial)
  /-- A byte that starts no character. -/
  | stray

/-- Reads a byte at the start of a character. The narrower ranges of the second byte shut out
overlong forms, surrogates and numbers above U+10FFFF. -/
def lead (b : UInt8) : Lead :=
  let n := b.toNat
  if n < 0x80 then .whole (Char.ofNat n)
  else if n < 0xC2 then .stray
  else if n < 0xE0 then .opens ⟨0x80, 0xBF, 0, n - 0xC0⟩
  else if n = 0xE0 then .opens ⟨0xA0, 0xBF, 1, 0⟩
  else if n = 0xED then .opens ⟨0x80, 0x9F, 1, 0xD⟩
  else if n < 0xF0 then .opens ⟨0x80, 0xBF, 1, n - 0xE0⟩
  else if n = 0xF0 then .opens ⟨0x90, 0xBF, 2, 0⟩
  else if n < 0xF4 then .opens ⟨0x80, 0xBF, 2, n - 0xF0⟩
  else if n = 0xF4 then .opens ⟨0x80, 0x8F, 2, 4⟩
  else .stray

/-- The character that stands for an ill-formed sequence. -/
def replacement : Char := '\uFFFD'

/-- A reader between two bytes: the characters read and the one that is open. -/
structure Decoder where
  out : Array Char
  pending : Option Partial

namespace Decoder

/-- Reads a byte at the start of a character. -/
def begin (out : Array Char) (b : UInt8) : Decoder :=
  match lead b with
  | .whole c => ⟨out.push c, none⟩
  | .opens p => ⟨out, some p⟩
  | .stray => ⟨out.push replacement, none⟩

/-- Reads one byte. -/
def step (d : Decoder) (b : UInt8) : Decoder :=
  match d.pending with
  | none => begin d.out b
  | some p =>
    if p.low ≤ b.toNat ∧ b.toNat ≤ p.high then
      let code := 64 * p.code + b.toNat % 64
      match p.further with
      | 0 => ⟨d.out.push (Char.ofNat code), none⟩
      | further + 1 => ⟨d.out, some ⟨0x80, 0xBF, further, code⟩⟩
    else begin (d.out.push replacement) b

/-- The characters read, when no byte follows. -/
def finish (d : Decoder) : List Char :=
  match d.pending with
  | none => d.out.toList
  | some _ => (d.out.push replacement).toList

end Decoder

/-- The text of any bytes, with U+FFFD in the place of each ill-formed sequence. -/
def decodeLossy (bytes : List UInt8) : List Char :=
  (bytes.foldl Decoder.step ⟨#[], none⟩).finish

/-- The text of well-formed bytes. Bytes are well formed when the text read from them has them as
its encoding. -/
def decode? (bytes : List UInt8) : Option (List Char) :=
  let cs := decodeLossy bytes
  if encode cs = bytes then some cs else none

/-! ## Reading back -/

theorem toNat_ofNat_of_lt {n : Nat} (h : n < 256) : (UInt8.ofNat n).toNat = n := by
  rw [UInt8.toNat_ofNat']; omega

/-- A byte that continues the open character. -/
theorem step_continue (out : Array Char) {low high further code n : Nat} (hl : low ≤ n)
    (hh : n ≤ high) (hn : n < 256) :
    Decoder.step ⟨out, some ⟨low, high, further, code⟩⟩ (UInt8.ofNat n) =
      match further with
      | 0 => ⟨out.push (Char.ofNat (64 * code + n % 64)), none⟩
      | further + 1 => ⟨out, some ⟨0x80, 0xBF, further, 64 * code + n % 64⟩⟩ := by
  simp only [Decoder.step, toNat_ofNat_of_lt hn]
  exact if_pos ⟨hl, hh⟩

/-- A byte that opens a character of several bytes. -/
theorem step_open (out : Array Char) {b : UInt8} {p : Partial} (h : lead b = .opens p) :
    Decoder.step ⟨out, none⟩ b = ⟨out, some p⟩ := by
  simp only [Decoder.step, Decoder.begin, h]

theorem opens_congr {low high further code code' : Nat} (h : code = code') :
    Lead.opens ⟨low, high, further, code⟩ = .opens ⟨low, high, further, code'⟩ := by
  rw [h]

theorem lead_two {v : Nat} (hl : 0x80 ≤ v) (hh : v ≤ 0x7FF) :
    lead (UInt8.ofNat (v / 64 % 0x20 + 0xC0)) = .opens ⟨0x80, 0xBF, 0, v / 64⟩ := by
  simp only [lead, toNat_ofNat_of_lt (show v / 64 % 0x20 + 0xC0 < 256 by omega)]
  rw [if_neg (by omega), if_neg (by omega), if_pos (by omega)]
  exact opens_congr (by omega)

theorem lead_three {v : Nat} (hl : 0x800 ≤ v) (hh : v ≤ 0xFFFF)
    (hs : v < 0xD800 ∨ 0xDFFF < v) :
    ∃ low high, lead (UInt8.ofNat (v / 4096 % 0x10 + 0xE0)) = .opens ⟨low, high, 1, v / 4096⟩ ∧
      low ≤ v / 64 % 0x40 + 0x80 ∧ v / 64 % 0x40 + 0x80 ≤ high := by
  simp only [lead, toNat_ofNat_of_lt (show v / 4096 % 0x10 + 0xE0 < 256 by omega)]
  rw [if_neg (by omega), if_neg (by omega), if_neg (by omega)]
  split
  · exact ⟨_, _, opens_congr (by omega), by omega, by omega⟩
  · split
    · exact ⟨_, _, opens_congr (by omega), by omega, by omega⟩
    · rw [if_pos (by omega)]
      exact ⟨_, _, opens_congr (by omega), by omega, by omega⟩

theorem lead_four {v : Nat} (hl : 0x10000 ≤ v) (hh : v < 0x110000) :
    ∃ low high, lead (UInt8.ofNat (v / 262144 % 0x08 + 0xF0)) =
        .opens ⟨low, high, 2, v / 262144⟩ ∧
      low ≤ v / 4096 % 0x40 + 0x80 ∧ v / 4096 % 0x40 + 0x80 ≤ high := by
  simp only [lead, toNat_ofNat_of_lt (show v / 262144 % 0x08 + 0xF0 < 256 by omega)]
  rw [if_neg (by omega), if_neg (by omega), if_neg (by omega), if_neg (by omega),
    if_neg (by omega), if_neg (by omega)]
  split
  · exact ⟨_, _, opens_congr (by omega), by omega, by omega⟩
  · split
    · exact ⟨_, _, opens_congr (by omega), by omega, by omega⟩
    · rw [if_pos (by omega)]
      exact ⟨_, _, opens_congr (by omega), by omega, by omega⟩

theorem push_congr {out : Array Char} {c : Char} {code v : Nat} (hv : Char.ofNat v = c)
    (h : code = v) : (⟨out.push (Char.ofNat code), none⟩ : Decoder) = ⟨out.push c, none⟩ := by
  rw [h, hv]

/-- The bytes of a character are read as that character. -/
theorem foldl_step_encodeChar (out : Array Char) (c : Char) :
    (String.utf8EncodeChar c).foldl Decoder.step ⟨out, none⟩ = ⟨out.push c, none⟩ := by
  have hv : Char.ofNat c.val.toNat = c := Char.ofNat_toNat c
  have hc := c.valid
  simp only [UInt32.isValidChar, Nat.isValidChar] at hc
  unfold String.utf8EncodeChar
  generalize c.val.toNat = v at hc hv ⊢
  simp only
  split
  · simp only [List.foldl_cons, List.foldl_nil, Decoder.step, Decoder.begin, lead,
      toNat_ofNat_of_lt (show v < 256 by omega), if_pos (show v < 0x80 by omega), hv]
  · split
    · rw [List.foldl_cons, step_open out (lead_two (v := v) (by omega) (by omega)), List.foldl_cons,
        step_continue out (by omega) (by omega) (by omega), List.foldl_nil]
      exact push_congr hv (by omega)
    · split
      · obtain ⟨low, high, hlead, hl, hh⟩ := lead_three (v := v) (by omega) (by omega) (by omega)
        rw [List.foldl_cons, step_open out hlead, List.foldl_cons,
          step_continue out hl hh (by omega), List.foldl_cons,
          step_continue out (by omega) (by omega) (by omega), List.foldl_nil]
        exact push_congr hv (by omega)
      · obtain ⟨low, high, hlead, hl, hh⟩ := lead_four (v := v) (by omega) (by omega)
        rw [List.foldl_cons, step_open out hlead, List.foldl_cons,
          step_continue out hl hh (by omega), List.foldl_cons,
          step_continue out (by omega) (by omega) (by omega), List.foldl_cons,
          step_continue out (by omega) (by omega) (by omega), List.foldl_nil]
        exact push_congr hv (by omega)

/-- **Reading recovers every text from its bytes.** -/
theorem decodeLossy_encode (cs : List Char) : decodeLossy (encode cs) = cs := by
  have run (out : Array Char) : (encode cs).foldl Decoder.step ⟨out, none⟩ =
      ⟨out ++ cs, none⟩ := by
    induction cs generalizing out with
    | nil => simp [encode]
    | cons c cs ih =>
      rw [encode, List.flatMap_cons, List.foldl_append, foldl_step_encodeChar]
      rw [← encode, ih]
      simp
  simp [decodeLossy, run, Decoder.finish]

end QueryFilter.Utf8
