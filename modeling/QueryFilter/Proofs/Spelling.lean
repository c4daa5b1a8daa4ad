import QueryFilter.Percent
import QueryFilter.Proofs.ByteOrder
import Mathlib.Data.List.Forall2

/-!
# Spellings of a component

A component of a query string can be written in many ways: each character as it is, where it has no
other meaning, or as the escapes of its bytes, and a space as a plus sign. Decoding does not tell
them apart.

* `SpellsByte`, `SpellsChar`, `Spells`: the spellings of bytes, characters and texts;
* **`unescape_spelling`**: a spelling stands for the bytes of its text, whatever follows;
* `decodeComponent_spelling`: a text of at most 64 KB is decoded from each of its spellings;
* `not_mem_of_spells`: a separator that has to be escaped does not occur in a spelling;
* `tail_of_spells_cons`: a separator at the start of a spelling is the first of the text.
-/

namespace QueryFilter.Percent

/-! ## Spellings -/

/-- The hexadecimal digits of a value below 16, in either case. -/
def hexDigits (n : Nat) : List Char :=
  [n.digitChar, n.digitChar.toUpper]

/-- The escape of a byte. -/
inductive SpellsByte (b : UInt8) : List Char → Prop
  | escape {high low : Char} (hh : high ∈ hexDigits (b.toNat / 16))
    (hl : low ∈ hexDigits (b.toNat % 16)) : SpellsByte b ['%', high, low]

/-- The spellings of a character where the characters in `special` have to be escaped. -/
inductive SpellsChar (special : List Char) (c : Char) : List Char → Prop
  | literal (h : c ∉ special) : SpellsChar special c [c]
  | plus (h : c = ' ') : SpellsChar special c ['+']
  | escaped {escapes : List (List Char)}
    (h : List.Forall₂ SpellsByte (String.utf8EncodeChar c) escapes) :
    SpellsChar special c escapes.flatten

/-- **The spellings of a text**, character by character. -/
inductive Spells (special : List Char) : List Char → List Char → Prop
  | nil : Spells special [] []
  | cons {c : Char} {cs us vs : List Char} (hc : SpellsChar special c us)
    (hcs : Spells special cs vs) : Spells special (c :: cs) (us ++ vs)

/-- The characters that are escaped in a value. -/
def specialInValue : List Char := ['%', '+', '&']

/-- The characters that are escaped in a key. -/
def specialInKey : List Char := ['%', '+', '&', '=']

/-! ## Digits -/

theorem hexDigits_facts {n : Nat} (hn : n < 16) {d : Char} (hd : d ∈ hexDigits n) :
    d.toNat < 0x80 ∧ hexDigit? (UInt8.ofNat d.toNat) = some (UInt8.ofNat n) := by
  have hall : ∀ n < 16, (hexDigits n).all fun d =>
      d.toNat < 0x80 ∧ hexDigit? (UInt8.ofNat d.toNat) = some (UInt8.ofNat n) := by decide
  exact of_decide_eq_true (List.all_eq_true.1 (hall n hn) d hd)

theorem escape_of_mem_hexDigits {b : UInt8} {high low : Char}
    (hh : high ∈ hexDigits (b.toNat / 16)) (hl : low ∈ hexDigits (b.toNat % 16)) :
    escape (UInt8.ofNat high.toNat) (UInt8.ofNat low.toNat) = [b] := by
  have hb := b.toNat_lt
  have hhigh := (hexDigits_facts (by omega) hh).2
  have hlow := (hexDigits_facts (by omega) hl).2
  have hvalue : 16 * UInt8.ofNat (b.toNat / 16) + UInt8.ofNat (b.toNat % 16) = b := by
    apply UInt8.toNat_inj.1
    rw [UInt8.toNat_add, UInt8.toNat_mul, UInt8.toNat_ofNat', UInt8.toNat_ofNat']
    show (16 * _ % 256 + _) % 256 = _
    omega
  unfold escape
  rw [hhigh, hlow]
  exact congrArg (fun u => [u]) hvalue

/-! ## Bytes of characters -/

theorem encodeChar_of_lt {c : Char} (h : c.toNat < 0x80) :
    String.utf8EncodeChar c = [UInt8.ofNat c.toNat] := by
  rw [Utf8.encodeChar_eq_coded, if_pos (by omega), Utf8.coded, Utf8.trailing, Nat.pow_zero,
    Nat.div_one, Nat.add_zero]

theorem le_of_mem_trailing {b : UInt8} {k v : Nat} (h : b ∈ Utf8.trailing k v) :
    0x80 ≤ b.toNat := by
  induction k with
  | zero => exact absurd h List.not_mem_nil
  | succ k ih =>
    rw [Utf8.trailing] at h
    rcases List.mem_cons.1 h with rfl | h
    · rw [UInt8.toNat_ofNat']
      omega
    · exact ih h

theorem le_of_mem_coded {b : UInt8} {base k v : Nat} (hbase : 0xC0 ≤ base)
    (hv : v / 64 ^ k + base < 256) (h : b ∈ Utf8.coded base k v) : 0x80 ≤ b.toNat := by
  rw [Utf8.coded] at h
  rcases List.mem_cons.1 h with rfl | h
  · rw [Utf8.toNat_ofNat_of_lt hv]
    exact Nat.le_trans (by omega) (Nat.le_add_left _ _)
  · exact le_of_mem_trailing h

/-- A byte below 0x80 occurs in no character but its own. -/
theorem toNat_eq_of_mem_encodeChar {b : UInt8} {c : Char} (hb : b.toNat < 0x80)
    (h : b ∈ String.utf8EncodeChar c) : c.toNat = b.toNat := by
  by_cases hc : c.toNat < 0x80
  · rw [encodeChar_of_lt hc, List.mem_singleton] at h
    rw [h, Utf8.toNat_ofNat_of_lt (by omega)]
  · have hvalid := c.valid
    simp only [UInt32.isValidChar, Nat.isValidChar] at hvalid
    have hmax : c.toNat < 0x110000 := by
      show c.val.toNat < 0x110000
      omega
    rw [Utf8.encodeChar_eq_coded, if_neg (by omega)] at h
    have hle : 0x80 ≤ b.toNat := by
      split at h
      · exact le_of_mem_coded (by omega) (by omega) h
      · split at h
        · exact le_of_mem_coded (by omega) (by omega) h
        · exact le_of_mem_coded (by omega) (by omega) h
    omega

theorem ne_of_mem_encodeChar {b : UInt8} {c d : Char} (hd : d.toNat < 0x80) (hne : c ≠ d)
    (h : b ∈ String.utf8EncodeChar c) : b ≠ UInt8.ofNat d.toNat := by
  rintro rfl
  have hn : (UInt8.ofNat d.toNat).toNat = d.toNat := Utf8.toNat_ofNat_of_lt (by omega)
  refine hne (Char.toNat_inj.1 ?_)
  rw [toNat_eq_of_mem_encodeChar (by omega) h, hn]

/-! ## Reading a spelling -/

section Reading

variable {special : List Char} {c : Char} {cs us : List Char}

theorem unescape_append_of_ne {bytes : List UInt8} (h : ∀ b ∈ bytes, b ≠ percentSign ∧ b ≠ 0x2B)
    (rest : List UInt8) : unescape (bytes ++ rest) = bytes ++ unescape rest := by
  induction bytes with
  | nil => rfl
  | cons b bytes ih =>
    obtain ⟨hb, hbytes⟩ := List.forall_mem_cons.1 h
    rw [List.cons_append, unescape_cons_of_ne hb.1, ih hbytes, plain, if_neg hb.2,
      List.cons_append]

theorem unescape_byte {b : UInt8} {vs : List Char} (h : SpellsByte b vs) (rest : List UInt8) :
    unescape (Utf8.encode vs ++ rest) = b :: unescape rest := by
  cases h with
  | @escape high low hh hl =>
    have hb := b.toNat_lt
    have hhigh := (hexDigits_facts (by omega) hh).1
    have hlow := (hexDigits_facts (by omega) hl).1
    have hencode : Utf8.encode ['%', high, low] =
        [percentSign, UInt8.ofNat high.toNat, UInt8.ofNat low.toNat] := by
      rw [Utf8.encode_cons, Utf8.encode_cons, Utf8.encode_cons, encodeChar_of_lt hhigh,
        encodeChar_of_lt hlow]
      rfl
    rw [hencode]
    show unescape (percentSign :: UInt8.ofNat high.toNat :: UInt8.ofNat low.toNat :: rest) = _
    rw [unescape_escape, escape_of_mem_hexDigits hh hl]
    rfl

theorem unescape_escapes {bytes : List UInt8} {escapes : List (List Char)}
    (h : List.Forall₂ SpellsByte bytes escapes) (rest : List UInt8) :
    unescape (Utf8.encode escapes.flatten ++ rest) = bytes ++ unescape rest := by
  induction h with
  | nil => rfl
  | cons hb _ ih =>
    rw [List.flatten_cons, Utf8.encode_append, List.append_assoc, unescape_byte hb, ih, List.cons_append]

theorem unescape_char (hpercent : '%' ∈ special) (hplus : '+' ∈ special)
    (h : SpellsChar special c us) (rest : List UInt8) :
    unescape (Utf8.encode us ++ rest) = String.utf8EncodeChar c ++ unescape rest := by
  cases h with
  | literal hc =>
    rw [Utf8.encode_cons, show Utf8.encode [] = [] from rfl, List.append_nil]
    have hnepercent : c ≠ '%' := fun e => hc (e ▸ hpercent)
    have hneplus : c ≠ '+' := fun e => hc (e ▸ hplus)
    exact unescape_append_of_ne (fun b hb =>
      ⟨ne_of_mem_encodeChar (by decide) hnepercent hb,
        ne_of_mem_encodeChar (by decide) hneplus hb⟩) rest
  | plus hc =>
    subst hc
    show unescape (0x2B :: rest) = 0x20 :: unescape rest
    rw [unescape_cons_of_ne (by decide)]
    rfl
  | escaped hbytes => exact unescape_escapes hbytes rest

/-- **A spelling stands for the bytes of its text**, whatever follows. -/
theorem unescape_spelling (hpercent : '%' ∈ special) (hplus : '+' ∈ special)
    (h : Spells special cs us) (rest : List UInt8) :
    unescape (Utf8.encode us ++ rest) = Utf8.encode cs ++ unescape rest := by
  -- on the spelling: each character is written with whole units, so that none reaches into `rest`
  induction h with
  | nil => rfl
  | cons hc _ ih =>
    rw [Utf8.encode_append, List.append_assoc, unescape_char hpercent hplus hc, ih, Utf8.encode_cons,
      List.append_assoc]

theorem decodeComponent_spelling {s : String} (hpercent : '%' ∈ special) (hplus : '+' ∈ special)
    (h : Spells special s.toList us) (hsize : s.utf8ByteSize ≤ maxDecodedSize) :
    decodeComponent us = .ok s := by
  have hout : unescape (Utf8.encode us) = Utf8.encode s.toList := by
    have := unescape_spelling hpercent hplus h []
    rwa [List.append_nil, unescape, List.append_nil] at this
  have hlength : (Utf8.encode s.toList).length ≤ maxDecodedSize := by
    rw [← Utf8.size_eq_utf8ByteSize] at hsize
    exact hsize
  rw [decodeComponent_eq_ok_iff, hout, Utf8.decodeLossy_encode, String.ofList_toList]
  exact ⟨hlength, rfl⟩

end Reading

/-! ## What occurs in a spelling -/

/-- A character that neither escapes nor plus signs are written with. -/
def IsSeparator (d : Char) : Prop :=
  d ≠ '%' ∧ d ≠ '+' ∧ ∀ n < 16, d ∉ hexDigits n

instance (d : Char) : Decidable (IsSeparator d) :=
  inferInstanceAs (Decidable (_ ∧ _ ∧ _))

section Separator

variable {special : List Char} {c d : Char} {cs us : List Char}

theorem not_mem_of_spellsByte (hd : IsSeparator d) {b : UInt8} (h : SpellsByte b us) :
    d ∉ us := by
  have hb := b.toNat_lt
  cases h with
  | escape hh hl =>
    intro hmem
    rcases List.mem_cons.1 hmem with e | hmem
    · exact hd.1 e
    rcases List.mem_cons.1 hmem with e | hmem
    · exact hd.2.2 _ (by omega) (e ▸ hh)
    · exact hd.2.2 _ (by omega) (List.mem_singleton.1 hmem ▸ hl)

theorem not_mem_of_escapes (hd : IsSeparator d) {bytes : List UInt8} {escapes : List (List Char)}
    (h : List.Forall₂ SpellsByte bytes escapes) : d ∉ escapes.flatten := by
  induction h with
  | nil => exact List.not_mem_nil
  | cons hb _ ih =>
    rw [List.flatten_cons, List.mem_append]
    exact fun hmem => hmem.elim (not_mem_of_spellsByte hd hb) ih

theorem not_mem_of_spellsChar (hd : IsSeparator d) (hspecial : d ∈ special)
    (h : SpellsChar special c us) : d ∉ us := by
  cases h with
  | literal hc =>
    intro hmem
    exact hc (List.mem_singleton.1 hmem ▸ hspecial)
  | plus hc => exact fun hmem => hd.2.1 (List.mem_singleton.1 hmem)
  | escaped hbytes => exact not_mem_of_escapes hd hbytes

/-- A separator that has to be escaped does not occur in a spelling. -/
theorem not_mem_of_spells (hd : IsSeparator d) (hspecial : d ∈ special)
    (h : Spells special cs us) : d ∉ us := by
  induction h with
  | nil => exact List.not_mem_nil
  | cons hc _ ih =>
    rw [List.mem_append]
    exact fun hmem => hmem.elim (not_mem_of_spellsChar hd hspecial hc) ih

theorem spellsChar_cons (hd : IsSeparator d) (h : SpellsChar special c (d :: us)) :
    c = d ∧ us = [] := by
  generalize hw : d :: us = w at h
  cases h with
  | literal =>
    injection hw with hdc hus
    exact ⟨hdc.symm, hus⟩
  | plus =>
    injection hw with hdc
    exact absurd hdc hd.2.1
  | escaped hbytes =>
    have hmem : d ∈ d :: us := List.mem_cons_self
    exact absurd (hw ▸ hmem) (not_mem_of_escapes hd hbytes)

theorem spellsChar_ne_nil (h : SpellsChar special c us) : us ≠ [] := by
  cases h with
  | literal => exact List.cons_ne_nil _ _
  | plus => exact List.cons_ne_nil _ _
  | escaped hbytes =>
    generalize he : String.utf8EncodeChar c = bytes at hbytes
    cases hbytes with
    | nil => exact absurd he String.utf8EncodeChar_ne_nil
    | cons hb _ =>
      cases hb with
      | escape => exact List.cons_ne_nil _ _

/-- A separator at the start of a spelling is the first character of the text. -/
theorem tail_of_spells_cons (hd : IsSeparator d) (h : Spells special cs (d :: us)) :
    ∃ cs', cs = d :: cs' ∧ Spells special cs' us := by
  generalize hw : d :: us = w at h
  cases h with
  | nil => exact absurd hw (List.cons_ne_nil _ _)
  | @cons c cs vs ws hc hcs =>
    match vs with
    | [] => exact absurd rfl (spellsChar_ne_nil hc)
    | v :: vs =>
      rw [List.cons_append] at hw
      injection hw with hdv hus
      subst hdv
      obtain ⟨rfl, rfl⟩ := spellsChar_cons hd hc
      exact ⟨cs, rfl, hus ▸ hcs⟩

end Separator

end QueryFilter.Percent
