import QueryFilter.Proofs.Parse

/-!
# The size of decoded text

The limit on a decoded component is on its bytes before they are read as text. Reading puts a
character of three bytes in the place of each ill-formed sequence, which can have one byte only. So
well-formed text keeps to the limit, and other text passes it by two bytes for each replacement at
most.

* `Utf8.Partial.Bounded`, `Utf8.Decoder.Accounts`: what a reader holds, against the bytes read;
* `Utf8.Decoder.Accounts.step`, `Utf8.Decoder.Accounts.foldl_step`: one byte, and all of them, keep
  the account;
* **`Utf8.paid_decodeLossy`**: the size of text against that of the bytes it was read from;
* `Percent.nearLimit_of_decodeComponent`, `Percent.size_le_of_decodeComponent`: components;
* `RawQuery.decodedFrom_parse`: what a query string holds was decoded from its segments;
* **`RawQuery.decoded_size_le`**: the size of decoded text, and `RawQuery.decoded_size_gt`, a text
  over the limit.
-/

namespace QueryFilter

namespace Utf8

/-! ## Characters -/

theorem utf8Size_eq (c : Char) : c.utf8Size =
    if c.toNat ≤ 0x7F then 1 else if c.toNat ≤ 0x7FF then 2 else if c.toNat ≤ 0xFFFF then 3 else 4 := by
  rw [← String.length_utf8EncodeChar, encodeChar_eq_coded]
  split
  · exact length_coded ..
  · split
    · exact length_coded ..
    · split <;> exact length_coded ..

theorem toNat_ofNat_le (n : Nat) : (Char.ofNat n).toNat ≤ n := by
  by_cases h : n.isValidChar
  · have hn : Char.ofNat n = Char.ofNatAux n h := dif_pos h
    rw [hn]
    exact Nat.le_refl n
  · have hn : Char.ofNat n = '\x00' := dif_neg h
    rw [hn]
    exact Nat.zero_le n

theorem utf8Size_ofNat_le_two {n : Nat} (h : n < 0x800) : (Char.ofNat n).utf8Size ≤ 2 := by
  have hle := toNat_ofNat_le n
  rw [utf8Size_eq]
  split
  · omega
  · rw [if_pos (by omega)]

theorem utf8Size_ofNat_le_three {n : Nat} (h : n < 0x10000) : (Char.ofNat n).utf8Size ≤ 3 := by
  have hle := toNat_ofNat_le n
  rw [utf8Size_eq]
  split
  · omega
  · split
    · omega
    · rw [if_pos (by omega)]

/-! ## The open character -/

/-- Whatever the open character turns out to be, it is no longer than the bytes that it takes, of
which so many have been read. -/
def Partial.Bounded (p : Partial) (read : Nat) : Prop :=
  ∀ n, n < (p.code + 1) * 64 ^ (p.further + 1) → (Char.ofNat n).utf8Size ≤ read + p.further + 1

theorem bounded_of_two {low high code : Nat} (h : code < 0x20) :
    (⟨low, high, 0, code⟩ : Partial).Bounded 1 := by
  intro n hn
  have hlt : n < (code + 1) * 64 ^ 1 := hn
  exact utf8Size_ofNat_le_two (by omega)

theorem bounded_of_three {low high code : Nat} (h : code < 0x10) :
    (⟨low, high, 1, code⟩ : Partial).Bounded 1 := by
  intro n hn
  have hlt : n < (code + 1) * 64 ^ 2 := hn
  exact utf8Size_ofNat_le_three (by omega)

theorem bounded_of_four {low high code : Nat} : (⟨low, high, 2, code⟩ : Partial).Bounded 1 :=
  fun _ _ => Char.utf8Size_le_four _

/-- What a first byte begins is no longer than the bytes that it takes. -/
def Lead.Bounded : Lead → Prop
  | whole c => c.utf8Size ≤ 1
  | opens p => p.Bounded 1
  | stray => True

theorem lead_bounded (b : UInt8) : (lead b).Bounded := by
  unfold lead
  simp only
  split
  · next hascii =>
    have hle := toNat_ofNat_le b.toNat
    show (Char.ofNat b.toNat).utf8Size ≤ 1
    rw [utf8Size_eq, if_pos (by omega)]
  split
  · trivial
  split
  · exact bounded_of_two (by omega)
  split
  · exact bounded_of_three (by decide)
  split
  · exact bounded_of_three (by decide)
  split
  · exact bounded_of_three (by omega)
  split
  · exact bounded_of_four
  split
  · exact bounded_of_four
  split
  · exact bounded_of_four
  · trivial

/-- A further byte keeps the bound, and the last one gives a character within it. -/
theorem Partial.Bounded.next {p : Partial} {read : Nat} (hp : p.Bounded read) (b : UInt8) :
    (∀ low high further, p.further = further + 1 →
      (⟨low, high, further, 64 * p.code + b.toNat % 64⟩ : Partial).Bounded (read + 1)) ∧
    (p.further = 0 → (Char.ofNat (64 * p.code + b.toNat % 64)).utf8Size ≤ read + 1) := by
  have hdigit : 64 * p.code + b.toNat % 64 + 1 ≤ 64 * (p.code + 1) := by omega
  constructor
  · intro low high further hf n hn
    simp only at hn ⊢
    -- the digits still to come can be any, so that the new bound is within the old one
    have hpow : 64 * (p.code + 1) * 64 ^ (further + 1) = (p.code + 1) * 64 ^ (p.further + 1) := by
      rw [hf, Nat.pow_succ 64 (further + 1), Nat.mul_comm 64, Nat.mul_assoc, Nat.mul_comm 64]
    have hle := Nat.mul_le_mul_right (64 ^ (further + 1)) hdigit
    have hsize := hp n (by omega)
    omega
  · intro hf
    have hsize := hp (64 * p.code + b.toNat % 64) (by rw [hf]; omega)
    omega

/-! ## A reader -/

/-- Characters that so many bytes account for: one byte for each, and all bytes of each but for two
bytes of a replacement. -/
structure Paid (cs : List Char) (bytes : Nat) : Prop where
  length : cs.length ≤ bytes
  size : (encode cs).length ≤ bytes + 2 * cs.count replacement

theorem Paid.push {cs : List Char} {bytes : Nat} (h : Paid cs bytes) {c : Char} {more : Nat}
    (hmore : 0 < more) (hc : c.utf8Size ≤ more ∨ c = replacement) :
    Paid (cs ++ [c]) (bytes + more) := by
  have hone : (encode [c]).length = c.utf8Size := by
    rw [encode_cons, encode, List.flatMap_nil, List.append_nil, String.length_utf8EncodeChar]
  have hl := h.length
  have hs := h.size
  constructor
  · rw [List.length_append, List.length_singleton]
    omega
  · rw [encode_append, List.length_append, hone, List.count_append]
    rcases hc with hle | rfl
    · omega
    · have hreplacement : replacement.utf8Size = 3 := by decide
      rw [hreplacement, List.count_singleton_self]
      omega

/-- **The account of a reader** after so many bytes: some of them account for the characters read,
and it holds the others for the open character. -/
def Decoder.Accounts (d : Decoder) (bytes : Nat) : Prop :=
  ∃ spent held, spent + held = bytes ∧ Paid d.out.toList spent ∧
    match d.pending with
    | none => held = 0
    | some p => 0 < held ∧ p.Bounded held

namespace Decoder

theorem accounts_begin {out : Array Char} {bytes : Nat} (h : Paid out.toList bytes) (b : UInt8) :
    (begin out b).Accounts (bytes + 1) := by
  have hlead := lead_bounded b
  unfold begin
  generalize lead b = l at hlead
  cases l with
  | whole c =>
    have hpush := h.push Nat.one_pos (.inl hlead)
    exact ⟨bytes + 1, 0, rfl, by rwa [Array.toList_push], rfl⟩
  | opens p => exact ⟨bytes, 1, rfl, h, Nat.one_pos, hlead⟩
  | stray =>
    have hpush := h.push Nat.one_pos (.inr rfl)
    exact ⟨bytes + 1, 0, rfl, by rwa [Array.toList_push], rfl⟩

theorem Accounts.step {d : Decoder} {bytes : Nat} (h : d.Accounts bytes) (b : UInt8) :
    (d.step b).Accounts (bytes + 1) := by
  obtain ⟨out, pending⟩ := d
  obtain ⟨spent, held, rfl, hpaid, hpending⟩ := h
  cases pending with
  | none =>
    obtain rfl : held = 0 := hpending
    exact accounts_begin hpaid b
  | some p =>
    obtain ⟨hheld, hbounded⟩ := hpending
    obtain ⟨hnext, hlast⟩ := hbounded.next b
    unfold Decoder.step
    simp only
    split
    · split
      · next hf =>
        have hpush := hpaid.push (Nat.succ_pos held) (.inl (hlast hf))
        exact ⟨spent + (held + 1), 0, rfl, by rwa [Array.toList_push], rfl⟩
      · next further hf => exact ⟨spent, held + 1, rfl, hpaid, Nat.succ_pos held, hnext _ _ _ hf⟩
    · -- the bytes held so far are replaced, and this one is read as a first byte
      have hpush := hpaid.push hheld (.inr rfl)
      rw [← Array.toList_push] at hpush
      exact accounts_begin hpush b

theorem Accounts.foldl_step {d : Decoder} {n : Nat} (h : d.Accounts n) (bytes : List UInt8) :
    (bytes.foldl Decoder.step d).Accounts (n + bytes.length) := by
  induction bytes generalizing d n with
  | nil => exact h
  | cons b bytes ih =>
    rw [List.foldl_cons, List.length_cons, Nat.add_comm bytes.length, ← Nat.add_assoc]
    exact ih (h.step b)

theorem Accounts.finish {d : Decoder} {bytes : Nat} (h : d.Accounts bytes) :
    Paid d.finish bytes := by
  obtain ⟨out, pending⟩ := d
  obtain ⟨spent, held, rfl, hpaid, hpending⟩ := h
  cases pending with
  | none =>
    obtain rfl : held = 0 := hpending
    exact hpaid
  | some p =>
    have hpush := hpaid.push hpending.1 (.inr rfl)
    rwa [← Array.toList_push] at hpush

end Decoder

/-- **Text that was read from bytes** is no longer than they are, but for two bytes in each
replacement, and has no more characters. -/
theorem paid_decodeLossy (bytes : List UInt8) : Paid (decodeLossy bytes) bytes.length := by
  have hstart : (⟨#[], none⟩ : Decoder).Accounts 0 :=
    ⟨0, 0, rfl, ⟨Nat.le_refl 0, Nat.le_refl 0⟩, rfl⟩
  have hrun := (hstart.foldl_step bytes).finish
  rwa [Nat.zero_add] at hrun

theorem length_encode_of_decode? {bytes : List UInt8} (h : (decode? bytes).isSome = true) :
    (encode (decodeLossy bytes)).length = bytes.length := by
  unfold decode? at h
  simp only at h
  split at h
  · next heq => rw [heq]
  · cases h

end Utf8

namespace Percent

/-! ## Components -/

/-- A text that keeps to the limit but for two bytes in each replacement, and in any case to three
times the limit. -/
structure NearLimit (t : String) : Prop where
  replaced : t.utf8ByteSize ≤ 65536 + 2 * t.toList.count '\uFFFD'
  tripled : t.utf8ByteSize ≤ 3 * 65536

theorem nearLimit_of_decodeComponent {component : List Char} {t : String}
    (h : decodeComponent component = .ok t) : NearLimit t := by
  obtain ⟨hlimit, rfl⟩ := decodeComponent_eq_ok_iff.1 h
  have hmax : maxDecodedSize = 65536 := rfl
  have hreplacement : Utf8.replacement = '\uFFFD' := rfl
  have hpaid := Utf8.paid_decodeLossy (unescape (Utf8.encode component))
  generalize unescape (Utf8.encode component) = bytes at *
  have hlength := hpaid.length
  have hsize := hpaid.size
  have hcount := List.count_le_length (a := Utf8.replacement) (l := Utf8.decodeLossy bytes)
  rw [hreplacement] at hsize hcount
  constructor
  · rw [Utf8.utf8ByteSize_ofList, String.toList_ofList]
    omega
  · rw [Utf8.utf8ByteSize_ofList]
    omega

/-- The bytes of the component, with its escapes read, are well-formed. -/
def IsText (component : List Char) : Prop :=
  (Utf8.decode? (unescape (Utf8.encode component))).isSome = true

theorem size_le_of_decodeComponent {component : List Char} {t : String}
    (h : decodeComponent component = .ok t) (htext : IsText component) :
    t.utf8ByteSize ≤ 65536 := by
  obtain ⟨hlimit, rfl⟩ := decodeComponent_eq_ok_iff.1 h
  rw [Utf8.utf8ByteSize_ofList, Utf8.length_encode_of_decode? htext]
  exact hlimit

/-! ## Bytes that are no text -/

/-- So many escapes of a byte that occurs in no text. -/
def strays (n : Nat) : List Char :=
  (List.replicate n ['%', 'F', 'F']).flatten

theorem strays_succ (n : Nat) : strays (n + 1) = ['%', 'F', 'F'] ++ strays n := rfl

theorem unescape_strays (n : Nat) : unescape (Utf8.encode (strays n)) = List.replicate n 0xFF := by
  induction n with
  | zero => rfl
  | succ n ih =>
    rw [strays_succ, Utf8.encode_append, List.replicate_succ, ← ih]
    exact unescape_escape 0x46 0x46 _

theorem decodeLossy_strays (n : Nat) :
    Utf8.decodeLossy (List.replicate n 0xFF) = List.replicate n Utf8.replacement := by
  have run (out : Array Char) : (List.replicate n 0xFF).foldl Utf8.Decoder.step ⟨out, none⟩ =
      ⟨out ++ List.replicate n Utf8.replacement, none⟩ := by
    induction n generalizing out with
    | zero => simp
    | succ n ih =>
      have hstep : Utf8.Decoder.step ⟨out, none⟩ 0xFF = ⟨out.push Utf8.replacement, none⟩ := rfl
      rw [List.replicate_succ, List.foldl_cons, hstep, ih, List.replicate_succ]
      simp
  simp [Utf8.decodeLossy, run, Utf8.Decoder.finish]

theorem decodeComponent_strays {n : Nat} (h : n ≤ maxDecodedSize) :
    ∃ t, decodeComponent (strays n) = .ok t ∧ t.utf8ByteSize = 3 * n := by
  refine ⟨String.ofList (List.replicate n Utf8.replacement), ?_, ?_⟩
  · rw [decodeComponent_eq_ok_iff, unescape_strays, decodeLossy_strays, List.length_replicate]
    exact ⟨h, rfl⟩
  · have hlength : (String.utf8EncodeChar Utf8.replacement).length = 3 := by decide
    rw [Utf8.utf8ByteSize_ofList, Utf8.encode, List.length_flatMap, List.map_replicate, hlength,
      List.sum_replicate_nat, Nat.mul_comm]

end Percent

namespace RawQuery

open Percent

/-! ## Query strings -/

/-- A query whose keys and values were decoded from the two parts of one of the segments each. -/
def DecodedFrom (pieces : List (List Char)) (raw : RawQuery) : Prop :=
  ∀ key value, raw.get? key = some value → ∃ piece ∈ pieces,
    decodeComponent (Text.before '=' piece) = .ok key ∧
    decodeComponent (Text.after '=' piece) = .ok value

theorem DecodedFrom.addSegment {pieces : List (List Char)} {raw raw' : RawQuery}
    (h : DecodedFrom pieces raw) {piece : List Char} (hmem : piece ∈ pieces)
    (hadd : RawQuery.addSegment raw piece = .ok raw') : DecodedFrom pieces raw' := by
  obtain ⟨key, hkey, ⟨-, rfl⟩ | ⟨-, value, hvalue, rfl⟩⟩ := addSegment_eq_ok_iff.1 hadd
  · exact h
  · intro k v hget
    rw [KeyMap.get?_insert] at hget
    split at hget
    · next heq =>
      cases hget
      rw [heq]
      exact ⟨piece, hmem, hkey, hvalue⟩
    · exact h k v hget

theorem DecodedFrom.foldlM_addSegment {pieces : List (List Char)} {raw raw' : RawQuery}
    (h : DecodedFrom pieces raw) {rest : List (List Char)} (hsub : rest ⊆ pieces)
    (hadd : rest.foldlM RawQuery.addSegment raw = .ok raw') : DecodedFrom pieces raw' := by
  induction rest generalizing raw with
  | nil =>
    cases hadd
    exact h
  | cons piece rest ih =>
    obtain ⟨hmem, hsub⟩ := List.cons_subset.1 hsub
    rw [List.foldlM_cons] at hadd
    cases hstep : RawQuery.addSegment raw piece with
    | error e =>
      rw [hstep] at hadd
      cases hadd
    | ok next =>
      rw [hstep] at hadd
      exact ih (h.addSegment hmem hstep) hsub hadd

theorem decodedFrom_parse {query : String} {raw : RawQuery} (h : parse query = .ok raw) :
    DecodedFrom (segments query) raw := by
  have hempty : DecodedFrom (segments query) KeyMap.empty := fun _ _ hget => nomatch hget
  exact hempty.foldlM_addSegment (List.Subset.refl _) h

/-- **The size of decoded text.** A component, and so each key and value of a query string, is
decoded to at most 64 KB if its bytes are well-formed, else to at most two bytes more for each
replacement, which is three times as much at the most. -/
theorem decoded_size_le (component : List Char) (query : String) :
    (∀ t, decodeComponent component = .ok t →
      NearLimit t ∧ (IsText component → t.utf8ByteSize ≤ 65536)) ∧
    ∀ raw, parse query = .ok raw → ∀ key value, raw.get? key = some value →
      NearLimit key ∧ NearLimit value ∧
      ((∀ piece ∈ segments query, IsText (Text.before '=' piece) ∧ IsText (Text.after '=' piece)) →
        key.utf8ByteSize ≤ 65536 ∧ value.utf8ByteSize ≤ 65536) := by
  constructor
  · intro t h
    exact ⟨nearLimit_of_decodeComponent h, size_le_of_decodeComponent h⟩
  · intro raw h key value hget
    obtain ⟨piece, hmem, hkey, hvalue⟩ := decodedFrom_parse h key value hget
    refine ⟨nearLimit_of_decodeComponent hkey, nearLimit_of_decodeComponent hvalue, fun htext => ?_⟩
    obtain ⟨hbefore, hafter⟩ := htext piece hmem
    exact ⟨size_le_of_decodeComponent hkey hbefore, size_le_of_decodeComponent hvalue hafter⟩

/-- A component with a character of two bytes, and a query string that has a byte that is no text
beside it. -/
theorem decoded_size_mixed :
    decodeComponent "caf%C3%A9".toList = .ok "café" ∧ IsText "caf%C3%A9".toList ∧
    "café".utf8ByteSize ≤ 65536 ∧
    ∃ raw, parse "?caf%C3%A9=%FF+" = .ok raw ∧ raw.get? "café" = some "\uFFFD " ∧
      NearLimit "café" ∧ NearLimit "\uFFFD " := by
  have hdecode : decodeComponent "caf%C3%A9".toList = .ok "café" := by decide +kernel
  have htext : IsText "caf%C3%A9".toList := by
    unfold IsText
    decide +kernel
  have hparse : parse "?caf%C3%A9=%FF+" = .ok (.ofList [("café", "\uFFFD ")]) := by decide +kernel
  have hget : (KeyMap.ofList [("café", "\uFFFD ")]).get? "café" = some "\uFFFD " := by
    decide +kernel
  obtain ⟨hcomponent, hquery⟩ := decoded_size_le "caf%C3%A9".toList "?caf%C3%A9=%FF+"
  obtain ⟨hkey, hvalue, -⟩ := hquery _ hparse _ _ hget
  exact ⟨hdecode, htext, (hcomponent _ hdecode).2 htext, _, hparse, hget, hkey, hvalue⟩

theorem not_mem_strays (n : Nat) : '&' ∉ strays n := by
  induction n with
  | zero => exact List.not_mem_nil
  | succ n ih =>
    rw [strays_succ, List.mem_append, not_or]
    exact ⟨by decide, ih⟩

/-- The value of a single parameter is what its component is decoded to. -/
theorem parse_single {component : List Char} (hc : '&' ∉ component) {t : String}
    (h : decodeComponent component = .ok t) :
    parse (String.ofList ('a' :: '=' :: component)) = .ok (KeyMap.empty.insert "a" t) := by
  have hsplit : ('a' :: '=' :: component).splitOn '&' = ['a' :: '=' :: component] := by
    have hnot : ∀ l ∈ ['a' :: '=' :: component], '&' ∉ l := by
      simp [hc]
    have hjoin := List.splitOn_intercalate '&' hnot (List.cons_ne_nil _ _)
    rwa [List.intercalate_singleton] at hjoin
  have hequals : '=' ∉ ['a'] := by decide
  have hkey : decodeComponent (Text.before '=' (['a'] ++ '=' :: component)) = .ok "a" := by
    rw [Text.before_append_cons hequals]
    decide
  have hvalue : decodeComponent (Text.after '=' (['a'] ++ '=' :: component)) = .ok t := by
    rw [Text.after_append_cons hequals, h]
  have hadd : addSegment KeyMap.empty ('a' :: '=' :: component) =
      .ok (KeyMap.empty.insert "a" t) :=
    addSegment_eq_ok_iff.2 ⟨"a", hkey, .inr ⟨by decide, t, hvalue, rfl⟩⟩
  rw [parse_unmarked (by simp), hsplit, List.foldlM_cons, hadd]
  rfl

/-- **Decoded text can pass the limit.** So many escapes of a byte that is no text are decoded, as a
component and as a value, to more than 64 KB. -/
theorem decoded_size_gt :
    (∃ t, decodeComponent (strays 21846) = .ok t ∧ 65536 < t.utf8ByteSize) ∧
    ∃ raw value, parse (String.ofList ('a' :: '=' :: strays 21846)) = .ok raw ∧
      raw.get? "a" = some value ∧ 65536 < value.utf8ByteSize := by
  obtain ⟨t, ht, hsize⟩ := decodeComponent_strays (n := 21846) (by decide)
  have hover : 65536 < t.utf8ByteSize := by omega
  refine ⟨⟨t, ht, hover⟩, _, t, parse_single (not_mem_strays _) ht, ?_, hover⟩
  rw [KeyMap.get?_insert, if_pos rfl]

end RawQuery

end QueryFilter
