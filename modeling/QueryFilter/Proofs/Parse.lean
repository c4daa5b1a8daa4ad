import QueryFilter.Proofs.KeyMap
import QueryFilter.Proofs.Spelling
import QueryFilter.RawQuery

/-!
# Reading a query string

A list of parameters is written as its spelled keys and values, with equals signs between the two
and ampersands between the parameters. However it is written, reading gives the map of the list.

* `SpellsPair`, `segment`, `joined`: the spellings of parameters and of lists of parameters;
* `addSegment_eq`, `addSegment_spelling`: what one segment adds;
* `foldlM_addSegment`: what the segments of a list add, in order;
* `segments_intercalate`: the segments of a query string that is made of them;
* **`parse_spelling`**: every spelling of a list of parameters is read back.
-/

namespace QueryFilter.RawQuery

open Percent

/-! ## Spellings of parameters -/

/-- A spelled key and a spelled value of a parameter. -/
def SpellsPair (e : String × String) (w : List Char × List Char) : Prop :=
  Spells specialInKey e.1.toList w.1 ∧ Spells specialInValue e.2.toList w.2

/-- A key and a value with an equals sign between them. -/
def segment (w : List Char × List Char) : List Char :=
  w.1 ++ '=' :: w.2

/-- The segments with ampersands between them. -/
def joined (ws : List (List Char × List Char)) : List Char :=
  ['&'].intercalate (ws.map segment)

/-- A key and a value that are not too long to be decoded. -/
def Fits (e : String × String) : Prop :=
  e.1.utf8ByteSize ≤ maxDecodedSize ∧ e.2.utf8ByteSize ≤ maxDecodedSize

/-- The parameters that have a key. -/
def named (pairs : List (String × String)) : List (String × String) :=
  pairs.filter (·.1 ≠ "")

/-- The parameters with the first character of the first key dropped. -/
def dropMark : List (String × String) → List (String × String)
  | [] => []
  | (key, value) :: rest => (String.ofList key.toList.tail, value) :: rest

variable {pairs : List (String × String)} {ws : List (List Char × List Char)}

/-! ## Segments -/

/-- What the key of a segment decodes to. -/
def keyOf (piece : List Char) : Except DecodeError String :=
  decodeComponent (Text.before '=' piece)

/-- What the value of a segment decodes to. -/
def valueOf (piece : List Char) : Except DecodeError String :=
  decodeComponent (Text.after '=' piece)

/-- **What one segment does**: it sets the value of its key, unless the key is empty. -/
theorem addSegment_eq (raw : RawQuery) (piece : List Char) : addSegment raw piece =
    (keyOf piece).bind fun key => if key = "" then .ok raw
      else (valueOf piece).bind fun value => .ok (raw.insert key value) := by
  unfold addSegment keyOf valueOf
  cases decodeComponent (Text.before '=' piece) with
  | error e => rfl
  | ok key =>
    show (if key.isEmpty then _ else _) = (if key = "" then _ else _)
    exact if_congr String.isEmpty_iff rfl rfl

theorem addSegment_eq_ok_iff {raw raw' : RawQuery} {cs : List Char} :
    addSegment raw cs = .ok raw' ↔ ∃ key, decodeComponent (Text.before '=' cs) = .ok key ∧
      (key = "" ∧ raw' = raw ∨
        key ≠ "" ∧ ∃ value, decodeComponent (Text.after '=' cs) = .ok value ∧
          raw' = raw.insert key value) := by
  rw [addSegment_eq, keyOf, valueOf]
  cases decodeComponent (Text.before '=' cs) with
  | error e => exact ⟨nofun, nofun⟩
  | ok key =>
    by_cases hempty : key = ""
    · simp [Except.bind, hempty, eq_comm]
    · cases decodeComponent (Text.after '=' cs) <;> simp [Except.bind, hempty, eq_comm]

theorem not_mem_segment {e : String × String} {w : List Char × List Char} (h : SpellsPair e w) :
    '&' ∉ segment w := by
  have hkey : '&' ∉ w.1 := not_mem_of_spells (by decide) (by decide) h.1
  have hvalue : '&' ∉ w.2 := not_mem_of_spells (by decide) (by decide) h.2
  rw [segment, List.mem_append, List.mem_cons]
  rintro (hmem | heq | hmem)
  · exact hkey hmem
  · exact absurd heq (by decide)
  · exact hvalue hmem

/-- A segment sets the value of its key, unless the key is empty. -/
theorem addSegment_spelling {e : String × String} {w : List Char × List Char}
    (h : SpellsPair e w) (hfits : Fits e) (raw : RawQuery) :
    addSegment raw (segment w) = .ok (if e.1 = "" then raw else raw.insert e.1 e.2) := by
  have hequals : '=' ∉ w.1 := not_mem_of_spells (by decide) (by decide) h.1
  have hkey : decodeComponent w.1 = .ok e.1 :=
    decodeComponent_spelling (by decide) (by decide) h.1 hfits.1
  have hvalue : decodeComponent w.2 = .ok e.2 :=
    decodeComponent_spelling (by decide) (by decide) h.2 hfits.2
  rw [addSegment_eq_ok_iff, segment, Text.before_append_cons hequals,
    Text.after_append_cons hequals]
  refine ⟨e.1, hkey, ?_⟩
  by_cases hempty : e.1 = ""
  · exact .inl ⟨hempty, if_pos hempty⟩
  · exact .inr ⟨hempty, e.2, hvalue, if_neg hempty⟩

theorem foldlM_addSegment (h : List.Forall₂ SpellsPair pairs ws) (hfits : ∀ e ∈ pairs, Fits e)
    (raw : RawQuery) :
    (ws.map segment).foldlM addSegment raw =
      .ok ((named pairs).foldl (fun m e => m.insert e.1 e.2) raw) := by
  induction h generalizing raw with
  | nil => rfl
  | @cons e w pairs ws he _ ih =>
    obtain ⟨hfirst, hrest⟩ := List.forall_mem_cons.1 hfits
    rw [List.map_cons, List.foldlM_cons, addSegment_spelling he hfirst]
    show (ws.map segment).foldlM addSegment _ = _
    rw [ih hrest, named, named, List.filter_cons]
    by_cases hempty : e.1 = ""
    · rw [if_pos hempty, if_neg (by simp [hempty])]
    · rw [if_neg hempty, if_pos (by simp [hempty]), List.foldl_cons]

theorem not_mem_of_mem_segments (h : List.Forall₂ SpellsPair pairs ws) :
    ∀ l ∈ ws.map segment, '&' ∉ l := by
  induction h with
  | nil =>
    intro l hl
    exact absurd hl List.not_mem_nil
  | cons he _ ih =>
    rw [List.map_cons]
    exact List.forall_mem_cons.2 ⟨not_mem_segment he, ih⟩

theorem splitOn_joined (h : List.Forall₂ SpellsPair pairs ws) (hne : ws ≠ []) :
    (joined ws).splitOn '&' = ws.map segment := by
  have hne' : ws.map segment ≠ [] := by simpa using hne
  exact List.splitOn_intercalate '&' (not_mem_of_mem_segments h) hne'

theorem foldlM_splitOn_joined (h : List.Forall₂ SpellsPair pairs ws)
    (hfits : ∀ e ∈ pairs, Fits e) :
    ((joined ws).splitOn '&').foldlM addSegment KeyMap.empty =
      .ok (KeyMap.ofList (named pairs)) := by
  by_cases hne : ws = []
  · -- the empty text has one piece, which adds nothing
    subst hne
    cases h
    decide
  · rw [splitOn_joined h hne, foldlM_addSegment h hfits]
    rfl

/-! ## Segments of a query string -/

theorem head?_intercalate_ne {pieces : List (List Char)}
    (h : ∀ p, pieces.head? = some p → p.head? ≠ some '?') :
    (['&'].intercalate pieces).head? ≠ some '?' := by
  match pieces with
  | [] => exact nofun
  | [p] => simpa using h p rfl
  | p :: q :: ps =>
    have hp := h p rfl
    rw [List.intercalate_cons_of_ne_nil (List.cons_ne_nil _ _)]
    match p with
    | [] => simp
    | c :: cs => simpa using hp

theorem segments_unmarked {cs : List Char} (h : cs.head? ≠ some '?') :
    segments (String.ofList cs) = cs.splitOn '&' := by
  rw [segments, String.toList_ofList]
  match cs with
  | [] => rfl
  | c :: cs =>
    have hc : c ≠ '?' := fun e => h (congrArg some e)
    simp [hc]

theorem segments_intercalate {pieces : List (List Char)} (hne : pieces ≠ [])
    (hamp : ∀ p ∈ pieces, '&' ∉ p) (hmark : ∀ p, pieces.head? = some p → p.head? ≠ some '?') :
    segments (String.ofList (['&'].intercalate pieces)) = pieces := by
  rw [segments_unmarked (head?_intercalate_ne hmark)]
  exact List.splitOn_intercalate '&' hamp hne

/-! ## Query strings -/

theorem exists_joined_eq (value : List Char) (ws : List (List Char × List Char)) :
    ∃ rest, ∀ key, joined ((key, value) :: ws) = key ++ '=' :: rest := by
  by_cases hws : ws = []
  · subst hws
    exact ⟨value, fun key => List.intercalate_singleton⟩
  · refine ⟨value ++ '&' :: joined ws, fun key => ?_⟩
    have hne : ws.map segment ≠ [] := by simpa using hws
    rw [joined, List.map_cons, List.intercalate_cons_of_ne_nil hne, segment]
    simp [joined]

theorem head?_joined_ne (h : ∀ w, ws.head? = some w → w.1.head? ≠ some '?') :
    (joined ws).head? ≠ some '?' := by
  refine head?_intercalate_ne fun p hp => ?_
  rw [List.head?_map, Option.map_eq_some_iff] at hp
  obtain ⟨⟨key, value⟩, hw, rfl⟩ := hp
  have hkey : key.head? ≠ some '?' := h _ hw
  match key with
  | [] => exact fun e => absurd (Option.some.inj e) (by decide)
  | c :: key => exact hkey

theorem joined_cons_cons (c : Char) (key value : List Char) (ws : List (List Char × List Char)) :
    joined ((c :: key, value) :: ws) = c :: joined ((key, value) :: ws) := by
  obtain ⟨rest, hrest⟩ := exists_joined_eq value ws
  rw [hrest, hrest, List.cons_append]

theorem parse_marked (cs : List Char) :
    parse (String.ofList ('?' :: cs)) = (cs.splitOn '&').foldlM addSegment KeyMap.empty := by
  rw [parse, segments, String.toList_ofList]
  rfl

theorem parse_unmarked {cs : List Char} (h : cs.head? ≠ some '?') :
    parse (String.ofList cs) = (cs.splitOn '&').foldlM addSegment KeyMap.empty := by
  rw [parse, segments_unmarked h]

/-- A question mark at the start of the first key counts as the mark of the query. -/
theorem dropMark_spelling (h : List.Forall₂ SpellsPair pairs ws)
    {w : List Char × List Char} (hw : ws.head? = some w) (hmark : w.1.head? = some '?')
    (hfits : ∀ e ∈ pairs, Fits e) :
    ∃ ws', joined ws = '?' :: joined ws' ∧ List.Forall₂ SpellsPair (dropMark pairs) ws' ∧
      ∀ e ∈ dropMark pairs, Fits e := by
  cases h with
  | nil => exact absurd hw nofun
  | @cons e u pairs ws he htail =>
    obtain rfl : u = w := Option.some.inj hw
    obtain ⟨key, value⟩ := e
    obtain ⟨us, vs⟩ := u
    obtain ⟨us, rfl⟩ := List.head?_eq_some_iff.1 hmark
    obtain ⟨cs, hcs, hspells⟩ := tail_of_spells_cons (by decide) he.1
    obtain ⟨hfirst, hrest⟩ := List.forall_mem_cons.1 hfits
    have hkey : String.ofList key.toList.tail = String.ofList cs := by rw [hcs, List.tail_cons]
    have hsize : (String.ofList cs).utf8ByteSize ≤ key.utf8ByteSize := by
      rw [← Utf8.size_eq_utf8ByteSize, ← Utf8.size_eq_utf8ByteSize, Utf8.size, Utf8.size, hcs,
        String.toList_ofList, Utf8.encode_cons, List.length_append]
      exact Nat.le_add_left _ _
    refine ⟨(us, vs) :: ws, joined_cons_cons '?' us vs ws, ?_, ?_⟩
    · rw [dropMark, hkey]
      refine .cons ⟨?_, he.2⟩ htail
      rwa [String.toList_ofList]
    · rw [dropMark, hkey]
      exact List.forall_mem_cons.2 ⟨⟨hsize.trans hfirst.1, hfirst.2⟩, hrest⟩

theorem named_eq_self (hkeys : ∀ e ∈ pairs, e.1 ≠ "") : named pairs = pairs :=
  List.filter_eq_self.2 fun e he => decide_eq_true (hkeys e he)

/-- **Every spelling of a list of parameters is read back**, of a repeated key with its last value.
A question mark may stand before it; it has to where the first key starts with one, which would be
dropped otherwise. -/
theorem parse_spelling (h : List.Forall₂ SpellsPair pairs ws) (hkeys : ∀ e ∈ pairs, e.1 ≠ "")
    (hsize : ∀ e ∈ pairs, e.1.utf8ByteSize ≤ 65536 ∧ e.2.utf8ByteSize ≤ 65536) :
    parse (String.ofList ('?' :: joined ws)) = .ok (KeyMap.ofList pairs) ∧
    ((∀ w, ws.head? = some w → w.1.head? ≠ some '?') →
      parse (String.ofList (joined ws)) = .ok (KeyMap.ofList pairs)) ∧
    ((∃ w, ws.head? = some w ∧ w.1.head? = some '?') →
      parse (String.ofList (joined ws)) = .ok (KeyMap.ofList (named (dropMark pairs)))) ∧
    ∀ key, (KeyMap.ofList pairs).get? key = pairs.reverse.lookup key := by
  have hread := foldlM_splitOn_joined h hsize
  rw [named_eq_self hkeys] at hread
  refine ⟨?_, fun hplain => ?_, fun ⟨w, hw, hmark⟩ => ?_, KeyMap.get?_ofList pairs⟩
  · rw [parse_marked, hread]
  · rw [parse_unmarked (head?_joined_ne hplain), hread]
  · obtain ⟨ws', hjoined, hspells, hfits⟩ := dropMark_spelling h hw hmark hsize
    rw [hjoined, parse_marked, foldlM_splitOn_joined hspells hfits]

/-- A repeated key, written once as it is and once escaped, and a character of two bytes. -/
theorem parse_spelling_repeated :
    let pairs := [("?", "é ="), ("a", "0"), ("a", "&")]
    let ws := [("?".toList, "%c3%A9+=".toList), ("a".toList, "0".toList),
      ("%61".toList, "%26".toList)]
    List.Forall₂ SpellsPair pairs ws ∧
    (∀ e ∈ pairs, e.1 ≠ "") ∧
    (∀ e ∈ pairs, e.1.utf8ByteSize ≤ 65536 ∧ e.2.utf8ByteSize ≤ 65536) ∧
    parse "??=%c3%A9+=&a=0&%61=%26" = .ok (.ofList pairs) ∧
    parse "?=%c3%A9+=&a=0&%61=%26" = .ok (.ofList [("a", "&")]) := by
  intro pairs ws
  have hliteral {special : List Char} {c : Char} (hc : c ∉ special) : Spells special [c] [c] :=
    .cons (.literal hc) .nil
  have hspells : List.Forall₂ SpellsPair pairs ws := by
    refine .cons ⟨hliteral (by decide), ?_⟩ (.cons ⟨hliteral (by decide), hliteral (by decide)⟩
      (.cons ⟨?_, ?_⟩ .nil))
    · show Spells specialInValue ['é', ' ', '='] (['%', 'c', '3', '%', 'A', '9'] ++ (['+'] ++ ['=']))
      have hescapes : List.Forall₂ SpellsByte (String.utf8EncodeChar 'é')
          [['%', 'c', '3'], ['%', 'A', '9']] :=
        .cons (.escape (by decide) (by decide)) (.cons (.escape (by decide) (by decide)) .nil)
      exact .cons (.escaped hescapes) (.cons (.plus rfl) (hliteral (by decide)))
    · show Spells specialInKey ['a'] (['%', '6', '1'] ++ [])
      have hescapes : List.Forall₂ SpellsByte (String.utf8EncodeChar 'a') [['%', '6', '1']] :=
        .cons (.escape (by decide) (by decide)) .nil
      exact .cons (.escaped hescapes) .nil
    · show Spells specialInValue ['&'] (['%', '2', '6'] ++ [])
      have hescapes : List.Forall₂ SpellsByte (String.utf8EncodeChar '&') [['%', '2', '6']] :=
        .cons (.escape (by decide) (by decide)) .nil
      exact .cons (.escaped hescapes) .nil
  have hkeys : ∀ e ∈ pairs, e.1 ≠ "" := by decide
  have hsize : ∀ e ∈ pairs, e.1.utf8ByteSize ≤ 65536 ∧ e.2.utf8ByteSize ≤ 65536 := by decide
  obtain ⟨hmarked, -, hdropped, -⟩ := parse_spelling hspells hkeys hsize
  refine ⟨hspells, hkeys, hsize, hmarked, ?_⟩
  exact hdropped ⟨_, rfl, rfl⟩

end QueryFilter.RawQuery
