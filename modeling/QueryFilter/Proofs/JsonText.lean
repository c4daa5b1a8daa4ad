import QueryFilter.Json.Basic
import Mathlib.Tactic.SplitIfs

/-!
# JSON texts are unambiguous

A value is found again in its text, whatever follows it.

* `Json.IsToken`, `Json.WellFormed`: number tokens, and the values whose numbers are tokens;
* `Json.readChar?_escape`: a character is found again behind its escape;
* `Json.quote_append_inj`, `Json.joined_append_inj`: strings and lists end where they seem to;
* `Json.chars_append_inj`: so do values; **`Json.render_injective`**.
-/

namespace QueryFilter.Json

/-! ## Well-formed values -/

/-- A character of a number token. -/
def IsTokenChar (c : Char) : Prop :=
  c.isDigit = true ∨ c ∈ ['-', '+', '.', 'e']

instance (c : Char) : Decidable (IsTokenChar c) :=
  inferInstanceAs (Decidable (c.isDigit = true ∨ c ∈ ['-', '+', '.', 'e']))

/-- A number token. -/
structure IsToken (token : String) : Prop where
  ne_empty : token ≠ ""
  chars : ∀ c ∈ token.toList, IsTokenChar c

/-- A value whose numbers are tokens. -/
inductive WellFormed : Json → Prop
  | null : WellFormed null
  | bool (b : Bool) : WellFormed (bool b)
  | number {token : String} (h : IsToken token) : WellFormed (number token)
  | string (s : String) : WellFormed (string s)
  | array {items : List Json} (h : ∀ j ∈ items, WellFormed j) : WellFormed (array items)
  | object {members : List (String × Json)} (h : ∀ m ∈ members, WellFormed m.2) :
    WellFormed (object members)

/-- The texts that can follow a value: none, or one that begins with a comma or closes a list. -/
def Ends (rest : List Char) : Prop :=
  ∀ c ∈ rest.head?, c ∈ [',', ']', '\x7d']

theorem ends_nil : Ends [] := by
  intro c hc
  cases hc

theorem ends_cons {c : Char} (h : c ∈ [',', ']', '\x7d']) (rest : List Char) : Ends (c :: rest) := by
  intro a ha
  cases ha
  exact h

/-! ## Strings -/

/-- Reads a character of a string, which its quote ends. -/
def readChar? : List Char → Option (Char × List Char)
  | [] => none
  | '"' :: _ => none
  | '\\' :: 'b' :: rest => some ('\x08', rest)
  | '\\' :: 'f' :: rest => some ('\x0c', rest)
  | '\\' :: 'n' :: rest => some ('\n', rest)
  | '\\' :: 'r' :: rest => some ('\r', rest)
  | '\\' :: 't' :: rest => some ('\t', rest)
  | '\\' :: 'u' :: rest => some (Char.ofNat (Numeral.ofDigits 16 (rest.take 4)), rest.drop 4)
  | '\\' :: c :: rest => some (c, rest)
  | c :: rest => some (c, rest)

theorem ofDigits_hexadecimal_of_lt : ∀ n < 32,
    Numeral.ofDigits 16 (Numeral.hexadecimal 4 n) = n := by
  decide

/-- **A character is found again** behind its escape. -/
theorem readChar?_escape (c : Char) (rest : List Char) :
    readChar? (escape c ++ rest) = some (c, rest) := by
  unfold escape
  split_ifs with hquote hbackslash hbackspace hfeed hline hreturn htab hcontrol
  · rw [hquote]; rfl
  · rw [hbackslash]; rfl
  · rw [hbackspace]; rfl
  · rw [hfeed]; rfl
  · rw [hline]; rfl
  · rw [hreturn]; rfl
  · rw [htab]; rfl
  · have hcode : c.toNat < 32 := hcontrol
    show some (Char.ofNat (Numeral.ofDigits 16 (Numeral.hexadecimal 4 c.toNat)), rest) = _
    rw [ofDigits_hexadecimal_of_lt _ hcode, Char.ofNat_toNat]
  · unfold readChar?
    split <;> simp_all

theorem flatMap_escape_append_inj {cs cs' rest rest' : List Char}
    (h : cs.flatMap escape ++ '"' :: rest = cs'.flatMap escape ++ '"' :: rest') :
    cs = cs' ∧ rest = rest' := by
  have hend (rest : List Char) : readChar? ('"' :: rest) = none := rfl
  induction cs generalizing cs' with
  | nil =>
    cases cs' with
    | nil => exact ⟨rfl, List.cons.inj h |>.2⟩
    | cons c' cs' =>
      have hread := congrArg readChar? h
      rw [List.flatMap_nil, List.nil_append, List.flatMap_cons, List.append_assoc, hend,
        readChar?_escape] at hread
      cases hread
  | cons c cs ih =>
    cases cs' with
    | nil =>
      have hread := congrArg readChar? h
      rw [List.flatMap_nil, List.nil_append, List.flatMap_cons, List.append_assoc, hend,
        readChar?_escape] at hread
      cases hread
    | cons c' cs' =>
      have hread := congrArg readChar? h
      rw [List.flatMap_cons, List.flatMap_cons, List.append_assoc, List.append_assoc,
        readChar?_escape, readChar?_escape] at hread
      obtain ⟨rfl, htail⟩ := Prod.mk.inj (Option.some.inj hread)
      obtain ⟨rfl, hrest⟩ := ih htail
      exact ⟨rfl, hrest⟩

/-- A string ends where it seems to. -/
theorem quote_append_inj {s s' : String} {rest rest' : List Char}
    (h : quote s ++ rest = quote s' ++ rest') : s = s' ∧ rest = rest' := by
  unfold quote at h
  rw [List.append_assoc, List.append_assoc] at h
  obtain ⟨hlist, hrest⟩ := flatMap_escape_append_inj (List.cons.inj h).2
  exact ⟨String.toList_injective hlist, hrest⟩

/-! ## Lists -/

/-- The texts of the items of a list, with commas between them. -/
def joined {α : Type} (f : α → List Char) : List α → List Char
  | [] => []
  | a :: l => f a ++ l.flatMap fun b => ',' :: f b

theorem itemChars_eq_joined (items : List Json) : itemChars items = joined chars items := by
  induction items with
  | nil => rfl
  | cons item items ih =>
    cases items with
    | nil => exact (List.append_nil _).symm
    | cons next items => rw [itemChars, ih]; rfl

/-- The text of a member of an object. -/
def memberText (m : String × Json) : List Char :=
  quote m.1 ++ ':' :: chars m.2

theorem memberChars_eq_joined (members : List (String × Json)) :
    memberChars members = joined memberText members := by
  induction members with
  | nil => rfl
  | cons m members ih =>
    obtain ⟨name, value⟩ := m
    cases members with
    | nil => exact (List.append_nil _).symm
    | cons next members =>
      rw [memberChars, ih]
      simp [joined, memberText]

section Joined

variable {α : Type} {f : α → List Char} {close : Char} {l l' : List α} {rest rest' : List Char}

theorem flatMap_comma_append_inj (hclose : close ∈ [']', '\x7d'])
    (hf : ∀ a ∈ l, ∀ a' ∈ l', ∀ r r', Ends r → Ends r' → f a ++ r = f a' ++ r' →
      a = a' ∧ r = r')
    (h : (l.flatMap fun b => ',' :: f b) ++ close :: rest =
      (l'.flatMap fun b => ',' :: f b) ++ close :: rest') : l = l' ∧ rest = rest' := by
  have hends (l : List α) (rest : List Char) :
      Ends ((l.flatMap fun b => ',' :: f b) ++ close :: rest) := by
    cases l with
    | nil => exact ends_cons (List.mem_cons_of_mem _ hclose) rest
    | cons a l => exact ends_cons List.mem_cons_self _
  have hcomma : close ≠ ',' := by
    rintro rfl
    exact absurd hclose (by decide)
  induction l generalizing l' with
  | nil =>
    cases l' with
    | nil => exact ⟨rfl, (List.cons.inj h).2⟩
    | cons a' l' => exact absurd (List.cons.inj h).1 hcomma
  | cons a l ih =>
    cases l' with
    | nil => exact absurd (List.cons.inj h).1.symm hcomma
    | cons a' l' =>
      rw [List.flatMap_cons, List.flatMap_cons, List.append_assoc, List.append_assoc] at h
      obtain ⟨rfl, htail⟩ := hf a List.mem_cons_self a' List.mem_cons_self _ _ (hends l rest)
        (hends l' rest') (List.cons.inj h).2
      obtain ⟨rfl, hrest⟩ := ih (fun b hb b' hb' =>
        hf b (List.mem_cons_of_mem _ hb) b' (List.mem_cons_of_mem _ hb')) htail
      exact ⟨rfl, hrest⟩

/-- A list ends where it seems to, if its items do and do not begin with what closes it. -/
theorem joined_append_inj (hclose : close ∈ [']', '\x7d'])
    (hopen : ∀ a ∈ l, ∀ r, (f a ++ r).head? ≠ some close)
    (hopen' : ∀ a ∈ l', ∀ r, (f a ++ r).head? ≠ some close)
    (hf : ∀ a ∈ l, ∀ a' ∈ l', ∀ r r', Ends r → Ends r' → f a ++ r = f a' ++ r' →
      a = a' ∧ r = r')
    (h : joined f l ++ close :: rest = joined f l' ++ close :: rest') : l = l' ∧ rest = rest' := by
  cases l with
  | nil =>
    cases l' with
    | nil => exact ⟨rfl, (List.cons.inj h).2⟩
    | cons a' l' =>
      rw [joined, joined, List.append_assoc] at h
      exact absurd (congrArg List.head? h).symm (hopen' a' List.mem_cons_self _)
  | cons a l =>
    cases l' with
    | nil =>
      rw [joined, joined, List.append_assoc] at h
      exact absurd (congrArg List.head? h) (hopen a List.mem_cons_self _)
    | cons a' l' =>
      refine flatMap_comma_append_inj hclose hf ?_
      rw [joined, joined] at h
      exact congrArg (',' :: ·) h

end Joined

/-! ## Values -/

theorem append_inj_of_forall {p : Char → Prop} {cs cs' rest rest' : List Char}
    (hcs : ∀ c ∈ cs, p c) (hcs' : ∀ c ∈ cs', p c) (hrest : ∀ c ∈ rest.head?, ¬ p c)
    (hrest' : ∀ c ∈ rest'.head?, ¬ p c) (h : cs ++ rest = cs' ++ rest') :
    cs = cs' ∧ rest = rest' := by
  induction cs generalizing cs' with
  | nil =>
    cases cs' with
    | nil => exact ⟨rfl, h⟩
    | cons c' cs' =>
      rw [List.nil_append] at h
      exact absurd (hcs' c' List.mem_cons_self) (hrest c' (h ▸ rfl))
  | cons c cs ih =>
    cases cs' with
    | nil =>
      rw [List.nil_append] at h
      exact absurd (hcs c List.mem_cons_self) (hrest' c (h ▸ rfl))
    | cons c' cs' =>
      obtain ⟨rfl, htail⟩ := List.cons.inj h
      obtain ⟨rfl, hrest⟩ := ih (fun b hb => hcs b (List.mem_cons_of_mem _ hb))
        (fun b hb => hcs' b (List.mem_cons_of_mem _ hb)) htail
      exact ⟨rfl, hrest⟩

theorem not_isTokenChar_of_ends {rest : List Char} (h : Ends rest) :
    ∀ c ∈ rest.head?, ¬ IsTokenChar c := by
  intro c hc
  have hmem := h c hc
  simp only [List.mem_cons, List.not_mem_nil, or_false] at hmem
  rcases hmem with rfl | rfl | rfl <;> decide

/-- The kinds of values. -/
inductive Kind where
  | null
  | bool
  | number
  | string
  | array
  | object
  deriving DecidableEq

/-- The kind of a value. -/
def kind : Json → Kind
  | null => .null
  | bool _ => .bool
  | number _ => .number
  | string _ => .string
  | array _ => .array
  | object _ => .object

/-- The kind of a value, told by the first character of its text. -/
def kindOf (c : Char) : Kind :=
  if c = 'n' then .null
  else if c = 't' ∨ c = 'f' then .bool
  else if c = '"' then .string
  else if c = '[' then .array
  else if c = '\x7b' then .object
  else .number

theorem kindOf_of_isTokenChar {c : Char} (h : IsTokenChar c) : kindOf c = .number := by
  have hne (a : Char) (ha : ¬ IsTokenChar a) : c ≠ a := fun heq => ha (heq ▸ h)
  unfold kindOf
  rw [if_neg (hne _ (by decide)), if_neg (not_or.2 ⟨hne _ (by decide), hne _ (by decide)⟩),
    if_neg (hne _ (by decide)), if_neg (hne _ (by decide)), if_neg (hne _ (by decide))]

/-- The first character tells the kind of a value, and closes no list. -/
theorem exists_chars_eq_cons {j : Json} (h : WellFormed j) :
    ∃ c cs, j.chars = c :: cs ∧ kindOf c = j.kind ∧ c ∉ [']', '\x7d'] := by
  cases h with
  | null => exact ⟨'n', _, by rw [chars], rfl, by decide⟩
  | bool b =>
    cases b with
    | false => exact ⟨'f', _, by rw [chars], rfl, by decide⟩
    | true => exact ⟨'t', _, by rw [chars], rfl, by decide⟩
  | @number token h =>
    obtain ⟨c, cs, hlist⟩ := List.exists_cons_of_ne_nil (mt String.toList_eq_nil_iff.1 h.ne_empty)
    have hc : IsTokenChar c := h.chars c (by rw [hlist]; exact List.mem_cons_self)
    refine ⟨c, cs, by rw [chars, hlist], kindOf_of_isTokenChar hc, fun hmem => ?_⟩
    simp only [List.mem_cons, List.not_mem_nil, or_false] at hmem
    rcases hmem with rfl | rfl <;> exact absurd hc (by decide)
  | string s => exact ⟨'"', _, by rw [chars, quote]; rfl, rfl, by decide⟩
  | array h => exact ⟨'[', _, by rw [chars]; rfl, rfl, by decide⟩
  | object h => exact ⟨'\x7b', _, by rw [chars]; rfl, rfl, by decide⟩

theorem kind_eq {j j' : Json} {rest rest' : List Char} (hj : WellFormed j) (hj' : WellFormed j')
    (h : j.chars ++ rest = j'.chars ++ rest') : j.kind = j'.kind := by
  obtain ⟨c, cs, hchars, hkind, -⟩ := exists_chars_eq_cons hj
  obtain ⟨c', cs', hchars', hkind', -⟩ := exists_chars_eq_cons hj'
  rw [hchars, hchars'] at h
  rw [← hkind, ← hkind', (List.cons.inj h).1]

theorem head?_chars_ne {j : Json} (hj : WellFormed j) {close : Char} (hclose : close ∈ [']', '\x7d'])
    (rest : List Char) : (j.chars ++ rest).head? ≠ some close := by
  obtain ⟨c, cs, hchars, -, hc⟩ := exists_chars_eq_cons hj
  rw [hchars]
  rintro ⟨⟩
  exact hc hclose

/-- **A value ends where it seems to.** -/
theorem chars_append_inj {j j' : Json} {rest rest' : List Char} (hj : WellFormed j)
    (hj' : WellFormed j') (hrest : Ends rest) (hrest' : Ends rest')
    (h : j.chars ++ rest = j'.chars ++ rest') : j = j' ∧ rest = rest' := by
  have hkind : j.kind = j'.kind := kind_eq hj hj' h
  induction hj generalizing j' rest rest' with
  | null =>
    cases hj' with
    | null => exact ⟨rfl, List.append_cancel_left h⟩
    | bool | number | string | array | object => cases hkind
  | bool b =>
    cases hj' with
    | bool b' =>
      cases b <;> cases b' <;> first
        | exact ⟨rfl, List.append_cancel_left h⟩
        | exact absurd (List.cons.inj h).1 (by decide)
    | null | number | string | array | object => cases hkind
  | number ht =>
    cases hj' with
    | number ht' =>
      rw [chars, chars] at h
      obtain ⟨hlist, heq⟩ := append_inj_of_forall ht.chars ht'.chars (not_isTokenChar_of_ends hrest)
        (not_isTokenChar_of_ends hrest') h
      exact ⟨congrArg number (String.toList_injective hlist), heq⟩
    | null | bool | string | array | object => cases hkind
  | string s =>
    cases hj' with
    | string s' =>
      rw [chars, chars] at h
      obtain ⟨hs, heq⟩ := quote_append_inj h
      exact ⟨congrArg string hs, heq⟩
    | null | bool | number | array | object => cases hkind
  | @array items hitems ih =>
    cases hj' with
    | @array items' hitems' =>
      rw [chars, chars, itemChars_eq_joined, itemChars_eq_joined, List.append_assoc,
        List.append_assoc] at h
      have hclose : ']' ∈ [']', '\x7d'] := by decide
      obtain ⟨rfl, heq⟩ := joined_append_inj hclose
        (fun a ha => head?_chars_ne (hitems a ha) hclose)
        (fun a ha => head?_chars_ne (hitems' a ha) hclose)
        (fun a ha a' ha' r r' hr hr' heq =>
          ih a ha (hitems' a' ha') hr hr' heq (kind_eq (hitems a ha) (hitems' a' ha') heq))
        (List.cons.inj h).2
      exact ⟨rfl, heq⟩
    | null | bool | number | string | object => cases hkind
  | @object members hmembers ih =>
    cases hj' with
    | @object members' hmembers' =>
      rw [chars, chars, memberChars_eq_joined, memberChars_eq_joined, List.append_assoc,
        List.append_assoc] at h
      have hquote (m : String × Json) (r : List Char) :
          (memberText m ++ r).head? ≠ some '\x7d' := by
        rintro ⟨⟩
      obtain ⟨rfl, heq⟩ := joined_append_inj (by decide) (fun m _ => hquote m)
        (fun m _ => hquote m)
        (fun a ha a' ha' r r' hr hr' heq => by
          obtain ⟨name, value⟩ := a
          obtain ⟨name', value'⟩ := a'
          rw [memberText, memberText, List.append_assoc, List.append_assoc] at heq
          obtain ⟨rfl, hvalue⟩ := quote_append_inj heq
          have hchars := (List.cons.inj hvalue).2
          obtain ⟨hvalues, hr⟩ := ih _ ha (hmembers' _ ha') hr hr' hchars
            (kind_eq (hmembers _ ha) (hmembers' _ ha') hchars)
          exact ⟨congrArg (name, ·) hvalues, hr⟩)
        (List.cons.inj h).2
      exact ⟨rfl, heq⟩
    | null | bool | number | string | array => cases hkind

/-- **Values with one text are equal.** -/
theorem render_injective {j j' : Json} (hj : WellFormed j) (hj' : WellFormed j')
    (h : j.render = j'.render) : j = j' := by
  have hchars : j.chars ++ [] = j'.chars ++ [] := by
    rw [List.append_nil, List.append_nil]
    exact String.ofList_injective h
  exact (chars_append_inj hj hj' ends_nil ends_nil hchars).1

end QueryFilter.Json
