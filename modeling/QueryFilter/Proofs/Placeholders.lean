import QueryFilter.Proofs.Selection

/-!
# Placeholders and parameters

The conditions of a filter have a placeholder for each parameter, and no other: reading the text
from left to right finds them in the order of the parameters, each in the comparison that it belongs
to.

* `Sql.digitsBehind`, `Sql.numbersIn`: the placeholders of a text, found by their marks;
* `Sql.comparisonText`, `Sql.numbersIn_comparisonText`: a comparison written out has one;
* `Sql.followed`, `Sql.preceded`, `Sql.intercalate_split`: joined comparisons on both sides of one;
* **`Sql.whereClause_aligned`**.
-/

namespace QueryFilter.Sql

open Numeral

/-! ## Reading placeholders -/

/-- The character that a placeholder begins with. -/
def Dialect.markChar : Dialect → Char
  | postgres => '$'
  | sqlite => '?'

/-- The digits behind each mark in a text, from left to right. -/
def digitsBehind (mark : Char) : List Char → List (List Char)
  | [] => []
  | c :: cs =>
    if c = mark then cs.takeWhile (isDigit 10) :: digitsBehind mark cs else digitsBehind mark cs

/-- **The placeholders of a text**, from left to right: the digits of each as they are written. -/
def numbersIn (d : Dialect) (s : String) : List String :=
  (digitsBehind d.markChar s.toList).map String.ofList

theorem digitsBehind_append (mark : Char) {cs rest : List Char} (hrest : StopsDigits rest) :
    digitsBehind mark (cs ++ rest) = digitsBehind mark cs ++ digitsBehind mark rest := by
  induction cs with
  | nil => rfl
  | cons c cs ih =>
    rw [List.cons_append, digitsBehind, digitsBehind, takeWhile_append_of_stopsDigits hrest, ih]
    split <;> rfl

theorem digitsBehind_append_of_not_mem {mark : Char} {cs : List Char} (h : mark ∉ cs)
    (rest : List Char) : digitsBehind mark (cs ++ rest) = digitsBehind mark rest := by
  induction cs with
  | nil => rfl
  | cons c cs ih =>
    obtain ⟨hc, hcs⟩ := List.ne_and_not_mem_of_not_mem_cons h
    rw [List.cons_append, digitsBehind, if_neg hc.symm, ih hcs]

variable (d : Dialect)

/-- A text that does not begin with a digit leaves the placeholders in front of it alone. -/
theorem numbersIn_append {s t : String} (ht : StopsDigits t.toList) :
    numbersIn d (s ++ t) = numbersIn d s ++ numbersIn d t := by
  rw [numbersIn, String.toList_append, digitsBehind_append _ ht, List.map_append]
  rfl

theorem numbersIn_append_of_not_mem {d : Dialect} {s : String} (hs : d.markChar ∉ s.toList)
    (t : String) : numbersIn d (s ++ t) = numbersIn d t := by
  rw [numbersIn, String.toList_append, digitsBehind_append_of_not_mem hs]
  rfl

theorem numbersIn_of_not_mem {d : Dialect} {s : String} (hs : d.markChar ∉ s.toList) :
    numbersIn d s = [] := by
  rw [← String.append_empty (s := s), numbersIn_append_of_not_mem hs]
  rfl

/-- A placeholder written out. -/
def placeholderText (d : Dialect) (n : Nat) : String :=
  String.singleton d.markChar ++ decimal n

theorem numbersIn_placeholderText (n : Nat) : numbersIn d (placeholderText d n) = [decimal n] := by
  have hdigits : ∀ c ∈ Nat.toDigits 10 n, c.isDigit = true := fun _ => isDigit_of_mem_toDigits
  have hlist : (placeholderText d n).toList = d.markChar :: Nat.toDigits 10 n := by
    simp [placeholderText, decimal]
  have hmark : d.markChar ∉ Nat.toDigits 10 n := by
    intro hm
    have hdigit := hdigits _ hm
    cases d <;> exact absurd hdigit (by decide)
  have hnone : digitsBehind d.markChar (Nat.toDigits 10 n) = [] := by
    rw [← List.append_nil (Nat.toDigits 10 n), digitsBehind_append_of_not_mem hmark]
    rfl
  have hstops : StopsDigits [] := fun _ hc => absurd hc (Option.not_mem_none _)
  have hall : (Nat.toDigits 10 n).takeWhile (isDigit 10) = Nat.toDigits 10 n := by
    have htake := takeWhile_digits hdigits hstops
    rwa [List.append_nil] at htake
  rw [numbersIn, hlist, digitsBehind, if_pos rfl, hnone, hall]
  rfl

/-! ## Comparisons -/

/-- What stands between a column and the placeholder of its value. -/
def signText (d : Dialect) : Operator → String
  | .eq => " = "
  | .ne => " != "
  | .gt => " > "
  | .gte => " >= "
  | .lt => " < "
  | .lte => " <= "
  | .like =>
    match d with
    | .postgres => " ILIKE '%' || "
    | .sqlite => " LIKE '%' || "

/-- What stands behind the placeholder. -/
def endText : Operator → String
  | .like => " || '%'"
  | _ => ""

/-- **A comparison written out**: its attribute, its operator and a placeholder. -/
def comparisonText (d : Dialect) (p : Predicate) (n : Nat) : String :=
  p.attr ++ signText d p.operator ++ placeholderText d n ++ endText p.operator

theorem conditionText_eq (p : Predicate) (n : UInt64) :
    conditionText d p n = comparisonText d p n.toNat := by
  obtain ⟨attr, op, v⟩ := p
  apply String.toList_inj.1
  cases d <;> cases op <;>
    simp [conditionText, text, conditionWords, comparison?, comparisonText, signText, endText,
      placeholderText, Dialect.containment, Dialect.placeholder, Dialect.mark, Dialect.markChar,
      Dialect.likeKeyword]

/-- **A comparison has one placeholder**, its own. -/
theorem numbersIn_comparisonText {p : Predicate} (h : IsName p.attr) (n : Nat) :
    numbersIn d (comparisonText d p n) = [decimal n] := by
  have hattr : d.markChar ∉ p.attr.toList := by
    cases d <;> exact h.not_mem (by decide) (by decide)
  have hsign : d.markChar ∉ (signText d p.operator).toList := by
    cases d <;> cases p.operator <;> decide
  have hend : d.markChar ∉ (endText p.operator).toList := by
    cases d <;> cases p.operator <;> decide
  have hstops : StopsDigits (endText p.operator).toList := by
    cases p.operator <;> simp [endText, StopsDigits]
  rw [comparisonText, numbersIn_append d hstops, String.append_assoc,
    numbersIn_append_of_not_mem hattr, numbersIn_append_of_not_mem hsign,
    numbersIn_placeholderText, numbersIn_of_not_mem hend, List.append_nil]

/-- Comparisons written out, with placeholders numbered from `n`. -/
def comparisonTexts (d : Dialect) (n : Nat) (ps : List Predicate) : List String :=
  ps.mapIdx fun i p => comparisonText d p (n + i)

theorem comparisonTexts_cons (n : Nat) (p : Predicate) (ps : List Predicate) :
    comparisonTexts d n (p :: ps) = comparisonText d p n :: comparisonTexts d (n + 1) ps := by
  rw [comparisonTexts, List.mapIdx_cons, comparisonTexts]
  simp only [Nat.add_zero, Nat.add_assoc, Nat.add_comm 1]

theorem comparisonTexts_append (n : Nat) (ps qs : List Predicate) :
    comparisonTexts d n (ps ++ qs) =
      comparisonTexts d n ps ++ comparisonTexts d (n + ps.length) qs := by
  rw [comparisonTexts, List.mapIdx_append, comparisonTexts, comparisonTexts]
  simp only [Nat.add_assoc, Nat.add_comm ps.length]

theorem toNat_add_ofNat {start : UInt64} {i : Nat} (h : start.toNat + i < 2 ^ 64) :
    (start + UInt64.ofNat i).toNat = start.toNat + i := by
  have hi : i < UInt64.size := (Nat.le_add_left i start.toNat).trans_lt h
  rw [UInt64.toNat_add, UInt64.toNat_ofNat_of_lt' hi, Nat.mod_eq_of_lt h]

/-- Numbers that do not run over are those of the texts. -/
theorem mapIdx_conditionText {start : UInt64} {ps : List Predicate}
    (h : start.toNat + ps.length < 2 ^ 64) :
    (ps.mapIdx fun i p => conditionText d p (start + UInt64.ofNat i)) =
      comparisonTexts d start.toNat ps := by
  refine List.ext_getElem ?_ fun i hi _ => ?_
  · rw [comparisonTexts, List.length_mapIdx, List.length_mapIdx]
  · rw [List.length_mapIdx] at hi
    have hnumber : (start + UInt64.ofNat i).toNat = start.toNat + i :=
      toNat_add_ofNat ((Nat.add_lt_add_left hi _).trans h)
    simp only [comparisonTexts, List.getElem_mapIdx, conditionText_eq, hnumber]

/-- The comparisons of a filter are joined with `AND`. -/
theorem whereClause_sql_eq (f : Filter) {start : UInt64} (h : start.toNat + f.size < 2 ^ 64) :
    (whereClause d f start).sql =
      " AND ".intercalate (comparisonTexts d start.toNat f.predicates) := by
  rw [Filter.size_eq_length] at h
  rw [whereClause, text_conjunction, mapIdx_conditionText d h]

/-! ## Comparisons that are joined -/

/-- Texts that others follow, each with `AND` behind it. -/
def followed : List String → String
  | [] => ""
  | c :: cs => c ++ " AND " ++ followed cs

/-- Texts that follow others, each with `AND` in front of it. -/
def preceded : List String → String
  | [] => ""
  | c :: cs => " AND " ++ c ++ preceded cs

/-- Joined texts on both sides of one of them. -/
theorem intercalate_split (front : List String) (c : String) (back : List String) :
    " AND ".intercalate (front ++ c :: back) = followed front ++ c ++ preceded back := by
  induction front with
  | nil =>
    show " AND ".intercalate (c :: back) = "" ++ c ++ preceded back
    induction back generalizing c with
    | nil => simp [preceded]
    | cons c' back ih =>
      rw [String.intercalate_cons_of_ne_nil (List.cons_ne_nil _ _), ih, preceded]
      simp [String.append_assoc]
  | cons c' front ih =>
    have hne : front ++ c :: back ≠ [] :=
      List.append_ne_nil_of_right_ne_nil _ (List.cons_ne_nil _ _)
    rw [List.cons_append, String.intercalate_cons_of_ne_nil hne, ih, followed]
    simp [String.append_assoc]

theorem markChar_not_mem_and : d.markChar ∉ (" AND " : String).toList := by
  cases d <;> decide

theorem stopsDigits_and_append (s : String) : StopsDigits (" AND " ++ s).toList := by
  simp [StopsDigits]

theorem stopsDigits_preceded (cs : List String) : StopsDigits (preceded cs).toList := by
  cases cs with
  | nil => exact nofun
  | cons c cs =>
    rw [preceded, String.append_assoc]
    exact stopsDigits_and_append _

theorem numbersIn_followed (cs : List String) :
    numbersIn d (followed cs) = cs.flatMap (numbersIn d) := by
  induction cs with
  | nil => rfl
  | cons c cs ih =>
    rw [followed, String.append_assoc, numbersIn_append d (stopsDigits_and_append _),
      numbersIn_append_of_not_mem (markChar_not_mem_and d), ih, List.flatMap_cons]

theorem numbersIn_preceded (cs : List String) :
    numbersIn d (preceded cs) = cs.flatMap (numbersIn d) := by
  induction cs with
  | nil => rfl
  | cons c cs ih =>
    rw [preceded, String.append_assoc, numbersIn_append_of_not_mem (markChar_not_mem_and d),
      numbersIn_append d (stopsDigits_preceded cs), ih, List.flatMap_cons]

theorem numbersIn_intercalate (cs : List String) :
    numbersIn d (" AND ".intercalate cs) = cs.flatMap (numbersIn d) := by
  cases cs with
  | nil => rfl
  | cons c cs =>
    have hsplit := intercalate_split [] c cs
    rw [List.nil_append, followed, String.empty_append] at hsplit
    rw [hsplit, numbersIn_append d (stopsDigits_preceded cs), numbersIn_preceded,
      List.flatMap_cons]

/-- The placeholders of comparisons are numbered without a gap. -/
theorem flatMap_numbersIn_comparisonTexts {ps : List Predicate} (h : ∀ p ∈ ps, IsName p.attr)
    (n : Nat) : (comparisonTexts d n ps).flatMap (numbersIn d) =
      (List.range' n ps.length).map decimal := by
  induction ps generalizing n with
  | nil => rfl
  | cons p ps ih =>
    obtain ⟨hp, hps⟩ := List.forall_mem_cons.1 h
    rw [comparisonTexts_cons, List.flatMap_cons, numbersIn_comparisonText d hp, ih hps,
      List.length_cons, List.range'_succ]
    rfl

/-! ## Conditions and parameters -/

/-- **Conditions that are aligned with their parameters**: the placeholders are numbered without a
gap from `start`, each once and in the comparison of its parameter, and the conditions are empty
only if the filter is. -/
structure Aligned (d : Dialect) (f : Filter) (start : Nat) (w : WhereClause) : Prop where
  next : w.next.toNat = start + f.size
  params : w.params = f.predicates.map (·.value)
  joined : w.sql = " AND ".intercalate (comparisonTexts d start f.predicates)
  numbers : numbersIn d w.sql = (List.range' start f.size).map decimal
  nodup : (numbersIn d w.sql).Nodup
  inside : ∀ front p back, f.predicates = front ++ p :: back → ∃ before behind : String,
    w.sql = before ++ comparisonText d p (start + front.length) ++ behind ∧
    numbersIn d before = (List.range' start front.length).map decimal ∧
    numbersIn d (comparisonText d p (start + front.length)) = [decimal (start + front.length)] ∧
    numbersIn d behind = (List.range' (start + front.length + 1) back.length).map decimal
  sql_eq_empty_iff : w.sql = "" ↔ f.isEmpty = true

theorem numbersIn_sql {f : Filter} (hnames : ∀ p ∈ f.predicates, IsName p.attr) {start : UInt64}
    (hstart : start.toNat + f.size < 2 ^ 64) :
    numbersIn d (whereClause d f start).sql = (List.range' start.toNat f.size).map decimal := by
  rw [whereClause_sql_eq d f hstart, numbersIn_intercalate,
    flatMap_numbersIn_comparisonTexts d hnames, Filter.size_eq_length]

/-- The placeholders around a comparison are those of the predicates around it. -/
theorem exists_sql_split {f : Filter} (hnames : ∀ p ∈ f.predicates, IsName p.attr) {start : UInt64}
    (hstart : start.toNat + f.size < 2 ^ 64) {front : List Predicate} {p : Predicate}
    {back : List Predicate} (hsplit : f.predicates = front ++ p :: back) :
    ∃ before behind : String,
      (whereClause d f start).sql =
        before ++ comparisonText d p (start.toNat + front.length) ++ behind ∧
      numbersIn d before = (List.range' start.toNat front.length).map decimal ∧
      numbersIn d (comparisonText d p (start.toNat + front.length)) =
        [decimal (start.toNat + front.length)] ∧
      numbersIn d behind =
        (List.range' (start.toNat + front.length + 1) back.length).map decimal := by
  rw [hsplit] at hnames
  obtain ⟨hfront, hrest⟩ := List.forall_mem_append.1 hnames
  obtain ⟨hp, hback⟩ := List.forall_mem_cons.1 hrest
  refine ⟨followed (comparisonTexts d start.toNat front),
    preceded (comparisonTexts d (start.toNat + front.length + 1) back), ?_, ?_,
    numbersIn_comparisonText d hp _, ?_⟩
  · rw [whereClause_sql_eq d f hstart, hsplit, comparisonTexts_append, comparisonTexts_cons,
      intercalate_split]
  · rw [numbersIn_followed, flatMap_numbersIn_comparisonTexts d hfront]
  · rw [numbersIn_preceded, flatMap_numbersIn_comparisonTexts d hback]

/-- There is nothing to write only where there is no placeholder to write. -/
theorem sql_eq_empty_iff {f : Filter} (hnames : ∀ p ∈ f.predicates, IsName p.attr) {start : UInt64}
    (hstart : start.toNat + f.size < 2 ^ 64) :
    (whereClause d f start).sql = "" ↔ f.predicates = [] := by
  constructor
  · intro hempty
    have hlength := congrArg List.length (numbersIn_sql d hnames hstart)
    rw [hempty, List.length_map, List.length_range', Filter.size_eq_length] at hlength
    exact List.length_eq_zero_iff.1 hlength.symm
  · intro hnone
    rw [whereClause_sql_eq d f hstart, hnone]
    rfl

/-- The conditions of a filter are aligned, from whatever number on, as long as the last one is a
number of 64 bits. -/
theorem aligned_whereClause {f : Filter} {ps : List Predicate} (hf : f.MadeOf ps)
    (hnames : ∀ attr ∈ f.attributes, IsName attr) {start : UInt64}
    (hstart : start.toNat + f.size < 2 ^ 64) :
    Aligned d f start.toNat (whereClause d f start) := by
  obtain rfl := hf.eq_ofPredicates
  have hnamed : ∀ p ∈ (Filter.ofPredicates ps).predicates, IsName p.attr := fun p hp =>
    hnames _ (Filter.mem_attributes_ofPredicates.2
      ⟨p, Filter.mem_predicates_ofPredicates.1 hp, rfl⟩)
  have hnumbers := numbersIn_sql d hnamed hstart
  exact {
    next := by
      rw [Filter.size_eq_length] at hstart ⊢
      exact toNat_add_ofNat hstart
    params := rfl
    joined := whereClause_sql_eq d _ hstart
    numbers := hnumbers
    nodup := by
      rw [hnumbers]
      exact List.Nodup.map (fun _ _ h => decimal_injective h) List.nodup_range'
    inside := fun _ _ _ hsplit => exists_sql_split d hnamed hstart hsplit
    sql_eq_empty_iff := by
      rw [Filter.isEmpty_ofPredicates_iff]
      exact sql_eq_empty_iff d hnamed hstart }

/-- **Placeholders and parameters stay aligned**, in every dialect; the parameters and the next
number are the same in all. -/
theorem whereClause_aligned {f : Filter} {ps : List Predicate} (hf : f.MadeOf ps)
    (hnames : ∀ attr ∈ f.attributes, IsName attr) {start : UInt64}
    (hstart : start.toNat + f.size < 2 ^ 64) :
    (∀ d, Aligned d f start.toNat (whereClause d f start)) ∧
      ∀ d d', (whereClause d f start).params = (whereClause d' f start).params ∧
        (whereClause d f start).next = (whereClause d' f start).next :=
  ⟨fun d => aligned_whereClause d hf hnames hstart, fun _ _ => ⟨rfl, rfl⟩⟩

/-- A filter that was put together in three ways, with numbers that grow by a digit. -/
theorem whereClause_aligned_tenth :
    let f := ((Filter.ofPredicates [⟨"title", .like, .text "$1"⟩]).push ⟨"AND", .ne, .int 7⟩).extend
      [⟨"title", .eq, .text "?3"⟩]
    f.MadeOf [⟨"title", .like, .text "$1"⟩, ⟨"AND", .ne, .int 7⟩, ⟨"title", .eq, .text "?3"⟩] ∧
      (∀ attr ∈ f.attributes, IsName attr) ∧ (9 : UInt64).toNat + f.size < 2 ^ 64 ∧
      (whereClause .postgres f 9).sql = "AND != $9 AND title ILIKE '%' || $10 || '%' AND title = $11" ∧
      numbersIn .postgres (whereClause .postgres f 9).sql = ["9", "10", "11"] ∧
      Aligned .postgres f 9 (whereClause .postgres f 9) ∧
      Aligned .sqlite f 9 (whereClause .sqlite f 9) := by
  intro f
  have hf : f.MadeOf
      [⟨"title", .like, .text "$1"⟩, ⟨"AND", .ne, .int 7⟩, ⟨"title", .eq, .text "?3"⟩] :=
    ((Filter.MadeOf.collect _).push _).extend _
  have hnames : ∀ attr ∈ f.attributes, IsName attr := by
    have hall : f.attributes.all isIdentifier = true := by decide +kernel
    exact fun attr hattr => isIdentifier_iff.1 (List.all_eq_true.1 hall attr hattr)
  have hstart : (9 : UInt64).toNat + f.size < 2 ^ 64 := by decide +kernel
  obtain ⟨haligned, -⟩ := whereClause_aligned hf hnames hstart
  have hnumbers := (haligned .postgres).numbers
  exact ⟨hf, hnames, hstart, by decide +kernel, hnumbers.trans (by decide +kernel),
    haligned .postgres, haligned .sqlite⟩

end QueryFilter.Sql
