import QueryFilter.Proofs.Building
import QueryFilter.Proofs.Compile
import QueryFilter.Proofs.Numeral
import QueryFilter.Sql.Statement

/-!
# Reading statements back

A statement is a sequence of words with one space between them, and no word has a space in it. The
words are therefore found again in its text, and the place of a word tells what it is: no name is
taken for a keyword, whatever it is spelled like.

* `IsWord`, `text_injective`: texts of words;
* `clauses`, `select_eq`, `count_eq`: a statement is made of names, comparisons and the page;
* `columnWords_append_inj`, `clauses_append_inj`: the parts of a statement end where they seem to;
* **`select_unambiguous`**: statements with one text are for one table, the same columns, the same
  comparisons and the same page.
-/

namespace QueryFilter

/-- A character that stands in no name. -/
theorem IsName.not_mem {s : String} (h : IsName s) {c : Char} (hc : c.isAlphanum = false)
    (hu : c ≠ '_') : c ∉ s.toList := by
  intro hm
  rcases h.chars c hm with ha | he
  · rw [hc] at ha
    cases ha
  · exact hu he

namespace Sql

/-! ## Words -/

/-- A text without a space. -/
def IsWord (w : String) : Prop :=
  ' ' ∉ w.toList

instance (w : String) : Decidable (IsWord w) := by
  unfold IsWord
  infer_instance

theorem isWord_append {v w : String} (hv : IsWord v) (hw : IsWord w) : IsWord (v ++ w) := by
  unfold IsWord
  rw [String.toList_append, List.mem_append]
  exact not_or.2 ⟨hv, hw⟩

theorem isWord_of_isName {s : String} (h : IsName s) : IsWord s :=
  h.not_mem (by decide) (by decide)

theorem isWord_decimal (n : Nat) : IsWord (Numeral.decimal n) := by
  intro h
  rw [Numeral.decimal, String.toList_ofList] at h
  have hdigit := Nat.isDigit_of_mem_toDigits (by decide) (by decide) h
  exact absurd hdigit (by decide)

theorem text_cons (w : String) {ws : List String} (h : ws ≠ []) :
    text (w :: ws) = w ++ " " ++ text ws :=
  String.intercalate_cons_of_ne_nil h

theorem text_append {ws ws' : List String} (h : ws ≠ []) (h' : ws' ≠ []) :
    text (ws ++ ws') = text ws ++ " " ++ text ws' :=
  String.intercalate_append_of_ne_nil h h'

/-- **The words of a text are found again in it.** -/
theorem text_injective {ws ws' : List String} (h : ∀ w ∈ ws, IsWord w) (h' : ∀ w ∈ ws', IsWord w)
    (hne : ws ≠ []) (hne' : ws' ≠ []) (heq : text ws = text ws') : ws = ws' := by
  have split {ws : List String} (h : ∀ w ∈ ws, IsWord w) (hne : ws ≠ []) :
      (text ws).toList.splitOn ' ' = ws.map String.toList := by
    have hwords : ∀ l ∈ ws.map String.toList, ' ' ∉ l := by
      intro l hl
      obtain ⟨w, hw, rfl⟩ := List.mem_map.1 hl
      exact h w hw
    rw [text, String.toList_intercalate]
    exact List.splitOn_intercalate ' ' hwords (by simpa using hne)
  have hlists : ws.map String.toList = ws'.map String.toList := by
    rw [← split h hne, heq, split h' hne']
  exact List.map_injective_iff.2 (fun _ _ => String.toList_inj.1) hlists

/-! ## Comparisons without values -/

/-- The word between a column and what it is compared with. -/
def operatorWord (d : Dialect) (op : Operator) : String :=
  (comparison? op).getD d.likeKeyword

/-- The words of what a column is compared with. -/
def operandWords (d : Dialect) (op : Operator) (n : UInt64) : List String :=
  match comparison? op with
  | some _ => [d.placeholder n]
  | none => ["'%'", "||", d.placeholder n, "||", "'%'"]

/-- The words of comparisons: the first behind a keyword, and the others behind `AND`. -/
def clauses (d : Dialect) (keyword : String) (n : UInt64) : List Token → List String
  | [] => []
  | t :: ts => keyword :: t.attr :: operatorWord d t.operator :: operandWords d t.operator n ++
      clauses d "AND" (n + 1) ts

theorem conditionWords_eq (d : Dialect) (p : Predicate) (n : UInt64) :
    conditionWords d p n =
      p.attr :: operatorWord d p.operator :: operandWords d p.operator n := by
  unfold conditionWords operatorWord operandWords
  cases comparison? p.operator <;> rfl

theorem conjunction_cons (d : Dialect) (n : UInt64) (p : Predicate) (ps : List Predicate) :
    conjunction d n (p :: ps) =
      conditionWords d p n ++ clauses d "AND" (n + 1) (ps.map (·.token)) := by
  induction ps generalizing p n with
  | nil => exact (List.append_nil _).symm
  | cons q ps ih =>
    rw [conjunction, ih, List.map_cons, clauses, conditionWords_eq d q]
    simp [Predicate.token]

/-- A restriction is made of the comparisons of the filter. -/
theorem restrictionWords_eq (d : Dialect) (f : Filter) :
    restrictionWords d f = clauses d "WHERE" 1 f.tokens := by
  unfold restrictionWords Filter.tokens
  match f.predicates with
  | [] => rfl
  | p :: ps =>
    simp only
    rw [conjunction_cons, List.map_cons, clauses, conditionWords_eq]
    simp [Predicate.token]

/-! ## Statements with identifiers for names -/

/-- The words of a statement before those of the page. -/
def listingWords (d : Dialect) (table : String) (columns : List String) (ts : List Token) :
    List String :=
  "SELECT" :: columnWords columns ++ "FROM" :: table :: clauses d "WHERE" 1 ts

theorem listingWords_ne_nil (d : Dialect) (table : String) (columns : List String)
    (ts : List Token) : listingWords d table columns ts ≠ [] :=
  List.cons_ne_nil _ _

/-- The numbers of a page stand behind the other words of a statement. -/
theorem text_append_pageWords {ws : List String} (hne : ws ≠ []) (p : Pagination) :
    text (ws ++ pageWords p) = text ws ++ " LIMIT " ++ Numeral.decimal p.take.toNat ++ " OFFSET " ++
      Numeral.decimal p.skip.toNat := by
  have hpage : text (pageWords p) =
      "LIMIT" ++ " " ++ Numeral.decimal p.take.toNat ++ " " ++ "OFFSET" ++ " " ++
        Numeral.decimal p.skip.toNat := by
    apply String.toList_inj.1
    simp [text, pageWords]
  have hpage_ne : pageWords p ≠ [] := List.cons_ne_nil _ _
  rw [text_append hne hpage_ne, hpage]
  apply String.toList_inj.1
  simp

/-- The words of a statement for a total. -/
def totalWords (d : Dialect) (table : String) (ts : List Token) : List String :=
  "SELECT" :: "COUNT(*)" :: "FROM" :: table :: clauses d "WHERE" 1 ts

theorem checkIdentifier_of_isName {role name : String} (h : IsName name) :
    checkIdentifier role name = .ok () :=
  if_pos (isIdentifier_iff.2 h)

theorem forM_checkIdentifier {role : String} {names : List String} (h : ∀ c ∈ names, IsName c) :
    names.forM (checkIdentifier role) = .ok () := by
  induction names with
  | nil => rfl
  | cons name names ih =>
    obtain ⟨hname, hnames⟩ := List.forall_mem_cons.1 h
    have hcheck : checkIdentifier role name = .ok () := checkIdentifier_of_isName hname
    rw [List.forM_eq_forM, List.forM_cons, hcheck]
    exact ih hnames

variable {d : Dialect} {table table' : String} {columns columns' : List String}

theorem select_eq (d : Dialect) (ht : IsName table) (hc : ∀ c ∈ columns, IsName c)
    (q : CompiledQuery) : select d table columns q =
      .ok ⟨text (listingWords d table columns q.filter.tokens ++ pageWords q.pagination),
        params q.filter⟩ := by
  rw [select, checkIdentifier_of_isName ht, forM_checkIdentifier hc, restrictionWords_eq]
  rfl

theorem count_eq (d : Dialect) (ht : IsName table) (f : Filter) :
    count d table f = .ok ⟨text (totalWords d table f.tokens), params f⟩ := by
  rw [count, checkIdentifier_of_isName ht, restrictionWords_eq]
  rfl

/-! ## The parts of a statement -/

theorem ne_append_comma {w c : String} (h : ',' ∉ w.toList) : w ≠ c ++ "," := by
  rintro rfl
  exact h (by simp)

theorem isName_ne_star {c : String} (h : IsName c) : c ≠ "*" := by
  rintro rfl
  exact h.not_mem (c := '*') (by decide) (by decide) (by decide)

/-- The columns of a statement end at the first word without a comma, even if it is `FROM`. -/
theorem columnWords_append_inj {rest rest' : List String} (h : ∀ c ∈ columns, IsName c)
    (h' : ∀ c ∈ columns', IsName c)
    (heq : columnWords columns ++ rest = columnWords columns' ++ rest') :
    columns = columns' ∧ rest = rest' := by
  have plain {c : String} (hc : IsName c) : ',' ∉ c.toList := hc.not_mem (by decide) (by decide)
  have star : ',' ∉ ("*" : String).toList := by decide
  induction columns generalizing columns' with
  | nil =>
    match columns' with
    | [] => exact ⟨rfl, (List.cons.inj heq).2⟩
    | [c'] => exact absurd (List.cons.inj heq).1.symm (isName_ne_star (h' c' List.mem_cons_self))
    | c' :: e' :: cs' => exact absurd (List.cons.inj heq).1 (ne_append_comma star)
  | cons c cs ih =>
    obtain ⟨hc, hcs⟩ := List.forall_mem_cons.1 h
    -- where one list ends here and the other does not, one word has a comma and the other has none
    match cs, columns' with
    | [], [] => exact absurd (List.cons.inj heq).1 (isName_ne_star hc)
    | [], [c'] =>
      obtain ⟨hname, hrest⟩ := List.cons.inj heq
      exact ⟨by rw [hname], hrest⟩
    | [], c' :: e' :: cs' => exact absurd (List.cons.inj heq).1 (ne_append_comma (plain hc))
    | e :: cs, [] => exact absurd (List.cons.inj heq).1.symm (ne_append_comma star)
    | e :: cs, [c'] =>
      have hc' : IsName c' := h' c' List.mem_cons_self
      exact absurd (List.cons.inj heq).1.symm (ne_append_comma (plain hc'))
    | e :: cs, c' :: e' :: cs' =>
      obtain ⟨hname, htail⟩ := List.cons.inj heq
      have hname : c = c' := (String.append_left_inj ",").1 hname
      obtain ⟨hcols, hrest⟩ := ih hcs (List.forall_mem_cons.1 h').2 htail
      exact ⟨by rw [hname, hcols], hrest⟩

theorem operatorWord_injective {op op' : Operator} (h : operatorWord d op = operatorWord d op') :
    op = op' := by
  revert h
  cases d <;> cases op <;> cases op' <;> decide

/-- The comparisons of a statement end before the words of the page, and none is taken for
another. -/
theorem clauses_append_inj {keyword : String} (hk : keyword ≠ "LIMIT") {n : UInt64}
    {ts ts' : List Token} {rest rest' : List String}
    (heq : clauses d keyword n ts ++ "LIMIT" :: rest =
      clauses d keyword n ts' ++ "LIMIT" :: rest') : ts = ts' ∧ rest = rest' := by
  induction ts generalizing keyword n ts' with
  | nil =>
    match ts' with
    | [] => exact ⟨rfl, (List.cons.inj heq).2⟩
    | t' :: ts' => exact absurd (List.cons.inj heq).1.symm hk
  | cons t ts ih =>
    match ts' with
    | [] => exact absurd (List.cons.inj heq).1 hk
    | t' :: ts' =>
      simp only [clauses, List.cons_append, List.append_assoc, List.cons.injEq] at heq
      obtain ⟨-, hattr, hword, htail⟩ := heq
      -- the operators have to be the same before the operands are known to be as long
      have hop : t.operator = t'.operator := operatorWord_injective hword
      rw [hop] at htail
      obtain ⟨hts, hrest⟩ := ih (by decide) (List.append_cancel_left htail)
      have ht : t = t' := by
        rw [show t = ⟨t.attr, t.operator⟩ from rfl, hattr, hop]
      exact ⟨by rw [ht, hts], hrest⟩

theorem pageWords_injective {p p' : Pagination} (h : pageWords p = pageWords p') :
    p.take = p'.take ∧ p.skip = p'.skip := by
  simp only [pageWords, List.cons.injEq] at h
  obtain ⟨-, htake, -, hskip, -⟩ := h
  exact ⟨UInt32.toNat_inj.1 (Numeral.decimal_injective htake),
    UInt64.toNat_inj.1 (Numeral.decimal_injective hskip)⟩

/-! ## No word has a space in it -/

theorem isWord_columnWords (h : ∀ c ∈ columns, IsName c) : ∀ w ∈ columnWords columns, IsWord w := by
  induction columns with
  | nil => decide
  | cons c cs ih =>
    obtain ⟨hc, hcs⟩ := List.forall_mem_cons.1 h
    have hword : IsWord c := isWord_of_isName hc
    match cs with
    | [] => exact List.forall_mem_singleton.2 hword
    | e :: cs =>
      exact List.forall_mem_cons.2 ⟨isWord_append hword (by decide), ih hcs⟩

theorem isWord_operatorWord (d : Dialect) (op : Operator) : IsWord (operatorWord d op) := by
  cases d <;> cases op <;> decide

theorem isWord_operandWords (d : Dialect) (op : Operator) (n : UInt64) :
    ∀ w ∈ operandWords d op n, IsWord w := by
  have hmark : IsWord d.mark := by cases d <;> decide
  have hplaceholder : IsWord (d.placeholder n) := isWord_append hmark (isWord_decimal _)
  unfold operandWords
  split
  · exact List.forall_mem_singleton.2 hplaceholder
  · intro w hw
    simp only [List.mem_cons, List.not_mem_nil, or_false] at hw
    rcases hw with rfl | rfl | rfl | rfl | rfl
    · decide
    · decide
    · exact hplaceholder
    · decide
    · decide

theorem isWord_clauses {keyword : String} (hk : IsWord keyword) {n : UInt64} {ts : List Token}
    (h : ∀ t ∈ ts, IsName t.attr) : ∀ w ∈ clauses d keyword n ts, IsWord w := by
  induction ts generalizing keyword n with
  | nil => exact fun w hw => absurd hw List.not_mem_nil
  | cons t ts ih =>
    obtain ⟨ht, hts⟩ := List.forall_mem_cons.1 h
    intro w hw
    rw [clauses, List.mem_append, List.mem_cons, List.mem_cons, List.mem_cons] at hw
    rcases hw with (rfl | rfl | rfl | hw) | hw
    · exact hk
    · exact isWord_of_isName ht
    · exact isWord_operatorWord d _
    · exact isWord_operandWords d _ _ w hw
    · exact ih (by decide) hts w hw

theorem isWord_pageWords (p : Pagination) : ∀ w ∈ pageWords p, IsWord w := by
  intro w hw
  simp only [pageWords, List.mem_cons, List.not_mem_nil, or_false] at hw
  rcases hw with rfl | rfl | rfl | rfl
  · decide
  · exact isWord_decimal _
  · decide
  · exact isWord_decimal _

theorem isWord_listingWords (ht : IsName table) (hc : ∀ c ∈ columns, IsName c) {ts : List Token}
    (h : ∀ t ∈ ts, IsName t.attr) : ∀ w ∈ listingWords d table columns ts, IsWord w := by
  intro w hw
  rw [listingWords, List.cons_append, List.mem_cons, List.mem_append, List.mem_cons,
    List.mem_cons] at hw
  rcases hw with rfl | hw | rfl | rfl | hw
  · decide
  · exact isWord_columnWords hc w hw
  · decide
  · exact isWord_of_isName ht
  · exact isWord_clauses (by decide) h w hw

/-! ## Whole statements -/

/-- Names that are all identifiers: of a table, of columns and of the attributes of a filter. -/
structure WellNamed (table : String) (columns : List String) (f : Filter) : Prop where
  table : IsName table
  columns : ∀ c ∈ columns, IsName c
  attributes : ∀ p ∈ f.predicates, IsName p.attr

theorem WellNamed.tokens {f : Filter} (h : WellNamed table columns f) :
    ∀ t ∈ f.tokens, IsName t.attr := by
  intro t ht
  obtain ⟨p, hp, rfl⟩ := List.mem_map.1 ht
  exact h.attributes p hp

theorem listing_page_injective {ts ts' : List Token} {p p' : Pagination}
    (hc : ∀ c ∈ columns, IsName c) (hc' : ∀ c ∈ columns', IsName c)
    (heq : listingWords d table columns ts ++ pageWords p =
      listingWords d table' columns' ts' ++ pageWords p') :
    table = table' ∧ columns = columns' ∧ ts = ts' ∧ p.take = p'.take ∧ p.skip = p'.skip := by
  simp only [listingWords, List.cons_append, List.append_assoc, List.cons.injEq, true_and] at heq
  obtain ⟨hcolumns, htail⟩ := columnWords_append_inj hc hc' heq
  simp only [List.cons.injEq, true_and] at htail
  obtain ⟨htable, hclauses⟩ := htail
  obtain ⟨hts, hpage⟩ := clauses_append_inj (by decide) hclauses
  obtain ⟨htake, hskip⟩ := pageWords_injective (congrArg ("LIMIT" :: ·) hpage)
  exact ⟨htable, hcolumns, hts, htake, hskip⟩

/-- **Statements are unambiguous.** Two statements of one dialect have the same text if and only if
they are for the same table, columns, comparisons and page. The names that go into them have to be
identifiers, keywords among them; the attributes of an accepted query are. -/
theorem select_unambiguous :
    (∀ (d : Dialect) {table table' : String} {columns columns' : List String}
      {q q' : CompiledQuery}, WellNamed table columns q.filter →
      WellNamed table' columns' q'.filter →
        ∃ s s' : Statement, select d table columns q = .ok s ∧
          select d table' columns' q' = .ok s' ∧
          (s.sql = s'.sql ↔ table = table' ∧ columns = columns' ∧
            q.filter.tokens = q'.filter.tokens ∧
            q.pagination.take = q'.pagination.take ∧ q.pagination.skip = q'.pagination.skip)) ∧
    ∀ {b : FieldSpec.Builder} {spec : FieldSpec} {raw : RawQuery} {q : CompiledQuery},
      b.build = .ok spec → spec.compile raw = .ok q → ∀ p ∈ q.filter.predicates, IsName p.attr := by
  constructor
  · intro d table table' columns columns' q q' h h'
    refine ⟨_, _, select_eq d h.table h.columns q, select_eq d h'.table h'.columns q', ?_⟩
    constructor
    · intro heq
      have hwords : ∀ w ∈ listingWords d table columns q.filter.tokens ++ pageWords q.pagination,
          IsWord w := List.forall_mem_append.2
        ⟨isWord_listingWords h.table h.columns h.tokens, isWord_pageWords _⟩
      have hwords' : ∀ w ∈ listingWords d table' columns' q'.filter.tokens ++
          pageWords q'.pagination, IsWord w := List.forall_mem_append.2
        ⟨isWord_listingWords h'.table h'.columns h'.tokens, isWord_pageWords _⟩
      exact listing_page_injective h.columns h'.columns
        (text_injective hwords hwords' (by simp [listingWords]) (by simp [listingWords]) heq)
    · rintro ⟨rfl, rfl, htokens, htake, hskip⟩
      rw [pageWords, pageWords, htokens, htake, hskip]
  · intro b spec raw q hb hq p hp
    have hadmits := FieldSpec.admits_of_mem_predicates hq hp
    exact isIdentifier_iff.1 ((FieldSpec.Builder.build_wellFormed hb).identifier hadmits.1)

/-- Names that are spelled like keywords. -/
theorem unambiguous_keywords :
    let b : FieldSpec.Builder := { anyOperator := ["AND", "LIMIT"] }
    let spec := b.rules {}
    let raw : RawQuery := .ofList [("AND_gte", "1"), ("LIMIT_like", "OFFSET 5"), ("page", "3")]
    ∃ q : CompiledQuery, b.build = .ok spec ∧ spec.compile raw = .ok q ∧
      WellNamed "FROM" ["FROM", "WHERE"] q.filter ∧ WellNamed "WHERE" ["FROM"] q.filter ∧
      ∃ s s' : Statement, select .sqlite "FROM" ["FROM", "WHERE"] q = .ok s ∧
        select .sqlite "WHERE" ["FROM"] q = .ok s' ∧ s.sql ≠ s'.sql := by
  intro b spec raw
  have hb : b.build = .ok spec := by decide +kernel
  have name {s : String} (h : isIdentifier s = true) : IsName s := isIdentifier_iff.1 h
  have hcompiled : ∃ q, spec.compile raw = .ok q := ⟨_, rfl⟩
  obtain ⟨q, hq⟩ := hcompiled
  have hattributes := select_unambiguous.2 hb hq
  have hleft : WellNamed "FROM" ["FROM", "WHERE"] q.filter :=
    ⟨name (by decide), by simpa using ⟨name (by decide), name (by decide)⟩, hattributes⟩
  have hright : WellNamed "WHERE" ["FROM"] q.filter :=
    ⟨name (by decide), by simpa using name (by decide), hattributes⟩
  obtain ⟨s, s', hs, hs', hiff⟩ := select_unambiguous.1 .sqlite hleft hright
  exact ⟨q, hb, hq, hleft, hright, s, s', hs, hs', fun heq => absurd (hiff.1 heq).1 (by decide)⟩

end Sql

end QueryFilter
