import QueryFilter.Proofs.BoundValues
import QueryFilter.Proofs.Conservation
import QueryFilter.Proofs.Numbers

/-!
# Values written out

A value that is written out and put into a query again becomes the same value, whatever operator it
was read for, unless it is a floating-point number.

* `Numeral.writesInteger_decimalInt`: an integer that is written out is a numeral of itself;
* `coerce_cases`, **`coerce_display`**: the kinds of values, and values read back;
* `CompiledQuery.link`, `FieldSpec.Reprints`: queries with values written out;
* **`FieldSpec.display_stable`**.
-/

namespace QueryFilter

/-! ## Integers -/

namespace Numeral

theorem writesInteger_decimalInt (i : Int) : WritesInteger (decimalInt i).toList i := by
  cases i with
  | ofNat n => exact ⟨false, [], _, n, String.toList_ofList, .absent, writesNatural_toDigits n, rfl⟩
  | negSucc n =>
    have hlist : (decimalInt (.negSucc n)).toList = ['-'] ++ Nat.toDigits 10 (n + 1) := by
      simp [decimalInt, decimal]
    exact ⟨true, ['-'], _, n + 1, hlist, .minus, writesNatural_toDigits (n + 1), rfl⟩

end Numeral

theorem writes_decimalInt (n : Int64) : Writes (Numeral.decimalInt n.toInt) (.int n) :=
  .int (Numeral.writesInteger_decimalInt n.toInt)

/-- No truth value is named by a number. -/
theorem Writes.ne_truthValue {raw : String} {v : Value} (h : Writes raw v) :
    raw ≠ "true" ∧ raw ≠ "false" := by
  have hnumeric := h.isNumeric.2
  constructor
  · rintro rfl
    exact absurd (hnumeric 't' (by decide)) (by unfold IsNumeric; decide)
  · rintro rfl
    exact absurd (hnumeric 'f' (by decide)) (by unfold IsNumeric; decide)

/-- A number is what every operator but `like` takes a text for that writes it. -/
theorem coerce_of_writes {op : Operator} (hop : op ≠ .like) {raw : String} {v : Value}
    (h : Writes raw v) : coerce op raw = .ok v := by
  cases hrange : op.isRange with
  | true => exact (coerce_range_eq_ok_iff hrange).2 h
  | false =>
    cases op with
    | gt | gte | lt | lte => cases hrange
    | like => exact absurd rfl hop
    | ne => exact coerce_ne_eq_ok_iff.2 (.inl h)
    | eq =>
      obtain ⟨htrue, hfalse⟩ := h.ne_truthValue
      exact coerce_eq_eq_ok_iff.2 (.inr (.inr ⟨htrue, hfalse, .inl h⟩))

/-! ## Values -/

variable {op : Operator} {raw : String} {v : Value}

/-- **The kinds of values**: a truth value is read for `eq` only, from its name; a number is not
read for `like`; a text is the text that it is read from. -/
theorem coerce_cases (h : coerce op raw = .ok v) :
    (∃ b, op = .eq ∧ v = .bool b) ∨ (op ≠ .like ∧ Writes raw v) ∨ v = .text raw := by
  cases hrange : op.isRange with
  | true =>
    refine .inr (.inl ⟨?_, (coerce_range_eq_ok_iff hrange).1 h⟩)
    rintro rfl
    cases hrange
  | false =>
    cases op with
    | gt | gte | lt | lte => cases hrange
    | like => exact .inr (.inr (Except.ok.inj h).symm)
    | ne =>
      rcases coerce_ne_eq_ok_iff.1 h with hnumber | ⟨-, htext⟩
      · exact .inr (.inl ⟨by decide, hnumber⟩)
      · exact .inr (.inr htext)
    | eq =>
      rcases coerce_eq_eq_ok_iff.1 h with ⟨-, hv⟩ | ⟨-, hv⟩ | ⟨-, -, hnumber | ⟨-, htext⟩⟩
      · exact .inl ⟨true, rfl, hv⟩
      · exact .inl ⟨false, rfl, hv⟩
      · exact .inr (.inl ⟨by decide, hnumber⟩)
      · exact .inr (.inr htext)

/-- **A value that is written out is read back.** -/
theorem coerce_display (h : coerce op raw = .ok v) (hfloat : ∀ x, v ≠ .float x) :
    coerce op v.display = .ok v := by
  rcases coerce_cases h with ⟨b, rfl, rfl⟩ | ⟨hop, hnumber⟩ | rfl
  · cases b <;> rfl
  · cases hnumber with
    | int => exact coerce_of_writes hop (writes_decimalInt _)
    | float => exact absurd rfl (hfloat _)
  · exact h

/-! ## Queries -/

/-- A query made of the values of a compiled one, each written out at the key of its comparison. -/
def CompiledQuery.link (q : CompiledQuery) : RawQuery :=
  .ofList (q.filter.predicates.map fun p => (p.token.key, p.value.display))

namespace FieldSpec

variable {spec : FieldSpec} {raw raw' : RawQuery} {q : CompiledQuery}

/-- **A query that reprints another one**: at some plain keys, the values that were compiled are
written out, and the other plain keys are left alone. Floating-point numbers are not written out. -/
def Reprints (spec : FieldSpec) (raw raw' : RawQuery) (q : CompiledQuery) : Prop :=
  ∀ key, spec.IsPlain key → raw'.get? key = raw.get? key ∨
    ∃ p ∈ q.filter.predicates, p.token.key = key ∧ (∀ x, p.value ≠ .float x) ∧
      raw'.get? key = some p.value.display

/-- A reprinted query is accepted with the same filter. -/
theorem compile_of_reprints (hq : spec.compile raw = .ok q) (h : spec.Reprints raw raw' q) :
    spec.compile raw' =
      .ok ⟨q.filter, (spec.limits.extract raw').value, spec.reservedParameters raw'⟩ := by
  refine compile_congr_of_alike (fun key hkey => ?_) hq
  rcases h key hkey with hsame | ⟨p, hp, rfl, hfloat, hdisplay⟩
  · rw [hsame]
    cases raw.get? key with
    | none => exact .none
    | some value => exact .some (Alike.refl key value)
  · obtain ⟨value, hv, hroute, hc⟩ := binds_of_mem_predicates hq hp
    rw [hv, hdisplay]
    refine .some fun t ht => ?_
    have ht_eq : t = p.token := (filterToken?_eq_some_iff.1 ht).2.1.trans
      (route_eq_filter_iff.1 hroute).2.1.symm
    rw [ht_eq]
    exact hc.trans (coerce_display hc hfloat).symm

theorem nodup_keys_predicates (hq : spec.compile raw = .ok q) :
    (q.filter.predicates.map (·.token.key)).Nodup := by
  obtain ⟨-, -, rfl⟩ := compile_eq_ok_iff.1 hq
  have hnodup : ((spec.acceptedPredicates raw).map (·.token.key)).Nodup :=
    List.pairwise_map.2 ((spec.acceptedPredicates_pairwise raw).imp fun hlt => ne_of_lt hlt)
  exact ((Filter.predicates_ofPredicates_perm _).map _).nodup_iff.2 hnodup

theorem get?_link (hq : spec.compile raw = .ok q) {key value : String} :
    q.link.get? key = some value ↔
      ∃ p ∈ q.filter.predicates, p.token.key = key ∧ p.value.display = value := by
  have hnodup : ((q.filter.predicates.map fun p => (p.token.key, p.value.display)).reverse.map
      (·.1)).Nodup := by
    rw [List.map_reverse, List.nodup_reverse, List.map_map]
    exact nodup_keys_predicates hq
  rw [CompiledQuery.link, KeyMap.get?_ofList, KeyMap.lookup_eq_some_iff_of_nodup hnodup]
  simp

/-- Every plain key of an accepted query is the key of a predicate. -/
theorem exists_predicate_of_get? (hq : spec.compile raw = .ok q) {key value : String}
    (hkey : spec.IsPlain key) (hv : raw.get? key = some value) :
    ∃ p ∈ q.filter.predicates, p.token.key = key := by
  obtain ⟨hr, hc, -⟩ := compile_eq_ok_iff.1 hq
  obtain ⟨v, -, hp⟩ := exists_predicate? hr hc (KeyMap.mem_entries_iff.2 hv) hkey
  have haccepted := mem_acceptedPredicates_iff.2 ⟨key, value, hv, predicate?_eq_some_iff.1 hp⟩
  exact ⟨_, (mem_predicates_iff hq).2 haccepted, key_eq_of_predicate? hp⟩

/-- Without floating-point numbers, the link of a compiled query reprints the query. -/
theorem reprints_link (hq : spec.compile raw = .ok q)
    (hfloat : ∀ p ∈ q.filter.predicates, ∀ x, p.value ≠ .float x) :
    spec.Reprints raw q.link q := by
  intro key hkey
  by_cases hcompared : ∃ p ∈ q.filter.predicates, p.token.key = key
  · obtain ⟨p, hp, rfl⟩ := hcompared
    exact .inr ⟨p, hp, rfl, hfloat p hp, (get?_link hq).2 ⟨p, hp, rfl, rfl⟩⟩
  · have habsent : raw.get? key = none :=
      Option.eq_none_iff_forall_ne_some.2 fun value hv =>
        hcompared (exists_predicate_of_get? hq hkey hv)
    have hlink : q.link.get? key = none := by
      rw [Option.eq_none_iff_forall_ne_some]
      intro value hv
      obtain ⟨p, hp, hpkey, -⟩ := (get?_link hq).1 hv
      exact hcompared ⟨p, hp, hpkey⟩
    exact .inl (hlink.trans habsent.symm)

/-- **Values are stable under printing.** A value that an operator made of a text, and that is no
floating-point number, is made again of the text that it is written out as. Every integer of 64 bits
is read from its decimal text by every operator but `like`. So a query in which such values are
written out, one of them or all, is compiled to the same filter. -/
theorem display_stable :
    (∀ (op : Operator) (raw : String) (v : Value), coerce op raw = .ok v →
      (∀ x, v ≠ .float x) → coerce op v.display = .ok v) ∧
    (∀ (op : Operator) (n : Int64), op ≠ .like →
      coerce op (Numeral.decimalInt n.toInt) = .ok (.int n)) ∧
    ∀ (spec : FieldSpec) (raw : RawQuery) (q : CompiledQuery), spec.compile raw = .ok q →
      (∀ raw' : RawQuery, spec.Reprints raw raw' q →
        ∃ q', spec.compile raw' = .ok q' ∧ q'.filter = q.filter) ∧
      ((∀ p ∈ q.filter.predicates, ∀ x, p.value ≠ .float x) →
        ∃ q', spec.compile q.link = .ok q' ∧ q'.filter = q.filter) := by
  refine ⟨fun op raw v h hfloat => coerce_display h hfloat,
    fun op n hop => coerce_of_writes hop (writes_decimalInt n), fun spec raw q hq =>
      ⟨fun raw' h => ?_, fun hfloat => ?_⟩⟩
  · exact ⟨_, compile_of_reprints hq h, rfl⟩
  · exact ⟨_, compile_of_reprints hq (reprints_link hq hfloat), rfl⟩

/-- Numerals with a sign and leading zeros, one of which is compared as a text. -/
theorem display_stable_zeros :
    let b : Builder := { equalityOnly := ["active"], anyOperator := ["age"] }
    let spec := b.rules {}
    let raw : RawQuery := .ofList [("active", "true"), ("age_gt", "+007"), ("age_like", "007")]
    ∃ q : CompiledQuery, spec.compile raw = .ok q ∧
      coerce .gt "+007" = .ok (.int 7) ∧ coerce .gt "7" = .ok (.int 7) ∧
      coerce .ne "-9223372036854775808" = .ok (.int Int64.minValue) ∧
      (∀ p ∈ q.filter.predicates, ∀ x, p.value ≠ .float x) ∧
      q.link = .ofList [("active", "true"), ("age_gt", "7"), ("age_like", "007")] ∧
      ∃ q', spec.compile q.link = .ok q' ∧ q'.filter = q.filter := by
  intro b spec raw
  obtain ⟨hvalue, hinteger, hquery⟩ := display_stable
  have hseven : coerce .gt "+007" = .ok (.int 7) := by decide +kernel
  have hprinted : coerce .gt "7" = .ok (.int 7) := hvalue .gt "+007" _ hseven nofun
  have hleast : coerce .ne "-9223372036854775808" = .ok (.int Int64.minValue) :=
    hinteger .ne Int64.minValue (by decide)
  have hq : spec.compile raw = .ok _ := rfl
  have hpredicates : (Filter.ofPredicates (spec.acceptedPredicates raw)).predicates =
      [⟨"active", .eq, .bool true⟩, ⟨"age", .gt, .int 7⟩, ⟨"age", .like, .text "007"⟩] := by
    decide +kernel
  have hfloat : ∀ p ∈ (Filter.ofPredicates (spec.acceptedPredicates raw)).predicates,
      ∀ x, p.value ≠ .float x := by
    rw [hpredicates]
    simp only [List.forall_mem_cons]
    exact ⟨nofun, nofun, nofun, nofun⟩
  exact ⟨_, hq, hseven, hprinted, hleast, hfloat, by decide +kernel,
    (hquery spec raw _ hq).2 hfloat⟩

end FieldSpec

end QueryFilter
