import QueryFilter.FieldSpec.Builder
import QueryFilter.FieldSpec.Route
import QueryFilter.Proofs.ByteOrder
import QueryFilter.Proofs.Key
import QueryFilter.Proofs.KeyMap

/-!
# Field specifications

What well-formed rules satisfy, and where rules send a key.

* `IsName`, `isIdentifier_iff`: the identifiers;
* `FieldSpec.WellFormed`: no attribute is of both kinds, and every attribute is an identifier, the
  attribute of its own key, and no key with another use;
* `FieldSpec.Builder.rules`, `FieldSpec.Builder.build_eq`: what is built where no name is at fault;
* `FieldSpec.Routed`, **`FieldSpec.routed`**: the ways in which a key is routed;
* `FieldSpec.route_eq_filter_iff` and its like: the keys of each route.
-/

namespace QueryFilter

/-! ## Names -/

/-- An ASCII letter or underscore, then ASCII letters, digits and underscores, 1 to 63 bytes in
all. -/
structure IsName (s : String) : Prop where
  start : ∃ c, s.toList.head? = some c ∧ (c.isAlpha = true ∨ c = '_')
  chars : ∀ c ∈ s.toList, c.isAlphanum = true ∨ c = '_'
  size_pos : 1 ≤ s.utf8ByteSize
  size_le : s.utf8ByteSize ≤ 63

theorem isIdentifier_iff {s : String} : isIdentifier s = true ↔ IsName s := by
  have hsize : maxIdentifierSize = 63 := rfl
  unfold isIdentifier
  constructor
  · intro h
    cases hl : s.toList with
    | nil => simp [hl] at h
    | cons c rest =>
      simp only [hl, Bool.and_eq_true, List.all_eq_true, isIdentifierStart, isIdentifierChar,
        Bool.or_eq_true, beq_iff_eq, decide_eq_true_eq, Utf8.size_eq_utf8ByteSize] at h
      obtain ⟨⟨hc, hrest⟩, hs⟩ := h
      refine ⟨⟨c, by rw [hl]; rfl, hc⟩, fun d hd => ?_, ?_, by omega⟩
      · rw [hl] at hd
        rcases List.mem_cons.1 hd with rfl | hd
        · exact hc.imp (fun ha => by rw [Char.isAlphanum, ha, Bool.true_or]) id
        · exact hrest d hd
      · refine Nat.pos_of_ne_zero fun e => ?_
        rw [String.utf8ByteSize_eq_zero_iff.1 e] at hl
        cases hl
  · intro h
    obtain ⟨c, hc, hstart⟩ := h.start
    cases hl : s.toList with
    | nil => simp [hl] at hc
    | cons d rest =>
      rw [hl] at hc
      cases hc
      have hle := h.size_le
      simp only [Bool.and_eq_true, List.all_eq_true, isIdentifierStart, isIdentifierChar,
        Bool.or_eq_true, beq_iff_eq, decide_eq_true_eq, Utf8.size_eq_utf8ByteSize, hsize]
      exact ⟨⟨hstart, fun d hd => h.chars d (hl ▸ List.mem_cons_of_mem _ hd)⟩, hle⟩

theorem ne_empty_of_isIdentifier {s : String} (h : isIdentifier s = true) : s ≠ "" := by
  rintro rfl
  exact Bool.noConfusion h

namespace FieldSpec

/-- An attribute that a query may filter by. -/
def IsAttribute (spec : FieldSpec) (attr : String) : Prop :=
  spec.isEqualityOnly attr = true ∨ spec.isAnyOperator attr = true

/-- **Well-formed filter rules**: each name in them has one use, and can be used. -/
structure WellFormed (spec : FieldSpec) : Prop where
  disjoint : ∀ {attr}, spec.isEqualityOnly attr = true → spec.isAnyOperator attr = false
  identifier : ∀ {attr}, spec.IsAttribute attr → isIdentifier attr = true
  addressable : ∀ {attr}, spec.IsAttribute attr → Token.ofKey attr = ⟨attr, .eq⟩
  unreserved : ∀ {attr}, spec.IsAttribute attr → spec.isReserved attr = false
  unpaged : ∀ {attr}, spec.IsAttribute attr → attr ∉ paginationKeys

/-! ## Building -/

namespace Builder

/-- The filter rules that are built, where nothing is at fault. -/
def rules (b : Builder) (limits : PageLimits) : FieldSpec :=
  ⟨.ofList b.equalityOnly, .ofList b.anyOperator, .ofList b.reserved, limits⟩

/-- The first fault in the names. -/
def nameFault? (b : Builder) : Option FieldSpecError :=
  overlap? (.ofList b.equalityOnly) (.ofList b.anyOperator) <|>
  ((NameSet.ofList b.equalityOnly).keys ++
    (NameSet.ofList b.anyOperator).keys).findSome? attributeFault? <|>
  ((NameSet.ofList b.reserved).keys ++ paginationKeys).findSome? (reservedFault? fun name =>
    (NameSet.ofList b.equalityOnly).contains name || (NameSet.ofList b.anyOperator).contains name)

theorem build_eq (b : Builder) : b.build =
    match b.nameFault? with
    | some fault => .error fault
    | none => (checkLimits b.defaultLimit b.maxLimit).map b.rules := rfl

theorem mem_keys_ofList {names : List String} {name : String} :
    name ∈ (NameSet.ofList names).keys ↔ name ∈ names := by
  rw [KeyMap.mem_keys_iff, NameSet.contains_ofList_iff]

end Builder

/-! ## Routing -/

theorem mem_paginationKeys_iff {key : String} :
    key ∈ paginationKeys ↔ key = "page" ∨ key = "limit" := by
  rw [paginationKeys, List.mem_cons, List.mem_singleton]
  rfl

/-- No key with a suffix selects a page. -/
theorem suffixed_not_mem_paginationKeys {attr : String} {op : Operator} (ha : attr ≠ "")
    (ho : op ≠ .eq) : attr ++ "_" ++ op.token ∉ paginationKeys := by
  intro hp
  have hof := Token.ofKey_suffix ha ho
  rcases mem_paginationKeys_iff.1 hp with e | e
  · rw [e] at hof
    exact ho (congrArg Token.operator hof).symm
  · rw [e] at hof
    exact ho (congrArg Token.operator hof).symm

/-- A key that has no use of its own, so that it is split. -/
def IsPlain (spec : FieldSpec) (key : String) : Prop :=
  key ∉ paginationKeys ∧ spec.isReserved key = false

/-- A comparison that the rules admit. -/
def Admits (spec : FieldSpec) (t : Token) : Prop :=
  spec.IsAttribute t.attr ∧ (spec.isEqualityOnly t.attr = true → t.operator = .eq)

/-- **The ways in which a key is routed.** -/
inductive Routed (spec : FieldSpec) (key : String) : Except Reason Route → Prop
  | pagination (h : key ∈ paginationKeys) : Routed spec key (.ok .pagination)
  | reserved (hp : key ∉ paginationKeys) (h : spec.isReserved key = true) :
    Routed spec key (.ok .reserved)
  | filter (hk : spec.IsPlain key) (h : spec.Admits (.ofKey key)) :
    Routed spec key (.ok (.filter (.ofKey key)))
  | illegal (hk : spec.IsPlain key) (ha : spec.isEqualityOnly (Token.ofKey key).attr = true)
    (ho : (Token.ofKey key).operator ≠ .eq) :
    Routed spec key (.error (.illegalOperator (Token.ofKey key).attr (Token.ofKey key).operator))
  | unknown (hk : spec.IsPlain key) (ha : ¬ spec.IsAttribute (Token.ofKey key).attr) :
    Routed spec key (.error (.unknownAttribute (Token.ofKey key).attr))

theorem routed (spec : FieldSpec) (key : String) : Routed spec key (spec.route key) := by
  unfold route
  split
  · next h => exact .pagination (by simpa using h)
  · next hp =>
    split
    · next h => exact .reserved (by simpa using hp) h
    · next hr =>
      have hk : spec.IsPlain key := ⟨by simpa using hp, by simpa using hr⟩
      simp only
      split
      · next ha =>
        split
        · next ho => exact .filter hk ⟨.inl ha, fun _ => ho⟩
        · next ho => exact .illegal hk ha ho
      · next he =>
        split
        · next ha => exact .filter hk ⟨.inr ha, fun h => absurd h he⟩
        · next ha => exact .unknown hk (not_or.2 ⟨he, ha⟩)

variable {spec : FieldSpec} {key : String}

theorem route_eq_pagination_iff : spec.route key = .ok .pagination ↔ key ∈ paginationKeys := by
  have h := spec.routed key
  generalize spec.route key = r at h
  cases h <;> simp_all [IsPlain]

theorem route_eq_reserved_iff :
    spec.route key = .ok .reserved ↔ key ∉ paginationKeys ∧ spec.isReserved key = true := by
  have h := spec.routed key
  generalize spec.route key = r at h
  cases h <;> simp_all [IsPlain]

theorem route_eq_filter_iff {t : Token} :
    spec.route key = .ok (.filter t) ↔ spec.IsPlain key ∧ t = .ofKey key ∧ spec.Admits t := by
  have h := spec.routed key
  generalize spec.route key = r at h
  cases h with
  | pagination h => simp [IsPlain, h]
  | reserved hp h => simp [IsPlain, h]
  | filter hk h =>
    constructor
    · intro e
      cases e
      exact ⟨hk, rfl, h⟩
    · rintro ⟨-, rfl, -⟩
      rfl
  | illegal hk ha ho =>
    refine ⟨nofun, ?_⟩
    rintro ⟨-, rfl, h⟩
    exact absurd (h.2 ha) ho
  | unknown hk ha =>
    refine ⟨nofun, ?_⟩
    rintro ⟨-, rfl, h⟩
    exact absurd h.1 ha

theorem exists_route_eq_error_iff :
    (∃ reason, spec.route key = .error reason) ↔ spec.IsPlain key ∧ ¬ spec.Admits (.ofKey key) := by
  have h := spec.routed key
  generalize spec.route key = r at h
  cases h with
  | pagination h => simp [IsPlain, h]
  | reserved hp h => simp [IsPlain, h]
  | filter hk h => simp [h]
  | illegal hk ha ho => simpa [hk] using fun h : spec.Admits _ => ho (h.2 ha)
  | unknown hk ha => simpa [hk] using fun h : spec.Admits _ => ha h.1

end FieldSpec

end QueryFilter
