import QueryFilter.Proofs.Configured

/-!
# What a builder accepts

A builder makes its checks one after the other, and the first one that finds a fault decides. It
accepts exactly the valid configurations, and of several faults it reports the first one.

* `FieldSpec.Builder.checks`: the checks in their order, each with the fault that it finds;
* `FieldSpec.Builder.build_eq_checks`: what is built, by the first find;
* `FieldSpec.Builder.mem_checks_iff`, `FieldSpec.Builder.pairwise_checks`: the finds are all that is
  wrong with the configuration, in order;
* `FieldSpec.Builder.build_eq_error_iff`, `FieldSpec.Builder.exists_build_eq_ok_iff`: rejection and
  acceptance;
* **`FieldSpec.Builder.build_wellFormed`**: what the builder accepts is well-formed;
* **`FieldSpec.Builder.build_exact`**: acceptance, the rules that are built, and the fault that is
  reported.
-/

namespace QueryFilter.FieldSpec

/-! ## The checks of a builder -/

namespace Builder

open Given (Step Violation)

variable {b : Builder}

/-- The fault of a key of the configuration that is kept from filtering. -/
def keyFault? (b : Builder) (key : String) : Option FieldSpecError :=
  reservedFault? (fun name => (NameSet.ofList b.equalityOnly).contains name ||
    (NameSet.ofList b.anyOperator).contains name) key

/-- The fault of a default page size that is greater than the greatest one. -/
def orderFault? (default? max? : Option UInt32) : Option FieldSpecError :=
  max?.bind fun max =>
    if max < default?.getD 10 then some (.defaultAboveMax (default?.getD 10) max) else none

/-- The first fault in the page sizes. -/
def limitFault? (default? max? : Option UInt32) : Option FieldSpecError :=
  (if default? = some 0 then some (.zeroLimit .default) else none).or
    ((if max? = some 0 then some (.zeroLimit .max) else none).or (orderFault? default? max?))

/-- The checks of a step in the order of their names, each with the fault that it finds. -/
def checksOf (b : Builder) : Step → List (String × Option FieldSpecError)
  | .overlap => (NameSet.ofList b.equalityOnly).keys.map fun name =>
      (name, if (NameSet.ofList b.anyOperator).contains name then some (.overlap name) else none)
  | .equalityOnly => (NameSet.ofList b.equalityOnly).keys.map fun name =>
      (name, attributeFault? name)
  | .anyOperator => (NameSet.ofList b.anyOperator).keys.map fun name => (name, attributeFault? name)
  | .reserved => (NameSet.ofList b.reserved).keys.map fun key => (key, b.keyFault? key)
  | .page => [("page", b.keyFault? "page")]
  | .limit => [("limit", b.keyFault? "limit")]
  | .zeroDefault =>
    [("default_limit", if b.defaultLimit = some 0 then some (.zeroLimit .default) else none)]
  | .zeroMax => [("max_limit", if b.maxLimit = some 0 then some (.zeroLimit .max) else none)]
  | .defaultAboveMax => [("max_limit", orderFault? b.defaultLimit b.maxLimit)]

/-- **All checks**, in the order in which they are made. -/
def checks (b : Builder) : List (Step × String × Option FieldSpecError) :=
  Step.order.flatMap fun step => (b.checksOf step).map (step, ·)

/-! ### The first fault -/

theorem checkLimits_eq (default? max? : Option UInt32) : checkLimits default? max? =
    match limitFault? default? max? with
    | some fault => .error fault
    | none => .ok ⟨default?.getD 10, max?⟩ := by
  unfold checkLimits limitFault? orderFault?
  by_cases hzero : default? = some 0
  · rw [if_pos hzero, if_pos hzero]
    rfl
  · rw [if_neg hzero, if_neg hzero, Option.none_or]
    cases max? with
    | none => rfl
    | some max =>
      show (if max = 0 then _ else if max < default?.getD 10 then _ else _) = _
      by_cases hmax : max = 0
      · simp [hmax]
      · have hdefault : QueryFilter.defaultLimit = 10 := rfl
        by_cases hlt : max < default?.getD 10 <;> simp [hmax, hlt, hdefault]

theorem overlap?_eq (equalityOnly anyOperator : NameSet) :
    overlap? equalityOnly anyOperator = equalityOnly.keys.findSome? fun name =>
      if anyOperator.contains name then some (.overlap name) else none := by
  unfold overlap?
  induction equalityOnly.keys with
  | nil => rfl
  | cons name names ih =>
    rw [List.find?_cons, List.findSome?_cons, ← ih]
    cases anyOperator.contains name <;> rfl

theorem findSome?_checks (b : Builder) : b.checks.findSome? (·.2.2) =
    b.nameFault?.or (limitFault? b.defaultLimit b.maxLimit) := by
  have hpage : paginationKeys = ["page"] ++ ["limit"] := rfl
  have step (s : Step) (l : List (String × Option FieldSpecError)) :
      (l.map (s, ·)).findSome? (·.2.2) = l.findSome? (·.2) := List.findSome?_map
  have found (names : List String) (fault? : String → Option FieldSpecError) :
      (names.map fun name => (name, fault? name)).findSome? (·.2) = names.findSome? fault? :=
    List.findSome?_map
  simp only [checks, Step.order, checksOf, List.flatMap_cons, List.flatMap_nil, List.append_nil,
    List.findSome?_append, step, found, List.findSome?_singleton, nameFault?, overlap?_eq, hpage,
    Option.orElse_eq_orElse, Option.orElse_eq_or, Option.or_assoc]
  rfl

/-- **The first check that finds a fault** decides what is built. -/
theorem build_eq_checks (b : Builder) : b.build =
    match b.checks.findSome? (·.2.2) with
    | some fault => .error fault
    | none => .ok (b.rules ⟨b.defaultLimit.getD 10, b.maxLimit⟩) := by
  rw [findSome?_checks, build_eq, checkLimits_eq]
  cases b.nameFault? with
  | some fault => rfl
  | none =>
    rw [Option.none_or]
    cases limitFault? b.defaultLimit b.maxLimit <;> rfl

theorem build_eq_ok_iff_checks {spec : FieldSpec} : b.build = .ok spec ↔
    b.checks.findSome? (·.2.2) = none ∧ spec = b.rules ⟨b.defaultLimit.getD 10, b.maxLimit⟩ := by
  rw [build_eq_checks]
  cases b.checks.findSome? (·.2.2) <;> simp [eq_comm]

theorem build_eq_error_iff_checks {fault : FieldSpecError} : b.build = .error fault ↔
    b.checks.findSome? (·.2.2) = some fault := by
  rw [build_eq_checks]
  cases b.checks.findSome? (·.2.2) <;> simp

/-! ### What the checks find -/

theorem isAddressable_eq_false_iff_exists_suffix {name : String} :
    isAddressable name = false ↔
      ∃ stem suffix, stem ≠ "" ∧ suffix ∈ Given.suffixes ∧ name = stem ++ "_" ++ suffix := by
  rw [isAddressable_eq_false_iff]
  constructor
  · rintro ⟨stem, op, hstem, hop, hname⟩
    exact ⟨stem, op.token, hstem, List.mem_map_of_mem (Operator.mem_suffixed_iff.2 hop), hname⟩
  · rintro ⟨stem, suffix, hstem, hsuffix, hname⟩
    obtain ⟨op, hop, rfl⟩ : ∃ op ∈ Operator.suffixed, op.token = suffix := List.mem_map.1 hsuffix
    exact ⟨stem, op, hstem, Operator.mem_suffixed_iff.1 hop, hname⟩

theorem attributeFault?_eq_some_iff {name : String} {fault : FieldSpecError} :
    attributeFault? name = some fault ↔ Given.NameFault name fault := by
  have hinvalid : isIdentifier name = false ↔ ¬ IsName name := by
    rw [← Bool.not_eq_true, isIdentifier_iff]
  unfold attributeFault?
  constructor
  · intro h
    split at h
    · next hempty =>
      cases h
      exact .empty (String.isEmpty_iff.1 hempty)
    split at h
    · next hempty hid =>
      cases h
      exact .invalid (fun e => hempty (String.isEmpty_iff.2 e)) (hinvalid.1 (by simpa using hid))
    split at h
    · next hid haddr =>
      cases h
      obtain ⟨stem, suffix, hstem, hsuffix, hname⟩ :=
        isAddressable_eq_false_iff_exists_suffix.1 (by simpa using haddr)
      exact .unaddressable (isIdentifier_iff.1 (by simpa using hid)) hstem hsuffix hname
    · cases h
  · intro h
    cases h with
    | empty hempty => rw [if_pos (String.isEmpty_iff.2 hempty)]
    | invalid hne hid =>
      rw [if_neg fun e => hne (String.isEmpty_iff.1 e), hinvalid.2 hid]
      rfl
    | unaddressable hid hstem hsuffix hname =>
      have hid := isIdentifier_iff.2 hid
      have haddr : isAddressable name = false :=
        isAddressable_eq_false_iff_exists_suffix.2 ⟨_, _, hstem, hsuffix, hname⟩
      rw [if_neg fun e => ne_empty_of_isIdentifier hid (String.isEmpty_iff.1 e), hid, haddr]
      rfl

theorem keyFault?_eq_some_iff {key : String} {fault : FieldSpecError} :
    b.keyFault? key = some fault ↔ (Given.ofBuilder b).KeyFault key fault := by
  have hattribute : ((NameSet.ofList b.equalityOnly).contains key ||
      (NameSet.ofList b.anyOperator).contains key) = true ↔ (Given.ofBuilder b).IsAttribute key := by
    rw [Bool.or_eq_true, NameSet.contains_ofList_iff, NameSet.contains_ofList_iff]
    rfl
  unfold keyFault? reservedFault?
  constructor
  · intro h
    split at h
    · next hempty =>
      cases h
      exact .empty (String.isEmpty_iff.1 hempty)
    split at h
    · next hempty ha =>
      cases h
      exact .conflict (fun e => hempty (String.isEmpty_iff.2 e)) (hattribute.1 ha)
    · cases h
  · intro h
    cases h with
    | empty hempty => rw [if_pos (String.isEmpty_iff.2 hempty)]
    | conflict hne ha =>
      rw [if_neg fun e => hne (String.isEmpty_iff.1 e), if_pos (hattribute.2 ha)]

theorem mem_checks_iff_mem_checksOf {step : Step} {check : String × Option FieldSpecError} :
    (step, check) ∈ b.checks ↔ check ∈ b.checksOf step := by
  have horder : step ∈ Step.order := by cases step <;> decide
  simp [checks, horder]

theorem mem_checks_iff {step : Step} {name : String} {fault : FieldSpecError} :
    (step, name, some fault) ∈ b.checks ↔ Violation (.ofBuilder b) step name fault := by
  have found {names : List String} {fault? : String → Option FieldSpecError} :
      (name, some fault) ∈ (NameSet.ofList names).keys.map (fun name => (name, fault? name)) ↔
        name ∈ names ∧ fault? name = some fault := by
    rw [List.mem_map]
    constructor
    · rintro ⟨n, hn, heq⟩
      obtain ⟨rfl, hf⟩ := Prod.mk.inj heq
      exact ⟨mem_keys_ofList.1 hn, hf⟩
    · rintro ⟨hn, hf⟩
      exact ⟨name, mem_keys_ofList.2 hn, by rw [hf]⟩
  have single {n : String} {fault? : Option FieldSpecError} :
      (name, some fault) ∈ [(n, fault?)] ↔ name = n ∧ fault? = some fault := by
    rw [List.mem_singleton, Prod.mk.injEq, eq_comm (a := some fault)]
  have checked {c : Prop} [Decidable c] {a : FieldSpecError} :
      (if c then some a else none) = some fault ↔ c ∧ some a = some fault :=
    Option.ite_none_right_eq_some
  rw [mem_checks_iff_mem_checksOf]
  constructor
  · intro h
    cases step with
    | overlap =>
      obtain ⟨hn, hf⟩ := found.1 h
      obtain ⟨ha, ⟨⟩⟩ := checked.1 hf
      exact .overlap hn (NameSet.contains_ofList_iff.1 ha)
    | equalityOnly =>
      obtain ⟨hn, hf⟩ := found.1 h
      exact .equalityOnly hn (attributeFault?_eq_some_iff.1 hf)
    | anyOperator =>
      obtain ⟨hn, hf⟩ := found.1 h
      exact .anyOperator hn (attributeFault?_eq_some_iff.1 hf)
    | reserved =>
      obtain ⟨hn, hf⟩ := found.1 h
      exact .reserved hn (keyFault?_eq_some_iff.1 hf)
    | page =>
      obtain ⟨rfl, hf⟩ := single.1 h
      exact .page (keyFault?_eq_some_iff.1 hf)
    | limit =>
      obtain ⟨rfl, hf⟩ := single.1 h
      exact .limit (keyFault?_eq_some_iff.1 hf)
    | zeroDefault =>
      obtain ⟨rfl, hf⟩ := single.1 h
      obtain ⟨hz, ⟨⟩⟩ := checked.1 hf
      exact .zeroDefault hz
    | zeroMax =>
      obtain ⟨rfl, hf⟩ := single.1 h
      obtain ⟨hz, ⟨⟩⟩ := checked.1 hf
      exact .zeroMax hz
    | defaultAboveMax =>
      obtain ⟨rfl, hf⟩ := single.1 h
      obtain ⟨max, hmax, hf⟩ := Option.bind_eq_some_iff.1 hf
      obtain ⟨hlt, ⟨⟩⟩ := checked.1 hf
      exact .defaultAboveMax hmax hlt
  · intro h
    cases h with
    | overlap he ha => exact found.2 ⟨he, if_pos (NameSet.contains_ofList_iff.2 ha)⟩
    | equalityOnly hn hf => exact found.2 ⟨hn, attributeFault?_eq_some_iff.2 hf⟩
    | anyOperator hn hf => exact found.2 ⟨hn, attributeFault?_eq_some_iff.2 hf⟩
    | reserved hn hf => exact found.2 ⟨hn, keyFault?_eq_some_iff.2 hf⟩
    | page hf => exact single.2 ⟨rfl, keyFault?_eq_some_iff.2 hf⟩
    | limit hf => exact single.2 ⟨rfl, keyFault?_eq_some_iff.2 hf⟩
    | zeroDefault hz => exact single.2 ⟨rfl, if_pos hz⟩
    | zeroMax hz => exact single.2 ⟨rfl, if_pos hz⟩
    | defaultAboveMax hmax hlt =>
      exact single.2 ⟨rfl, Option.bind_eq_some_iff.2 ⟨_, hmax, if_pos hlt⟩⟩

/-! ### The order of the checks -/

theorem pairwise_checksOf (b : Builder) (step : Step) :
    (b.checksOf step).Pairwise (·.1 < ·.1) := by
  have sorted (names : List String) (fault? : String → Option FieldSpecError) :
      ((NameSet.ofList names).keys.map fun name => (name, fault? name)).Pairwise (·.1 < ·.1) :=
    List.pairwise_map.2 (NameSet.ofList names).keys_pairwise
  cases step with
  | overlap | equalityOnly | anyOperator | reserved => exact sorted _ _
  | page | limit | zeroDefault | zeroMax | defaultAboveMax => exact List.pairwise_singleton _ _

theorem pairwise_checks (b : Builder) :
    b.checks.Pairwise fun c c' => Given.Before c.1 c.2.1 c'.1 c'.2.1 := by
  have hsteps : Step.order.Pairwise fun s s' => Step.order.idxOf s < Step.order.idxOf s' := by
    decide
  refine List.pairwise_flatMap.2 ⟨fun step _ => List.pairwise_map.2 ?_, hsteps.imp ?_⟩
  · exact (b.pairwise_checksOf step).imp fun h => .inr ⟨rfl, Utf8.encode_lt_encode h⟩
  · intro s s' hlt c hc c' hc'
    obtain ⟨-, -, rfl⟩ := List.mem_map.1 hc
    obtain ⟨-, -, rfl⟩ := List.mem_map.1 hc'
    exact .inl hlt

theorem before_asymm {s s' : Step} {n n' : String} (h : Given.Before s n s' n') :
    ¬ Given.Before s' n' s n := by
  rintro (hlt | ⟨heq, hlt⟩)
  · rcases h with h | ⟨heq, -⟩
    · exact Nat.lt_asymm h hlt
    · exact Nat.lt_irrefl _ (heq ▸ hlt)
  · rcases h with h | ⟨-, h⟩
    · exact Nat.lt_irrefl _ (heq ▸ h)
    · exact List.lt_asymm h hlt

/-- The first find in an ordered list is the least one. -/
theorem findSome?_eq_some_iff_of_pairwise {α β : Type} {r : α → α → Prop} {f : α → Option β}
    {l : List α} (hl : l.Pairwise r) (hr : ∀ a b, r a b → ¬ r b a) {y : β} :
    l.findSome? f = some y ↔
      ∃ a ∈ l, f a = some y ∧ ∀ b ∈ l, (f b).isSome = true → b = a ∨ r a b := by
  rw [List.findSome?_eq_some_iff]
  constructor
  · rintro ⟨front, a, back, rfl, ha, hfront⟩
    refine ⟨a, by simp, ha, fun b hb hsome => ?_⟩
    rcases List.mem_append.1 hb with hb | hb
    · rw [hfront b hb] at hsome
      cases hsome
    · rcases List.mem_cons.1 hb with rfl | hb
      · exact .inl rfl
      · exact .inr ((List.pairwise_cons.1 (List.pairwise_append.1 hl).2.1).1 b hb)
  · rintro ⟨a, hmem, ha, hleast⟩
    obtain ⟨front, back, rfl⟩ := List.append_of_mem hmem
    refine ⟨front, a, back, rfl, ha, fun b hb => ?_⟩
    by_contra hsome
    have hba : r b a := (List.pairwise_append.1 hl).2.2 b hb a List.mem_cons_self
    rcases hleast b (List.mem_append_left _ hb) (Option.isSome_iff_ne_none.2 hsome) with rfl | hab
    · exact hr b b hba hba
    · exact hr a b hab hba

/-! ## What is built -/

theorem build_eq_error_iff {fault : FieldSpecError} :
    b.build = .error fault ↔ (Given.ofBuilder b).IsFirst fault := by
  rw [build_eq_error_iff_checks,
    findSome?_eq_some_iff_of_pairwise b.pairwise_checks fun _ _ => before_asymm]
  constructor
  · rintro ⟨⟨step, name, found⟩, hmem, rfl, hleast⟩
    refine ⟨step, name, mem_checks_iff.1 hmem, fun step' name' fault' hv => ?_⟩
    rcases hleast _ (mem_checks_iff.2 hv) rfl with heq | hbefore
    · simp only [Prod.mk.injEq, Option.some.injEq] at heq
      exact .inl heq
    · exact .inr hbefore
  · rintro ⟨step, name, hv, hleast⟩
    refine ⟨_, mem_checks_iff.2 hv, rfl, ?_⟩
    rintro ⟨step', name', found⟩ hmem hsome
    obtain ⟨fault', rfl⟩ := Option.isSome_iff_exists.1 hsome
    rcases hleast _ _ _ (mem_checks_iff.1 hmem) with ⟨rfl, rfl, rfl⟩ | hbefore
    · exact .inl rfl
    · exact .inr hbefore

theorem exists_build_eq_ok_iff :
    (∃ spec, b.build = .ok spec) ↔ (Given.ofBuilder b).Valid := by
  have hnone : b.checks.findSome? (·.2.2) = none ↔
      ∀ step name fault, ¬ (Given.ofBuilder b).Violation step name fault := by
    rw [List.findSome?_eq_none_iff]
    constructor
    · intro h step name fault hv
      exact absurd (h _ (mem_checks_iff.2 hv)) (Option.some_ne_none _)
    · rintro h ⟨step, name, found⟩ hmem
      cases found with
      | none => rfl
      | some fault => exact absurd (mem_checks_iff.1 hmem) (h step name fault)
  rw [Given.valid_iff, ← hnone]
  constructor
  · rintro ⟨spec, h⟩
    exact (build_eq_ok_iff_checks.1 h).1
  · exact fun h => ⟨_, build_eq_ok_iff_checks.2 ⟨h, rfl⟩⟩

end Builder

/-- Filter rules that are what has been configured: the same names, and the page sizes that are
set. -/
structure Realizes (spec : FieldSpec) (g : Given) : Prop where
  equalityOnly : ∀ name, spec.isEqualityOnly name = true ↔ g.names .equalityOnly name
  anyOperator : ∀ name, spec.isAnyOperator name = true ↔ g.names .anyOperator name
  reserved : ∀ name, spec.isReserved name = true ↔ g.names .reserved name
  default : spec.limits.default = (g.limit .default).getD 10
  max : spec.limits.max = g.limit .max

namespace Builder

variable {b : Builder} {spec : FieldSpec}

theorem realizes_of_build (h : b.build = .ok spec) : spec.Realizes (.ofBuilder b) := by
  have hrules := (build_eq_ok_iff_checks.1 h).2
  rw [hrules]
  exact {
    equalityOnly := fun _ => NameSet.contains_ofList_iff
    anyOperator := fun _ => NameSet.contains_ofList_iff
    reserved := fun _ => NameSet.contains_ofList_iff
    default := rfl
    max := rfl }

/-- The names in the rules are those that were collected. -/
theorem names_of_build (h : b.build = .ok spec) (name : String) :
    (spec.isEqualityOnly name = true ↔ name ∈ b.equalityOnly) ∧
      (spec.isAnyOperator name = true ↔ name ∈ b.anyOperator) ∧
      (spec.isReserved name = true ↔ name ∈ b.reserved) :=
  have hr := realizes_of_build h
  ⟨hr.equalityOnly name, hr.anyOperator name, hr.reserved name⟩

end Builder

/-- Rules that are what a valid configuration says are well-formed. -/
theorem Realizes.wellFormed {spec : FieldSpec} {g : Given} (hr : spec.Realizes g) (hg : g.Valid) :
    spec.WellFormed := by
  have attr_iff {attr : String} : spec.IsAttribute attr ↔ g.IsAttribute attr :=
    or_congr (hr.equalityOnly attr) (hr.anyOperator attr)
  have addressable {attr : String} (ha : g.IsAttribute attr) : isAddressable attr = true := by
    rw [← Bool.not_eq_false, Builder.isAddressable_eq_false_iff_exists_suffix]
    rintro ⟨stem, suffix, hstem, hsuffix, rfl⟩
    exact hg.unsplit stem suffix hstem hsuffix ha
  exact {
    disjoint := fun he => by
      rw [← Bool.not_eq_true, hr.anyOperator]
      exact fun ha => hg.disjoint _ ⟨(hr.equalityOnly _).1 he, ha⟩
    identifier := fun ha => isIdentifier_iff.2 (hg.identifier _ (attr_iff.1 ha))
    addressable := fun ha => isAddressable_iff.1 (addressable (attr_iff.1 ha))
    unreserved := fun ha => by
      rw [← Bool.not_eq_true, hr.reserved]
      exact (hg.unused _ (attr_iff.1 ha)).2.2
    unpaged := fun ha hp => by
      obtain ⟨hpage, hlimit, -⟩ := hg.unused _ (attr_iff.1 ha)
      exact (mem_paginationKeys_iff.1 hp).elim hpage hlimit }

namespace Builder

variable {b : Builder} {spec : FieldSpec}

/-- **What the builder accepts is well-formed.** -/
theorem build_wellFormed (h : b.build = .ok spec) : spec.WellFormed :=
  (realizes_of_build h).wellFormed (exists_build_eq_ok_iff.1 ⟨spec, h⟩)

/-- **What a builder accepts.** After any calls it accepts if and only if what they have configured
is valid; the rules that it returns are then what has been configured. Otherwise it reports the first
fault. -/
theorem build_exact (calls : List Call) :
    ((∃ spec, (ofCalls calls).build = .ok spec) ↔ (Given.ofCalls calls).Valid) ∧
    (∀ spec, (ofCalls calls).build = .ok spec → spec.Realizes (.ofCalls calls)) ∧
    ∀ fault, (ofCalls calls).build = .error fault ↔ (Given.ofCalls calls).IsFirst fault := by
  rw [← Given.ofBuilder_ofCalls]
  exact ⟨exists_build_eq_ok_iff, fun _ => realizes_of_build, fun _ => build_eq_error_iff⟩

/-- A configuration with faults in several steps, of which a later one has the smaller name, and the
same without the names at fault. -/
theorem build_exact_first :
    let sizes : List Call := [.limit .default 0, .limit .max 50, .limit .default 20]
    let names : List Call := [.names .anyOperator ["age_max", "age"], .names .reserved ["sort"]]
    let faulty : List Call := [.names .reserved ["age"], .names .anyOperator ["9", "role_ne"],
      .names .equalityOnly ["role_gte", "role"]]
    (Given.ofCalls (sizes ++ names)).Valid ∧
    ¬ (Given.ofCalls (faulty ++ names ++ sizes)).Valid ∧
    (Given.ofCalls (faulty ++ names ++ sizes)).IsFirst (.unaddressable "role_gte") := by
  intro sizes names faulty
  have hok : ∃ spec, (ofCalls (sizes ++ names)).build = .ok spec :=
    ⟨(ofCalls names).rules ⟨20, some 50⟩, by decide +kernel⟩
  have herror : (ofCalls (faulty ++ names ++ sizes)).build = .error (.unaddressable "role_gte") := by
    decide +kernel
  obtain ⟨hvalid, -, hfirst⟩ := build_exact (faulty ++ names ++ sizes)
  refine ⟨(build_exact (sizes ++ names)).1.1 hok, fun h => ?_, (hfirst _).1 herror⟩
  obtain ⟨spec, hspec⟩ := hvalid.2 h
  rw [herror] at hspec
  cases hspec

end Builder

end QueryFilter.FieldSpec
