import QueryFilter.Proofs.FieldSpec
import Mathlib.Tactic.ByContra

/-!
# Configurations of an endpoint

What the calls of a builder configure, apart from how it is checked: sets of names, and the page
sizes that are set.

* `FieldSpec.Builder.Call`, `FieldSpec.Builder.ofCalls`: a builder after any calls;
* `FieldSpec.Given`: what has been configured; `FieldSpec.Given.ofBuilder_ofCalls`: a builder holds
  what the calls have configured;
* **`FieldSpec.Given.Valid`**, **`FieldSpec.Given.Violation`**: valid configurations, and all that
  can be wrong with one;
* `FieldSpec.Given.IsFirst`: the first fault, in the order of the steps and, within a step, of the
  names;
* `FieldSpec.Given.valid_iff`: a configuration is valid if nothing is wrong with it.
-/

namespace QueryFilter.FieldSpec

/-! ## Configurations -/

/-- What a name is configured for. -/
inductive Use where
  | equalityOnly
  | anyOperator
  | reserved
  deriving DecidableEq

/-- **What has been configured**: the names of each use, and the page sizes that are set. -/
structure Given where
  names : Use → String → Prop
  limit : LimitField → Option UInt32

namespace Builder

/-- A call that configures names or a page size. -/
inductive Call where
  | names (use : Use) (names : List String)
  | limit (field : LimitField) (size : UInt32)

/-- The builder after one more call. -/
def call (b : Builder) : Call → Builder
  | .names .equalityOnly names => b.addEqualityOnly names
  | .names .anyOperator names => b.addAnyOperator names
  | .names .reserved keys => b.addReserved keys
  | .limit .default size => b.setDefaultLimit size
  | .limit .max size => b.setMaxLimit size

/-- The builder after some calls. -/
def ofCalls (calls : List Call) : Builder :=
  calls.foldl call {}

/-- The page size that a call sets. -/
def Call.size? (field : LimitField) : Call → Option UInt32
  | names .. => none
  | limit f size => if f = field then some size else none

end Builder

namespace Given

open Builder (Call)

/-- What calls configure: all the names that they supply, and of each page size the last one. -/
def ofCalls (calls : List Call) : Given where
  names use name := ∃ names, .names use names ∈ calls ∧ name ∈ names
  limit field := (calls.filterMap (Call.size? field)).getLast?

/-- What a builder holds. -/
def ofBuilder (b : Builder) : Given where
  names
    | .equalityOnly, name => name ∈ b.equalityOnly
    | .anyOperator, name => name ∈ b.anyOperator
    | .reserved, name => name ∈ b.reserved
  limit
    | .default => b.defaultLimit
    | .max => b.maxLimit

/-! ### Calls -/

theorem names_call (b : Builder) (c : Call) (use : Use) (name : String) :
    (ofBuilder (b.call c)).names use name ↔
      (ofBuilder b).names use name ∨ ∃ names, c = .names use names ∧ name ∈ names := by
  cases c with
  | names u names =>
    cases u <;> cases use <;>
      simp [Builder.call, ofBuilder, Builder.addEqualityOnly, Builder.addAnyOperator,
        Builder.addReserved]
  | limit field size =>
    cases field <;> cases use <;>
      simp [Builder.call, ofBuilder, Builder.setDefaultLimit, Builder.setMaxLimit]

theorem limit_call (b : Builder) (c : Call) (field : LimitField) :
    (ofBuilder (b.call c)).limit field = (c.size? field).or ((ofBuilder b).limit field) := by
  cases c with
  | names u names => cases u <;> cases field <;> rfl
  | limit f size => cases f <;> cases field <;> rfl

theorem limit_ofCalls_cons (c : Call) (calls : List Call) (field : LimitField) :
    (ofCalls (c :: calls)).limit field =
      ((ofCalls calls).limit field).or (c.size? field) := by
  show ((c :: calls).filterMap (Call.size? field)).getLast? = _
  rw [List.filterMap_cons]
  cases c.size? field with
  | none => exact Option.or_none.symm
  | some size =>
    rw [List.getLast?_cons]
    show _ = (calls.filterMap (Call.size? field)).getLast?.or (some size)
    cases (calls.filterMap (Call.size? field)).getLast? <;> rfl

theorem names_foldl_call (calls : List Call) (b : Builder) (use : Use) (name : String) :
    (ofBuilder (calls.foldl Builder.call b)).names use name ↔
      (ofBuilder b).names use name ∨ (ofCalls calls).names use name := by
  induction calls generalizing b with
  | nil => simp [ofCalls]
  | cons c calls ih =>
    rw [List.foldl_cons, ih, names_call, or_assoc]
    refine or_congr_right ?_
    constructor
    · rintro (⟨names, rfl, hmem⟩ | ⟨names, hcall, hmem⟩)
      · exact ⟨names, List.mem_cons_self, hmem⟩
      · exact ⟨names, List.mem_cons_of_mem _ hcall, hmem⟩
    · rintro ⟨names, hcall, hmem⟩
      rcases List.mem_cons.1 hcall with heq | hcall
      · exact .inl ⟨names, heq.symm, hmem⟩
      · exact .inr ⟨names, hcall, hmem⟩

theorem limit_foldl_call (calls : List Call) (b : Builder) (field : LimitField) :
    (ofBuilder (calls.foldl Builder.call b)).limit field =
      ((ofCalls calls).limit field).or ((ofBuilder b).limit field) := by
  induction calls generalizing b with
  | nil => rfl
  | cons c calls ih =>
    rw [List.foldl_cons, ih, limit_call, ← Option.or_assoc, limit_ofCalls_cons]

/-- **A builder holds what the calls have configured.** -/
theorem ofBuilder_ofCalls (calls : List Call) : ofBuilder (.ofCalls calls) = ofCalls calls := by
  have hnames : (ofBuilder (.ofCalls calls)).names = (ofCalls calls).names := by
    funext use name
    refine propext ((names_foldl_call calls {} use name).trans (or_iff_right ?_))
    cases use <;> exact List.not_mem_nil
  have hlimit : (ofBuilder (.ofCalls calls)).limit = (ofCalls calls).limit := by
    funext field
    refine (limit_foldl_call calls {} field).trans ?_
    cases field <;> exact Option.or_none
  exact congrArg₂ Given.mk hnames hlimit

/-! ## What can be wrong -/

variable (g : Given)

/-- A name that queries can filter by. -/
def IsAttribute (name : String) : Prop :=
  g.names .equalityOnly name ∨ g.names .anyOperator name

/-- The endings by which a key names an operator. -/
def suffixes : List String := ["lte", "gte", "lt", "gt", "ne", "like"]

/-- **A valid configuration.** Its attributes are of one kind, identifiers, not read as another
attribute with an operator, and no keys with another use; its page sizes are positive, and the
default is no greater than the greatest. -/
structure Valid : Prop where
  disjoint : ∀ name, ¬ (g.names .equalityOnly name ∧ g.names .anyOperator name)
  identifier : ∀ name, g.IsAttribute name → IsName name
  unsplit : ∀ stem suffix, stem ≠ "" → suffix ∈ suffixes →
    ¬ g.IsAttribute (stem ++ "_" ++ suffix)
  unused : ∀ name, g.IsAttribute name →
    name ≠ "page" ∧ name ≠ "limit" ∧ ¬ g.names .reserved name
  reserved_ne : ¬ g.names .reserved ""
  positive : ∀ field size, g.limit field = some size → 1 ≤ size
  ordered : ∀ max, g.limit .max = some max → (g.limit .default).getD 10 ≤ max

/-- What is wrong with the name of an attribute. -/
inductive NameFault : String → FieldSpecError → Prop
  | empty {name : String} (h : name = "") : NameFault name .emptyName
  | invalid {name : String} (hne : name ≠ "") (h : ¬ IsName name) :
    NameFault name (.invalidName name)
  | unaddressable {name stem suffix : String} (h : IsName name) (hstem : stem ≠ "")
    (hsuffix : suffix ∈ suffixes) (heq : name = stem ++ "_" ++ suffix) :
    NameFault name (.unaddressable name)

/-- What is wrong with a key that is kept from filtering. -/
inductive KeyFault : String → FieldSpecError → Prop
  | empty {key : String} (h : key = "") : KeyFault key .emptyName
  | conflict {key : String} (hne : key ≠ "") (h : g.IsAttribute key) :
    KeyFault key (.reservedConflict key)

/-- The steps of checking. -/
inductive Step where
  | overlap
  | equalityOnly
  | anyOperator
  | reserved
  | page
  | limit
  | zeroDefault
  | zeroMax
  | defaultAboveMax
  deriving DecidableEq

/-- The steps in the order in which they are taken. -/
def Step.order : List Step :=
  [overlap, equalityOnly, anyOperator, reserved, page, limit, zeroDefault, zeroMax, defaultAboveMax]

/-- **All that is wrong with a configuration**: in a step, at a name, a fault. -/
inductive Violation : Step → String → FieldSpecError → Prop
  | overlap {name : String} (he : g.names .equalityOnly name) (ha : g.names .anyOperator name) :
    Violation .overlap name (.overlap name)
  | equalityOnly {name : String} {fault : FieldSpecError} (h : g.names .equalityOnly name)
    (hf : NameFault name fault) : Violation .equalityOnly name fault
  | anyOperator {name : String} {fault : FieldSpecError} (h : g.names .anyOperator name)
    (hf : NameFault name fault) : Violation .anyOperator name fault
  | reserved {key : String} {fault : FieldSpecError} (h : g.names .reserved key)
    (hf : g.KeyFault key fault) : Violation .reserved key fault
  | page {fault : FieldSpecError} (hf : g.KeyFault "page" fault) : Violation .page "page" fault
  | limit {fault : FieldSpecError} (hf : g.KeyFault "limit" fault) :
    Violation .limit "limit" fault
  | zeroDefault (h : g.limit .default = some 0) :
    Violation .zeroDefault "default_limit" (.zeroLimit .default)
  | zeroMax (h : g.limit .max = some 0) : Violation .zeroMax "max_limit" (.zeroLimit .max)
  | defaultAboveMax {max : UInt32} (h : g.limit .max = some max)
    (hlt : max < (g.limit .default).getD 10) :
    Violation .defaultAboveMax "max_limit" (.defaultAboveMax ((g.limit .default).getD 10) max)

/-- One place of a check is before another: in an earlier step, or in the same one at a name whose
bytes are smaller. -/
def Before (step : Step) (name : String) (step' : Step) (name' : String) : Prop :=
  Step.order.idxOf step < Step.order.idxOf step' ∨
    step = step' ∧ Utf8.encode name.toList < Utf8.encode name'.toList

/-- **The first fault of a configuration**: all others are at later places. -/
def IsFirst (fault : FieldSpecError) : Prop :=
  ∃ step name, g.Violation step name fault ∧ ∀ step' name' fault', g.Violation step' name' fault' →
    (step' = step ∧ name' = name ∧ fault' = fault) ∨ Before step name step' name'

variable {g : Given}

theorem eq_zero_of_not_le {size : UInt32} (h : ¬ 1 ≤ size) : size = 0 := by
  rw [UInt32.le_iff_toNat_le] at h
  refine UInt32.toNat_inj.1 (?_ : size.toNat = 0)
  exact Nat.lt_one_iff.1 (Nat.lt_of_not_le h)

/-- A configuration is valid if and only if nothing is wrong with it. -/
theorem valid_iff : g.Valid ↔ ∀ step name fault, ¬ g.Violation step name fault := by
  constructor
  · intro h step name fault hv
    have sound {name : String} {fault : FieldSpecError} (ha : g.IsAttribute name)
        (hf : NameFault name fault) : False := by
      cases hf with
      | empty hempty => exact absurd (h.identifier _ ha).size_pos (by simp [hempty])
      | invalid _ hinvalid => exact hinvalid (h.identifier _ ha)
      | unaddressable _ hstem hsuffix heq => exact h.unsplit _ _ hstem hsuffix (heq ▸ ha)
    cases hv with
    | overlap he ha => exact h.disjoint _ ⟨he, ha⟩
    | equalityOnly hn hf => exact sound (.inl hn) hf
    | anyOperator hn hf => exact sound (.inr hn) hf
    | reserved hn hf =>
      cases hf with
      | empty hempty => exact h.reserved_ne (hempty ▸ hn)
      | conflict _ ha => exact (h.unused _ ha).2.2 hn
    | page hf =>
      cases hf with
      | empty hempty => exact absurd hempty (by decide)
      | conflict _ ha => exact (h.unused _ ha).1 rfl
    | limit hf =>
      cases hf with
      | empty hempty => exact absurd hempty (by decide)
      | conflict _ ha => exact (h.unused _ ha).2.1 rfl
    | zeroDefault hz => exact absurd (h.positive _ _ hz) (by decide)
    | zeroMax hz => exact absurd (h.positive _ _ hz) (by decide)
    | defaultAboveMax hm hlt => exact absurd (h.ordered _ hm) (by simpa using hlt)
  · intro h
    have unfaulty {name : String} {fault : FieldSpecError} (ha : g.IsAttribute name)
        (hf : NameFault name fault) : False :=
      ha.elim (fun hn => h _ _ _ (.equalityOnly hn hf)) fun hn => h _ _ _ (.anyOperator hn hf)
    have identifier (name : String) (ha : g.IsAttribute name) : IsName name := by
      by_contra hinvalid
      by_cases hempty : name = ""
      · exact unfaulty ha (.empty hempty)
      · exact unfaulty ha (.invalid hempty hinvalid)
    have conflict {name : String} (ha : g.IsAttribute name) :
        g.KeyFault name (.reservedConflict name) :=
      .conflict (ne_empty_of_isIdentifier (isIdentifier_iff.2 (identifier name ha))) ha
    exact {
      disjoint := fun name ⟨he, ha⟩ => h _ _ _ (.overlap he ha)
      identifier
      unsplit := fun stem suffix hstem hsuffix ha =>
        unfaulty ha (.unaddressable (identifier _ ha) hstem hsuffix rfl)
      unused := fun name ha => ⟨fun hpage => h _ _ _ (.page (hpage ▸ conflict ha)),
        fun hlimit => h _ _ _ (.limit (hlimit ▸ conflict ha)),
        fun hreserved => h _ _ _ (.reserved hreserved (conflict ha))⟩
      reserved_ne := fun hempty => h _ _ _ (.reserved hempty (.empty rfl))
      positive := fun field size hsize => by
        by_contra hzero
        obtain rfl : size = 0 := eq_zero_of_not_le hzero
        cases field with
        | default => exact h _ _ _ (.zeroDefault hsize)
        | max => exact h _ _ _ (.zeroMax hsize)
      ordered := fun max hmax => UInt32.not_lt.1 fun hlt => h _ _ _ (.defaultAboveMax hmax hlt) }

end Given

end QueryFilter.FieldSpec
