import QueryFilter.Proofs.Building

/-!
# The order of builder calls

A builder collects names in lists, and its rules are made of sets. Whatever order, grouping and
repetition the calls have, what is built depends on the sets of names and the last page sizes only,
and so does the fault that is reported if several are made.

* `NameSet.ofList_congr`: lists with the same members make the same set;
* `FieldSpec.Builder.build_congr`: builders that hold the same build the same;
* **`FieldSpec.Builder.build_ofCalls_congr`**: so do calls that configure the same.
-/

namespace QueryFilter

/-! ## Sets of names -/

namespace NameSet

/-- The only value of a name says that the set has it. -/
theorem get?_eq_some_iff {names : NameSet} {name : String} {u : Unit} :
    names.get? name = some u ↔ names.contains name = true := by
  rw [KeyMap.contains, Option.isSome_iff_exists]
  constructor
  · exact fun h => ⟨u, h⟩
  · rintro ⟨_, h⟩
    exact h

theorem ofList_congr {names names' : List String} (h : ∀ name, name ∈ names ↔ name ∈ names') :
    ofList names = ofList names' := by
  refine KeyMap.ext_get? fun name => Option.ext fun u => ?_
  rw [get?_eq_some_iff, get?_eq_some_iff, contains_ofList_iff, contains_ofList_iff, h]

end NameSet

namespace FieldSpec.Builder

open Given (ofBuilder ofBuilder_ofCalls)

/-! ## Builders -/

/-- **Builders that hold the same names and page sizes** build the same rules, or report the same
fault. -/
theorem build_congr {b b' : Builder} (h : ofBuilder b = ofBuilder b') : b.build = b'.build := by
  have hnames (use : Use) (name : String) :
      (ofBuilder b).names use name ↔ (ofBuilder b').names use name := by rw [h]
  have hlimit (field : LimitField) : (ofBuilder b).limit field = (ofBuilder b').limit field := by
    rw [h]
  have hequality : NameSet.ofList b.equalityOnly = .ofList b'.equalityOnly :=
    NameSet.ofList_congr (hnames .equalityOnly)
  have hany : NameSet.ofList b.anyOperator = .ofList b'.anyOperator :=
    NameSet.ofList_congr (hnames .anyOperator)
  have hreserved : NameSet.ofList b.reserved = .ofList b'.reserved :=
    NameSet.ofList_congr (hnames .reserved)
  have hdefault : b.defaultLimit = b'.defaultLimit := hlimit .default
  have hmax : b.maxLimit = b'.maxLimit := hlimit .max
  unfold build
  rw [hequality, hany, hreserved, hdefault, hmax]

/-! ## Calls -/

/-- The names that a call supplies for a use. -/
def Call.namesFor (use : Use) : Call → List String
  | names u supplied => if u = use then supplied else []
  | limit .. => []

theorem names_ofCalls_iff {calls : List Call} {use : Use} {name : String} :
    (Given.ofCalls calls).names use name ↔ name ∈ calls.flatMap (Call.namesFor use) := by
  rw [List.mem_flatMap]
  constructor
  · rintro ⟨names, hcall, hname⟩
    exact ⟨_, hcall, by rwa [Call.namesFor, if_pos rfl]⟩
  · rintro ⟨c, hcall, hname⟩
    cases c with
    | names u names =>
      obtain ⟨rfl, hmem⟩ : u = use ∧ name ∈ names := by simpa [Call.namesFor] using hname
      exact ⟨names, hcall, hmem⟩
    | limit field size => cases hname

/-- **The order and the grouping of calls are irrelevant.** Two histories that supply the same names
for each use, and of each page size the same last one, build the same rules, or report the same fault
with the same name. -/
theorem build_ofCalls_congr {calls calls' : List Call}
    (hnames : ∀ use name, name ∈ calls.flatMap (Call.namesFor use) ↔
      name ∈ calls'.flatMap (Call.namesFor use))
    (hlimit : ∀ field, (calls.filterMap (Call.size? field)).getLast? =
      (calls'.filterMap (Call.size? field)).getLast?) :
    (ofCalls calls).build = (ofCalls calls').build := by
  have hsame (use : Use) (name : String) :
      (Given.ofCalls calls).names use name ↔ (Given.ofCalls calls').names use name := by
    rw [names_ofCalls_iff, names_ofCalls_iff, hnames]
  refine build_congr ?_
  rw [ofBuilder_ofCalls, ofBuilder_ofCalls]
  exact congrArg₂ Given.mk (funext fun use => funext fun name => propext (hsame use name))
    (funext hlimit)

/-- Two histories with faults of every kind, one of them backwards, with other groups and with
repetitions, and two without a fault. -/
theorem build_ofCalls_congr_faults :
    let faulty : List Call := [.limit .default 7, .names .anyOperator ["role_ne", "9", "age"],
      .names .reserved ["", "age"], .limit .max 5, .limit .default 0,
      .names .equalityOnly ["zone", "role_gt"], .names .equalityOnly ["role"]]
    let faulty' : List Call := [.limit .max 9, .names .equalityOnly ["role", "role_gt", "role"],
      .names .equalityOnly ["zone"], .limit .default 0, .limit .max 5, .names .reserved ["age"],
      .names .anyOperator ["age"], .names .reserved [""], .names .anyOperator ["9", "role_ne"]]
    let right : List Call := [.names .anyOperator ["age", "name"], .names .reserved ["sort"]]
    let right' : List Call := [.names .reserved ["sort"], .names .equalityOnly [],
      .names .anyOperator ["name"], .names .anyOperator ["age", "name"]]
    (ofCalls faulty).build = (ofCalls faulty').build ∧
      (ofCalls faulty').build = .error (.unaddressable "role_gt") ∧
      (ofCalls right).build = (ofCalls right').build ∧
      (ofCalls right').build = .ok ((ofCalls right).rules {}) := by
  intro faulty faulty' right right'
  have same {names names' : List String} (h : names ⊆ names' ∧ names' ⊆ names) (name : String) :
      name ∈ names ↔ name ∈ names' := ⟨fun hname => h.1 hname, fun hname => h.2 hname⟩
  have hfaulty : (ofCalls faulty).build = (ofCalls faulty').build :=
    build_ofCalls_congr (fun use => same (by cases use <;> decide +kernel))
      fun field => by cases field <;> rfl
  have hright : (ofCalls right).build = (ofCalls right').build :=
    build_ofCalls_congr (fun use => same (by cases use <;> decide +kernel))
      fun field => by cases field <;> rfl
  exact ⟨hfaulty, by decide +kernel, hright, by decide +kernel⟩

end FieldSpec.Builder

end QueryFilter
