import QueryFilter.Registry.Configuration

/-!
# Registries in use

A registry gets the rules of each configured resource, or none at all if some of them cannot be
built. So however it comes about, by reading configurations or one resource after the other, the
builder has accepted all the rules in it.

* `Registry.foldlM_addConfigured_eq_ok_iff`, `Registry.foldlM_addConfigured_eq_error_iff`: the
  outcome of building the rules of some resources;
* `Registry.Reachable`: the registries that loading and registering lead to;
* **`Registry.Reachable.built`**: their rules are built.
-/

namespace QueryFilter

/-- The rules of an endpoint come from a builder. -/
theorem EndpointConfig.exists_build {c : EndpointConfig} {spec : FieldSpec}
    (h : c.toSpec = .ok spec) : ∃ b : FieldSpec.Builder, b.build = .ok spec :=
  ⟨_, h⟩

namespace Registry

/-! ## Building the rules of resources -/

section Configured

variable {c : Configuration} {g g' : Registry} {r : Resource} {rs : List Resource}
  {e : RegistryError}

/-- The rules that are built for a resource. -/
def rules? (c : Configuration) (r : Resource) : Option FieldSpec :=
  (c r).bind fun endpoint => endpoint.toSpec.toOption

/-- The rules of a resource can be built, if it is configured. -/
def Sound (c : Configuration) (r : Resource) : Prop :=
  ∀ endpoint, c r = some endpoint → ∃ spec, endpoint.toSpec = .ok spec

/-- The rules of a resource are at fault. -/
def FailsWith (c : Configuration) (r : Resource) (e : RegistryError) : Prop :=
  ∃ endpoint cause, c r = some endpoint ∧ endpoint.toSpec = .error cause ∧
    e = .invalidSpec r cause

theorem Sound.not_failsWith (h : Sound c r) : ¬ FailsWith c r e := by
  rintro ⟨endpoint, cause, hc, hfault, -⟩
  obtain ⟨spec, hspec⟩ := h endpoint hc
  rw [hfault] at hspec
  cases hspec

/-- The registry with the rules that are built for some resources. -/
def withRules (g : Registry) (c : Configuration) (rs : List Resource) : Registry :=
  ⟨fun r => (if r ∈ rs then rules? c r else none).or (g.spec? r)⟩

theorem addConfigured_eq_ok_iff :
    addConfigured c g r = .ok g' ↔ Sound c r ∧ g' = withRules g c [r] := by
  have hset (found : Option FieldSpec) (h : rules? c r = found) :
      withRules g c [r] = ⟨fun r' => if r' = r then found.or (g.spec? r) else g.spec? r'⟩ := by
    refine congrArg Registry.mk (funext fun r' => ?_)
    by_cases heq : r' = r
    · rw [if_pos (List.mem_singleton.2 heq), if_pos heq, heq, h]
    · rw [if_neg (mt List.mem_singleton.1 heq), if_neg heq, Option.none_or]
  unfold addConfigured Sound
  cases hc : c r with
  | none =>
    have hsame : withRules g c [r] = g := by
      rw [hset none (by rw [rules?, hc]; rfl)]
      refine congrArg Registry.mk (funext fun r' => ?_)
      by_cases heq : r' = r
      · rw [if_pos heq, heq, Option.none_or]
      · rw [if_neg heq]
    simp [hsame, eq_comm]
  | some endpoint =>
    cases hspec : endpoint.toSpec with
    | error cause => simp [hspec]
    | ok spec =>
      have hregister : withRules g c [r] = g.register r spec :=
        hset (some spec) (by rw [rules?, hc, Option.bind_some, hspec]; rfl)
      simp [hspec, hregister, eq_comm]

theorem addConfigured_eq_error_iff : addConfigured c g r = .error e ↔ FailsWith c r e := by
  unfold addConfigured FailsWith
  cases c r with
  | none => simp
  | some endpoint => cases hspec : endpoint.toSpec <;> simp [hspec, eq_comm]

theorem withRules_cons (g : Registry) (c : Configuration) (r : Resource) (rs : List Resource) :
    withRules (withRules g c [r]) c rs = withRules g c (r :: rs) := by
  refine congrArg Registry.mk (funext fun r' => ?_)
  show (if r' ∈ rs then rules? c r' else none).or
    ((if r' ∈ [r] then rules? c r' else none).or (g.spec? r')) = _
  rw [← Option.or_assoc]
  congr 1
  have hmem : (r' ∈ r :: rs) ↔ r' ∈ rs ∨ r' ∈ [r] := by simp [or_comm]
  by_cases hrs : r' ∈ rs
  · rw [if_pos hrs, if_pos (hmem.2 (.inl hrs))]
    cases rules? c r' <;> simp
  · by_cases hr : r' ∈ [r]
    · rw [if_neg hrs, if_pos hr, if_pos (hmem.2 (.inr hr)), Option.none_or]
    · rw [if_neg hrs, if_neg hr, if_neg (mt hmem.1 (not_or.2 ⟨hrs, hr⟩)), Option.none_or]

/-- **All rules are built**, if they can be. -/
theorem foldlM_addConfigured_eq_ok_iff : rs.foldlM (addConfigured c) g = .ok g' ↔
    (∀ r ∈ rs, Sound c r) ∧ g' = withRules g c rs := by
  induction rs generalizing g with
  | nil =>
    have hnil : withRules g c [] = g := rfl
    rw [List.foldlM_nil, hnil]
    simp [pure, Except.pure, eq_comm]
  | cons r rs ih =>
    rw [List.foldlM_cons, List.forall_mem_cons]
    cases hr : addConfigured c g r with
    | error e =>
      have hfails : FailsWith c r e := addConfigured_eq_error_iff.1 hr
      exact ⟨nofun, fun ⟨⟨hsound, _⟩, _⟩ => absurd hfails hsound.not_failsWith⟩
    | ok g₁ =>
      obtain ⟨hsound, rfl⟩ := addConfigured_eq_ok_iff.1 hr
      show rs.foldlM (addConfigured c) (withRules g c [r]) = .ok g' ↔ _
      rw [ih, withRules_cons]
      simp [hsound]

/-- **The first fault** is reported, and nothing is built. -/
theorem foldlM_addConfigured_eq_error_iff : rs.foldlM (addConfigured c) g = .error e ↔
    ∃ front r back, rs = front ++ r :: back ∧ (∀ r' ∈ front, Sound c r') ∧ FailsWith c r e := by
  induction rs generalizing g with
  | nil => simp [pure, Except.pure]
  | cons r rs ih =>
    rw [List.foldlM_cons]
    cases hr : addConfigured c g r with
    | error e' =>
      have hfails : FailsWith c r e' := addConfigured_eq_error_iff.1 hr
      constructor
      · intro h
        cases h
        exact ⟨[], r, rs, rfl, nofun, hfails⟩
      · rintro ⟨front, r', back, hsplit, hsound, h⟩
        cases front with
        | nil =>
          cases hsplit
          have heq : addConfigured c g r = .error e := addConfigured_eq_error_iff.2 h
          rw [← hr, heq]
          rfl
        | cons first front =>
          cases hsplit
          exact absurd hfails (hsound r List.mem_cons_self).not_failsWith
    | ok g₁ =>
      obtain ⟨hsound, -⟩ := addConfigured_eq_ok_iff.1 hr
      show rs.foldlM (addConfigured c) g₁ = .error e ↔ _
      rw [ih]
      constructor
      · rintro ⟨front, r', back, rfl, hfront, h⟩
        exact ⟨r :: front, r', back, rfl, List.forall_mem_cons.2 ⟨hsound, hfront⟩, h⟩
      · rintro ⟨front, r', back, hsplit, hfront, h⟩
        cases front with
        | nil =>
          cases hsplit
          exact absurd h hsound.not_failsWith
        | cons first front =>
          cases hsplit
          exact ⟨front, r', back, rfl, (List.forall_mem_cons.1 hfront).2, h⟩

end Configured

/-! ## Registries in use -/

/-- The rules of every resource come from a builder that accepted them. -/
def Built (g : Registry) : Prop :=
  ∀ resource spec, g.spec? resource = some spec → ∃ b : FieldSpec.Builder, b.build = .ok spec

/-- **A registry that loading and registering lead to.** -/
inductive Reachable : Registry → Prop
  | empty : Reachable .empty
  | loaded {text : String} {g : Registry} (h : (ofToml text).value = .ok g) : Reachable g
  | read {path : String} {bytes? : Option (List UInt8)} {g : Registry}
    (h : (ofFile path bytes?).value = .ok g) : Reachable g
  | registered {g : Registry} (hg : Reachable g) (resource : Resource) {b : FieldSpec.Builder}
    {spec : FieldSpec} (h : b.build = .ok spec) : Reachable (g.register resource spec)

theorem spec?_register (g : Registry) (resource r : Resource) (spec : FieldSpec) :
    (g.register resource spec).spec? r = if r = resource then some spec else g.spec? r := rfl

theorem built_empty : Built .empty := nofun

theorem Built.register {g : Registry} (hg : g.Built) (resource : Resource)
    {b : FieldSpec.Builder} {spec : FieldSpec} (h : b.build = .ok spec) :
    (g.register resource spec).Built := by
  intro r s hs
  rw [spec?_register] at hs
  by_cases e : r = resource
  · rw [if_pos e] at hs
    cases hs
    exact ⟨b, h⟩
  · rw [if_neg e] at hs
    exact hg r s hs

theorem Built.withRules {g : Registry} (hg : g.Built) (c : Configuration) (rs : List Resource) :
    (g.withRules c rs).Built := by
  intro r spec hs
  rcases Option.or_eq_some_iff.1 hs with hrules | ⟨-, hspec⟩
  · obtain ⟨-, hrules⟩ := Option.ite_none_right_eq_some.1 hrules
    obtain ⟨endpoint, -, hrules⟩ := Option.bind_eq_some_iff.1 hrules
    cases hspec : endpoint.toSpec with
    | error cause =>
      rw [hspec] at hrules
      cases hrules
    | ok built =>
      rw [hspec] at hrules
      cases hrules
      exact EndpointConfig.exists_build hspec
  · exact hg r spec hspec

theorem built_ofToml {text : String} {g : Registry} (h : (ofToml text).value = .ok g) :
    g.Built := by
  unfold ofToml at h
  split at h
  · cases h
  · split at h
    · cases h
    · next hg =>
      cases h
      obtain ⟨-, rfl⟩ := foldlM_addConfigured_eq_ok_iff.1 hg
      exact built_empty.withRules _ _

/-- **The rules in a registry are built**, however it came about. -/
theorem Reachable.built {g : Registry} (hg : g.Reachable) : g.Built := by
  induction hg with
  | empty => exact built_empty
  | loaded h => exact built_ofToml h
  | @read path bytes? g h =>
    unfold ofFile at h
    split at h
    · cases h
    · exact built_ofToml h
  | registered _ resource h ih => exact ih.register resource h

theorem spec_eq_ok_iff {g : Registry} {resource : Resource} {spec : FieldSpec} :
    g.spec resource = .ok spec ↔ g.spec? resource = some spec := by
  unfold Registry.spec
  cases g.spec? resource <;> simp

theorem compile_eq_map (g : Registry) (r : Resource) (raw : RawQuery) :
    g.compile r raw = (g.spec r).map fun spec => spec.compile raw := by
  unfold compile compileTraced
  cases g.spec r <;> rfl

theorem compile_eq_ok_iff {g : Registry} {resource : Resource} {raw : RawQuery}
    {result : Except QueryError CompiledQuery} : g.compile resource raw = .ok result ↔
      ∃ spec, g.spec resource = .ok spec ∧ spec.compile raw = result := by
  rw [compile_eq_map]
  cases g.spec resource <;> simp [Except.map]

end Registry

end QueryFilter
