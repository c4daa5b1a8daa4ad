import QueryFilter.Proofs.Building
import QueryFilter.Proofs.Registry
import QueryFilter.Proofs.Tables

/-!
# Loading a registry

A configuration is loaded as a whole or not at all. The resources are taken in the order of their
declaration, and the first one whose rules cannot be built decides the fault.

* `EndpointConfig.calls`: the calls that feed a builder with the fields of a table;
  `EndpointConfig.toSpec_eq`: the rules of the table are those that it builds;
* `Resource.DeclaredBefore`: the order of resources;
* `Registry.ConfiguredBy`: the configuration that a text writes;
* `Registry.Loaded`, `Registry.FailsFirst`: the two outcomes of a configuration;
* `Registry.registerAll`: a registry after further registrations;
* **`Registry.loading_exact`**: loading, what is loaded, and what later registrations change.
-/

namespace QueryFilter

open FieldSpec (Builder)

/-! ## Tables -/

namespace EndpointConfig

/-- The calls by which the fields of a table are handed to a builder. -/
def calls (c : EndpointConfig) : List Builder.Call :=
  [.names .equalityOnly c.equalityOnly, .names .anyOperator c.anyOperator,
    .names .reserved c.reserved] ++ (c.defaultLimit.map (.limit .default)).toList ++
    (c.maxLimit.map (.limit .max)).toList

/-- **The rules of a table** are those of the builder that its fields are handed to. -/
theorem toSpec_eq (c : EndpointConfig) : c.toSpec = (Builder.ofCalls c.calls).build := by
  obtain ⟨equalityOnly, anyOperator, reserved, defaultLimit, maxLimit⟩ := c
  cases defaultLimit <;> cases maxLimit <;> rfl

end EndpointConfig

/-! ## The order of resources -/

namespace Resource

/-- One resource is declared before another. -/
def DeclaredBefore (r s : Resource) : Prop :=
  r.ctorIdx < s.ctorIdx
  deriving Decidable

theorem pairwise_all : all.Pairwise DeclaredBefore := by
  decide

/-- The resources in front of one are those that are declared before it. -/
theorem mem_front_iff {front back : List Resource} {r s : Resource}
    (hall : all = front ++ r :: back) : s ∈ front ↔ s.DeclaredBefore r := by
  have hpairwise : (front ++ r :: back).Pairwise DeclaredBefore := hall ▸ pairwise_all
  obtain ⟨-, hback, hfront⟩ := List.pairwise_append.1 hpairwise
  constructor
  · exact fun h => hfront s h r List.mem_cons_self
  · intro h
    have hmem : s ∈ front ++ r :: back := hall ▸ s.mem_all
    rcases List.mem_append.1 hmem with hs | hs
    · exact hs
    rcases List.mem_cons.1 hs with rfl | hs
    · exact absurd h (Nat.lt_irrefl _)
    · exact absurd h (Nat.lt_asymm (List.rel_of_pairwise_cons hback hs))

end Resource

namespace Registry

/-! ## Texts -/

/-- **The configuration that a text writes.** -/
def ConfiguredBy (text : String) (c : Configuration) : Prop :=
  ∃ document, Toml.parse text = some document ∧ Configures document c

theorem configuredBy_iff {text : String} {c : Configuration} :
    ConfiguredBy text c ↔ (Toml.parse text).bind configuration? = some c := by
  rw [Option.bind_eq_some_iff]
  constructor
  · rintro ⟨document, hparse, hc⟩
    exact ⟨document, hparse, (configuration?_eq_some_iff (Toml.distinct_parse hparse)).2 hc⟩
  · rintro ⟨document, hparse, hc⟩
    exact ⟨document, hparse, (configuration?_eq_some_iff (Toml.distinct_parse hparse)).1 hc⟩

theorem value_ofToml (text : String) : (ofToml text).value =
    match (Toml.parse text).bind configuration? with
    | none => .error .malformed
    | some c => ofConfiguration c := by
  unfold ofToml
  cases (Toml.parse text).bind configuration? with
  | none => rfl
  | some c =>
    dsimp only
    cases ofConfiguration c <;> rfl

theorem value_ofToml_of_configuredBy {text : String} {c : Configuration}
    (h : ConfiguredBy text c) : (ofToml text).value = ofConfiguration c := by
  rw [value_ofToml, configuredBy_iff.1 h]

theorem value_ofToml_of_not_configuredBy {text : String} (h : ∀ c, ¬ ConfiguredBy text c) :
    (ofToml text).value = .error .malformed := by
  have hnone : (Toml.parse text).bind configuration? = none :=
    Option.eq_none_iff_forall_ne_some.2 fun c hc => h c (configuredBy_iff.2 hc)
  rw [value_ofToml, hnone]

theorem value_ofToml_congr {text text' : String} {es es' : Toml.Entries}
    (h : Toml.parse text = some es) (h' : Toml.parse text' = some es') (hperm : es.Perm es') :
    (ofToml text).value = (ofToml text').value := by
  rw [value_ofToml, value_ofToml, h, h', Option.bind_some, Option.bind_some,
    configuration?_perm (Toml.distinct_parse h) hperm]

/-! ## The outcome of a configuration -/

variable {c : Configuration} {g : Registry}

/-- A registry with the rules of all tables, and with no other rules. -/
structure Loaded (c : Configuration) (g : Registry) : Prop where
  ordered : g.resources.Pairwise Resource.DeclaredBefore
  mem_resources : ∀ r, r ∈ g.resources ↔ ∃ t, c r = some t
  configured : ∀ r t, c r = some t →
    ∃ spec, (Builder.ofCalls t.calls).build = .ok spec ∧ g.spec r = .ok spec
  unknown : ∀ r, c r = none → g.spec r = .error (.unknownResource r.name)

/-- The fault of a table, where none of a resource that is declared before its own is at fault. -/
def FailsFirst (c : Configuration) (e : RegistryError) : Prop :=
  ∃ r t cause, c r = some t ∧ (Builder.ofCalls t.calls).build = .error cause ∧
    e = .invalidSpec r cause ∧ ∀ r' : Resource, r'.DeclaredBefore r →
      ∀ t', c r' = some t' → ∃ spec, (Builder.ofCalls t'.calls).build = .ok spec

theorem sound_iff {r : Resource} :
    Sound c r ↔ ∀ t, c r = some t → ∃ spec, (Builder.ofCalls t.calls).build = .ok spec := by
  unfold Sound
  simp only [EndpointConfig.toSpec_eq]

theorem failsWith_iff {r : Resource} {e : RegistryError} : FailsWith c r e ↔
    ∃ t cause, c r = some t ∧ (Builder.ofCalls t.calls).build = .error cause ∧
      e = .invalidSpec r cause := by
  unfold FailsWith
  simp only [EndpointConfig.toSpec_eq]

theorem ofConfiguration_eq_ok_iff : ofConfiguration c = .ok g ↔
    (∀ r t, c r = some t → ∃ spec, (Builder.ofCalls t.calls).build = .ok spec) ∧
      g = ⟨rules? c⟩ := by
  have hall : withRules empty c Resource.all = ⟨rules? c⟩ := by
    refine congrArg Registry.mk (funext fun r => ?_)
    rw [if_pos (Resource.mem_all r)]
    exact Option.or_none
  have hsound : (∀ r ∈ Resource.all, Sound c r) ↔
      ∀ r t, c r = some t → ∃ spec, (Builder.ofCalls t.calls).build = .ok spec := by
    simp only [Resource.mem_all, true_imp_iff, sound_iff]
  rw [← hsound, ← hall]
  exact foldlM_addConfigured_eq_ok_iff

theorem ofConfiguration_eq_error_iff {e : RegistryError} :
    ofConfiguration c = .error e ↔ FailsFirst c e := by
  unfold ofConfiguration
  rw [foldlM_addConfigured_eq_error_iff]
  simp only [sound_iff, failsWith_iff, FailsFirst]
  constructor
  · rintro ⟨front, r, back, hall, hfront, t, cause, ht, hbuild, he⟩
    exact ⟨r, t, cause, ht, hbuild, he, fun r' h => hfront r' ((Resource.mem_front_iff hall).2 h)⟩
  · rintro ⟨r, t, cause, ht, hbuild, he, hfront⟩
    obtain ⟨front, back, hall⟩ := List.append_of_mem r.mem_all
    exact ⟨front, r, back, hall, fun r' h => hfront r' ((Resource.mem_front_iff hall).1 h), t, cause,
      ht, hbuild, he⟩

theorem exists_ofConfiguration_eq_ok_iff : (∃ g, ofConfiguration c = .ok g) ↔
    ∀ r t, c r = some t → ∃ spec, (Builder.ofCalls t.calls).build = .ok spec := by
  simp only [ofConfiguration_eq_ok_iff, exists_and_left, exists_eq, and_true]

theorem loaded_of_ofConfiguration (h : ofConfiguration c = .ok g) : Loaded c g := by
  obtain ⟨hsound, rfl⟩ := ofConfiguration_eq_ok_iff.1 h
  have hnone {r : Resource} (hr : c r = none) : rules? c r = none := by
    rw [rules?, hr]
    rfl
  have hsome {r : Resource} {t : EndpointConfig} (hr : c r = some t) :
      ∃ spec, (Builder.ofCalls t.calls).build = .ok spec ∧ rules? c r = some spec := by
    obtain ⟨spec, hspec⟩ := hsound r t hr
    refine ⟨spec, hspec, ?_⟩
    rw [rules?, hr, Option.bind_some, t.toSpec_eq, hspec]
    rfl
  exact {
    ordered := Resource.pairwise_all.filter _
    mem_resources := fun r => by
      have hmem : r ∈ resources ⟨rules? c⟩ ↔ (rules? c r).isSome = true := by
        rw [resources, List.mem_filter]
        exact and_iff_right r.mem_all
      rw [hmem]
      cases hr : c r with
      | none => simp [hnone hr]
      | some t =>
        obtain ⟨spec, -, hspec⟩ := hsome hr
        simp [hspec]
    configured := fun r t hr => by
      obtain ⟨spec, hbuild, hspec⟩ := hsome hr
      exact ⟨spec, hbuild, spec_eq_ok_iff.2 hspec⟩
    unknown := fun r hr => by
      unfold spec
      dsimp only
      rw [hnone hr] }

/-! ## Further registrations -/

/-- The registry after some registrations, in their order. -/
def registerAll (g : Registry) (registrations : List (Resource × FieldSpec)) : Registry :=
  registrations.foldl (fun g e => g.register e.1 e.2) g

/-- The rules that are registered last for a resource. -/
def lastRegistered? (r : Resource) (registrations : List (Resource × FieldSpec)) :
    Option FieldSpec :=
  (registrations.filterMap fun e => if e.1 = r then some e.2 else none).getLast?

theorem spec?_registerAll (g : Registry) (registrations : List (Resource × FieldSpec))
    (r : Resource) :
    (g.registerAll registrations).spec? r = (lastRegistered? r registrations).or (g.spec? r) := by
  induction registrations generalizing g with
  | nil => rfl
  | cons e registrations ih =>
    have hstep : (g.registerAll (e :: registrations)).spec? r =
        ((g.register e.1 e.2).registerAll registrations).spec? r := rfl
    rw [hstep, ih, spec?_register, lastRegistered?, lastRegistered?, List.filterMap_cons]
    by_cases heq : e.1 = r
    · rw [if_pos heq, if_pos heq.symm, List.getLast?_cons]
      cases (registrations.filterMap fun e => if e.1 = r then some e.2 else none).getLast? <;> rfl
    · rw [if_neg heq, if_neg (Ne.symm heq)]

/-- A lookup sees the last registration of its resource, and no other. -/
theorem spec_registerAll (g : Registry) (registrations : List (Resource × FieldSpec))
    (r : Resource) : (g.registerAll registrations).spec r =
      match lastRegistered? r registrations with
      | some spec => .ok spec
      | none => g.spec r := by
  unfold spec
  rw [spec?_registerAll]
  cases lastRegistered? r registrations <;> rfl

/-- **Loading is all or nothing.** A text that writes a configuration leads to its registry, and any
other text is malformed; the order of the tables in the text does not matter. A configuration is
loaded if and only if the builder that is fed with the fields of a table accepts each; the registry
then has exactly the rules that are built. Otherwise the fault is that of the first resource at
fault. After further registrations a resource has the rules that were registered last, or those it
had, and queries are compiled by them. -/
theorem loading_exact :
    (∀ text c, ConfiguredBy text c → (ofToml text).value = ofConfiguration c) ∧
    (∀ text, (∀ c, ¬ ConfiguredBy text c) → (ofToml text).value = .error .malformed) ∧
    (∀ text text' es es', Toml.parse text = some es → Toml.parse text' = some es' → es.Perm es' →
      (ofToml text).value = (ofToml text').value) ∧
    (∀ c : Configuration,
      ((∃ g, ofConfiguration c = .ok g) ↔
        ∀ r t, c r = some t → ∃ spec, (Builder.ofCalls t.calls).build = .ok spec) ∧
      (∀ g, ofConfiguration c = .ok g → Loaded c g) ∧
      ∀ e, ofConfiguration c = .error e ↔ FailsFirst c e) ∧
    ∀ (g : Registry) registrations r,
      ((g.registerAll registrations).spec r =
        match lastRegistered? r registrations with
        | some spec => .ok spec
        | none => g.spec r) ∧
      ∀ raw, (g.registerAll registrations).compile r raw =
        ((g.registerAll registrations).spec r).map fun spec => spec.compile raw :=
  ⟨fun _ _ => value_ofToml_of_configuredBy, fun _ => value_ofToml_of_not_configuredBy,
    fun _ _ _ _ => value_ofToml_congr,
    fun _ => ⟨exists_ofConfiguration_eq_ok_iff, fun _ => loaded_of_ofConfiguration,
      fun _ => ofConfiguration_eq_error_iff⟩,
    fun g registrations r => ⟨spec_registerAll g registrations r, fun raw =>
      compile_eq_map (g.registerAll registrations) r raw⟩⟩

/-- Two tables at fault, in either order in the text: the fault is that of the resource that is
declared first. The third table alone is loaded, and a resource that is neither in it nor registered
is unknown. A table of no resource is malformed. -/
theorem loading_exact_two_faults :
    let users := "[users]\nreserved = [\"sort\"]\nany_operator = [\"age\", \"name\"]\n"
    let events := "[events]\ndefault_limit = 0\n"
    let notifications := "[notifications]\nmax_limit = 0\nequality_only = []\n"
    let ofUsers : EndpointConfig := { anyOperator := ["age", "name"], reserved := ["sort"] }
    let alone : Configuration := fun r => if r = .users then some ofUsers else none
    let all : Configuration := fun
      | .notifications => some { maxLimit := some 0 }
      | .events => some { defaultLimit := some 0 }
      | r => alone r
    ConfiguredBy (notifications ++ events ++ users) all ∧ ConfiguredBy users alone ∧
    (ofToml (notifications ++ events ++ users)).value =
      .error (.invalidSpec .events (.zeroLimit .default)) ∧
    (ofToml (users ++ events ++ notifications)).value =
      .error (.invalidSpec .events (.zeroLimit .default)) ∧
    (ofToml "[members]\n").value = .error .malformed ∧
    ∃ g, (ofToml users).value = .ok g ∧ .users ∈ g.resources ∧ .events ∉ g.resources ∧
      (∃ spec, (Builder.ofCalls ofUsers.calls).build = .ok spec ∧ g.spec .users = .ok spec) ∧
      ∀ spec, (g.registerAll [(.posts, spec)]).spec .posts = .ok spec ∧
        (g.registerAll [(.posts, spec)]).spec .events = .error (.unknownResource "events") := by
  intro users events notifications ofUsers alone all
  obtain ⟨hconfigured, hmalformed, horder, hloading, hregistered⟩ := loading_exact
  obtain ⟨-, -, hall⟩ := hloading all
  obtain ⟨halone, hloaded, -⟩ := hloading alone
  let zero : Toml.Value := .integer ⟨10, false, ['0']⟩
  let document : Toml.Entries := [
    ("users", .table .header [("reserved", .array false [.string "sort"]),
      ("any_operator", .array false [.string "age", .string "name"])]),
    ("events", .table .header [("default_limit", zero)]),
    ("notifications", .table .header [("max_limit", zero), ("equality_only", .array false [])])]
  have hparse : Toml.parse (notifications ++ events ++ users) = some document.reverse := by
    decide +kernel
  have hparse' : Toml.parse (users ++ events ++ notifications) = some document := by
    decide +kernel
  have hbyAll : ConfiguredBy (notifications ++ events ++ users) all :=
    ⟨_, hparse, (configuration?_eq_some_iff (Toml.distinct_parse hparse)).1 (by decide +kernel)⟩
  have hbyAlone : ConfiguredBy users alone := configuredBy_iff.2 (by decide +kernel)
  have hnone : (Toml.parse "[members]\n").bind configuration? = none := by decide +kernel
  have hbuild : ∃ spec, (Builder.ofCalls ofUsers.calls).build = .ok spec :=
    ⟨(Builder.ofCalls ofUsers.calls).rules ⟨10, none⟩, by decide +kernel⟩
  have haccepted : ∀ r t, alone r = some t →
      ∃ spec, (Builder.ofCalls t.calls).build = .ok spec := by
    intro r t ht
    obtain ⟨-, ht⟩ := Option.ite_none_right_eq_some.1 ht
    cases ht
    exact hbuild
  have hfault : (ofToml (notifications ++ events ++ users)).value =
      .error (.invalidSpec .events (.zeroLimit .default)) := by
    refine (hconfigured _ _ hbyAll).trans ((hall _).2 ?_)
    refine ⟨.events, { defaultLimit := some 0 }, _, rfl, by decide +kernel, rfl, ?_⟩
    intro r hr t ht
    cases r with
    | users => exact haccepted .users t ht
    | posts => cases ht
    | events | libraries | attachments | notifications => exact absurd hr (by decide)
  obtain ⟨g, hg⟩ := halone.2 haccepted
  refine ⟨hbyAll, hbyAlone, hfault,
    (horder _ _ _ _ hparse' hparse document.reverse_perm.symm).trans hfault,
    hmalformed _ fun c hc => ?_, g, (hconfigured _ _ hbyAlone).trans hg,
    ((hloaded g hg).mem_resources .users).2 ⟨ofUsers, rfl⟩, fun hevents => ?_,
    (hloaded g hg).configured .users ofUsers rfl,
    fun spec => ⟨(hregistered g [(.posts, spec)] .posts).1, ?_⟩⟩
  · rw [configuredBy_iff.1 hc] at hnone
    cases hnone
  · obtain ⟨t, ht⟩ := ((hloaded g hg).mem_resources .events).1 hevents
    cases ht
  · rw [(hregistered g [(.posts, spec)] .events).1]
    exact (hloaded g hg).unknown .events rfl

end Registry

end QueryFilter
