import QueryFilter.CompiledQuery
import QueryFilter.FieldSpec.Builder
import QueryFilter.Registry.Resource

/-!
# Registries

The filter rules of all resources.

* `Registry`, with `register`, `spec` and `resources`;
* `RegistryError`;
* `EndpointConfig`: what is configured for one resource, with `EndpointConfig.toSpec`;
* **`Registry.ofConfiguration`**: the registry of a configuration, or the first fault in it;
* `Registry.compile`: compiles a query for a resource.
-/

namespace QueryFilter

/-- A fault in building or using a registry. -/
inductive RegistryError where
  /-- No resource of this name has filter rules. -/
  | unknownResource (name : String)
  /-- The filter rules of a resource are at fault. -/
  | invalidSpec (resource : Resource) (cause : FieldSpecError)
  /-- The configuration file cannot be read as text. -/
  | unreadable (path : String)
  /-- The configuration text is not a configuration. -/
  | malformed
  deriving DecidableEq

/-- The wording of a fault. -/
def RegistryError.message : RegistryError → String
  | unknownResource name => "no filter configuration for resource `" ++ name ++ "`"
  | invalidSpec resource cause =>
    "invalid filter configuration for `" ++ resource.name ++ "`: " ++ cause.message
  | unreadable path => "failed to read filter configuration `" ++ path ++ "`"
  | malformed => "failed to parse filter configuration"

/-! ## Endpoints -/

/-- The configuration of the endpoint of a resource. -/
structure EndpointConfig where
  equalityOnly : List String := []
  anyOperator : List String := []
  reserved : List String := []
  defaultLimit : Option UInt32 := none
  maxLimit : Option UInt32 := none
  deriving DecidableEq

/-- The filter rules of an endpoint: a builder is handed its names, and those page sizes that are
set. -/
def EndpointConfig.toSpec (c : EndpointConfig) : Except FieldSpecError FieldSpec :=
  let builder : FieldSpec.Builder := {}
  let builder := builder.addEqualityOnly c.equalityOnly
  let builder := builder.addAnyOperator c.anyOperator
  let builder := builder.addReserved c.reserved
  let builder := match c.defaultLimit with
    | some limit => builder.setDefaultLimit limit
    | none => builder
  let builder := match c.maxLimit with
    | some limit => builder.setMaxLimit limit
    | none => builder
  builder.build

/-! ## Registries -/

/-- The filter rules of each resource that has some. -/
structure Registry where
  spec? : Resource → Option FieldSpec

namespace Registry

/-- The registry without any rules. -/
def empty : Registry := ⟨fun _ => none⟩

/-- Sets the rules of a resource, replacing those it had. -/
def register (g : Registry) (resource : Resource) (spec : FieldSpec) : Registry :=
  ⟨fun r => if r = resource then some spec else g.spec? r⟩

/-- The rules of a resource. -/
def spec (g : Registry) (resource : Resource) : Except RegistryError FieldSpec :=
  match g.spec? resource with
  | some spec => .ok spec
  | none => .error (.unknownResource resource.name)

/-- The resources with rules, in the order of their declaration. -/
def resources (g : Registry) : List Resource :=
  Resource.all.filter fun r => (g.spec? r).isSome

/-- The resource of a name, or its absence as a fault. -/
def resourceNamed (name : String) : Except RegistryError Resource :=
  match Resource.ofName? name with
  | some r => .ok r
  | none => .error (.unknownResource name)

/-! ## Configurations -/

/-- What is configured for each resource that occurs in a configuration. -/
abbrev Configuration : Type := Resource → Option EndpointConfig

/-- Builds the rules of one more resource, if it is configured. -/
def addConfigured (configuration : Configuration) (g : Registry) (r : Resource) :
    Except RegistryError Registry :=
  match configuration r with
  | none => .ok g
  | some endpoint =>
    match endpoint.toSpec with
    | .ok spec => .ok (g.register r spec)
    | .error cause => .error (.invalidSpec r cause)

/-- **The registry of a configuration**, or the fault of the first resource whose rules cannot be
built. -/
def ofConfiguration (configuration : Configuration) : Except RegistryError Registry :=
  Resource.all.foldlM (addConfigured configuration) empty

/-! ## Use -/

/-- Compiles a query for a resource, with a report of the outcome. -/
def compileTraced (g : Registry) (resource : Resource) (raw : RawQuery) :
    Traced (Except RegistryError (Except QueryError CompiledQuery)) :=
  match g.spec resource with
  | .error e => pure (.error e)
  | .ok spec => .ok <$> spec.compileTraced raw

/-- **Compiles a query** for a resource. The outer failure is a missing configuration, the inner
one a rejected query. -/
def compile (g : Registry) (resource : Resource) (raw : RawQuery) :
    Except RegistryError (Except QueryError CompiledQuery) :=
  (g.compileTraced resource raw).value

end Registry

end QueryFilter
