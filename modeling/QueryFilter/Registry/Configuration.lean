import QueryFilter.Registry.Basic
import QueryFilter.Toml.Document

/-!
# Configuration texts

A configuration is a document with a table for each resource. A table has up to five fields: three
lists of names and two page sizes. It may also be written as an array of the fields in their order.

* `Registry.fieldNames`: the names of the fields;
* `Registry.endpoint?`: the content of a resource's table; a name that is not that of a field or
  occurs twice, or a value of the wrong type, is a fault;
* `Registry.configuration?`: the content of a document, in which all names are those of resources;
* **`Registry.ofToml`**, `Registry.ofFile`: the registry of a text and of the bytes of a file.
-/

namespace QueryFilter.Registry

/-! ## Fields -/

/-- A string. -/
def string? : Toml.Value → Option String
  | .string s => some s
  | _ => none

/-- A list of names. -/
def names? : Toml.Value → Option (List String)
  | .array _ items => items.mapM string?
  | _ => none

/-- A page size. -/
def pageSize? : Toml.Value → Option UInt32
  | .integer literal => literal.value?.bind fun i =>
      if 0 ≤ i then Numeral.word32? i.toNat else none
  | _ => none

/-- The names of the fields, in their order in an array. -/
def fieldNames : List String :=
  ["equality_only", "any_operator", "reserved", "default_limit", "max_limit"]

/-- The content of a field, or its default if it is missing. -/
def fieldOr? {α : Type} (fields : Toml.Entries) (read? : Toml.Value → Option α) (default : α)
    (name : String) : Option α :=
  match fields.lookup name with
  | none => some default
  | some v => read? v

/-! ## Tables -/

/-- The content of some fields. Each has to be known, and is given once. -/
def endpointOfFields? (fields : Toml.Entries) : Option EndpointConfig :=
  let names := fields.map (·.1)
  let namesAt? := fieldOr? fields names? []
  let pageSizeAt? := fieldOr? fields (fun v => (pageSize? v).map some) none
  if names.Nodup ∧ ∀ name ∈ names, name ∈ fieldNames then do
    let equalityOnly ← namesAt? "equality_only"
    let anyOperator ← namesAt? "any_operator"
    let reserved ← namesAt? "reserved"
    let defaultLimit ← pageSizeAt? "default_limit"
    let maxLimit ← pageSizeAt? "max_limit"
    return { equalityOnly, anyOperator, reserved, defaultLimit, maxLimit }
  else none

/-- The content of a resource's table. Items of an array beyond the last field are not looked at. -/
def endpoint? : Toml.Value → Option EndpointConfig
  | .table _ entries => endpointOfFields? entries
  | .array _ items => endpointOfFields? (fieldNames.zip items)
  | _ => none

/-- The content of a document. -/
def configuration? (document : Toml.Entries) : Option Configuration :=
  document.foldlM (fun configuration (name, v) => do
    let resource ← Resource.ofName? name
    let endpoint ← endpoint? v
    return fun r => if r = resource then some endpoint else configuration r) (fun _ => none)

/-! ## Loading -/

/-- **The registry of a configuration text**, with a report of its size. -/
def ofToml (text : String) : Traced (Except RegistryError Registry) :=
  match (Toml.parse text).bind configuration? with
  | none => pure (.error .malformed)
  | some configuration =>
    match ofConfiguration configuration with
    | .error e => pure (.error e)
    | .ok g => do
      Traced.emit (.configurationLoaded g.resources.length)
      return .ok g

/-- The registry of a file. The bytes are missing if there is no such file. -/
def ofFile (path : String) (bytes? : Option (List UInt8)) :
    Traced (Except RegistryError Registry) :=
  match bytes?.bind Utf8.decode? with
  | none => pure (.error (.unreadable path))
  | some cs => ofToml (String.ofList cs)

end QueryFilter.Registry
