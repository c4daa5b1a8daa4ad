import QueryFilter.Proofs.Numeral
import QueryFilter.Registry.Configuration
import Mathlib.Data.List.Induction
import Mathlib.Data.List.Nodup

/-!
# The tables of a configuration text

A document has at most one entry of each name, and what is configured for a resource is the content
of the entry with its name. So it does not matter in which order the tables stand in the text.

* `Toml.Distinct`: entries with distinct names; **`Toml.distinct_parse`**: those of a document are;
* `Registry.Written`, `Registry.Describes`: the configuration that the fields of a table write,
  apart from how they are read; **`Registry.endpoint?_eq_some_iff`**: it is the one that is read;
* `Registry.Configures`: the configuration that the tables of a document write;
  **`Registry.configuration?_eq_some_iff`**: it is the one that is read;
* **`Registry.configuration?_perm`**: the order of the entries does not matter.
-/

namespace QueryFilter

namespace Toml

/-! ## Distinct names -/

/-- Entries of which no two have the same name. -/
def Distinct (es : Entries) : Prop :=
  (es.map (·.1)).Nodup

theorem mem_map_setEntry {name n : String} {v : Value} {es : Entries} :
    n ∈ (setEntry name v es).map (·.1) ↔ n = name ∨ n ∈ es.map (·.1) := by
  induction es with
  | nil => simp [setEntry]
  | cons e es ih =>
    obtain ⟨m, w⟩ := e
    rw [setEntry]
    split
    · next heq => simp [heq]
    · rw [List.map_cons, List.mem_cons, ih, List.map_cons, List.mem_cons]
      exact or_left_comm

theorem distinct_setEntry {es : Entries} (h : Distinct es) (name : String) (v : Value) :
    Distinct (setEntry name v es) := by
  induction es with
  | nil => exact List.nodup_cons.2 ⟨List.not_mem_nil, List.nodup_nil⟩
  | cons e es ih =>
    obtain ⟨m, w⟩ := e
    obtain ⟨hm, hes⟩ := List.nodup_cons.1 h
    rw [setEntry]
    split
    · exact h
    · next hne =>
      refine List.nodup_cons.2 ⟨fun hmem => ?_, ih hes⟩
      rcases mem_map_setEntry.1 hmem with heq | hmem
      · exact hne heq
      · exact hm hmem

theorem distinct_concat_iff {es : Entries} {e : String × Value} :
    Distinct (es ++ [e]) ↔ Distinct es ∧ ∀ e' ∈ es, e'.1 ≠ e.1 := by
  unfold Distinct
  rw [List.map_append, List.nodup_append]
  simp

theorem lookup_eq_some_iff {es : Entries} (h : Distinct es) {name : String} {v : Value} :
    es.lookup name = some v ↔ (name, v) ∈ es := by
  rw [List.lookup_eq_some_iff]
  constructor
  · rintro ⟨front, back, rfl, -⟩
    exact List.mem_append_right _ List.mem_cons_self
  · intro hmem
    obtain ⟨front, back, rfl⟩ := List.append_of_mem hmem
    refine ⟨front, back, rfl, fun e he => bne_iff_ne.2 fun heq => ?_⟩
    unfold Distinct at h
    rw [List.map_append, List.map_cons, List.nodup_append] at h
    exact h.2.2 e.1 (List.mem_map_of_mem he) name List.mem_cons_self heq.symm

theorem lookup_eq_none_iff {es : Entries} {name : String} :
    es.lookup name = none ↔ ∀ v, (name, v) ∉ es := by
  rw [List.lookup_eq_none_iff]
  constructor
  · exact fun h v hmem => bne_iff_ne.1 (h _ hmem) rfl
  · exact fun h e he => bne_iff_ne.2 fun heq => h e.2 (heq ▸ he)

/-- A change of entries that gives one name a value, if it succeeds. -/
def SetsOne (change : Entries → Option Entries) : Prop :=
  ∀ es es', change es = some es' → ∃ name v, es' = setEntry name v es

theorem setsOne_addPair (name : String) (v : Value) (parents : List String) :
    SetsOne (addPair name v parents) := by
  intro es es' h
  cases parents with
  | nil =>
    rw [addPair] at h
    split at h
    · cases h
    · cases h
      exact ⟨_, _, rfl⟩
  | cons parent parents =>
    rw [addPair] at h
    split at h
    · obtain ⟨inner, -, rfl⟩ := Option.map_eq_some_iff.1 h
      exact ⟨_, _, rfl⟩
    · obtain ⟨inner, -, rfl⟩ := Option.map_eq_some_iff.1 h
      exact ⟨_, _, rfl⟩
    · cases h

theorem setsOne_openTable (name : String) : SetsOne (openTable name) := by
  intro es es' h
  unfold openTable at h
  split at h <;> cases h <;> exact ⟨_, _, rfl⟩

theorem setsOne_openElement (name : String) : SetsOne (openElement name) := by
  intro es es' h
  unfold openElement at h
  split at h <;> cases h <;> exact ⟨_, _, rfl⟩

theorem setsOne_within {change : Entries → Option Entries} (hc : SetsOne change)
    (names : List String) : SetsOne (within change names) := by
  intro es es' h
  cases names with
  | nil => exact hc es es' h
  | cons name names =>
    rw [within] at h
    split at h
    · obtain ⟨inner, -, rfl⟩ := Option.map_eq_some_iff.1 h
      exact ⟨_, _, rfl⟩
    · cases h
    · obtain ⟨inner, -, rfl⟩ := Option.map_eq_some_iff.1 h
      exact ⟨_, _, rfl⟩
    · split at h
      · obtain ⟨inner, -, rfl⟩ := Option.map_eq_some_iff.1 h
        exact ⟨_, _, rfl⟩
      · cases h
    · cases h

/-- A statement gives one entry of the document a value. -/
theorem exists_setEntry_of_add {a a' : Assembly} {s : Statement} (h : a.add s = some a') :
    ∃ name v, a'.entries = setEntry name v a.entries := by
  cases s with
  | header p =>
    obtain ⟨es, hes, rfl⟩ := Option.map_eq_some_iff.1 h
    exact setsOne_within (setsOne_openTable _) _ _ _ hes
  | element p =>
    obtain ⟨es, hes, rfl⟩ := Option.map_eq_some_iff.1 h
    exact setsOne_within (setsOne_openElement _) _ _ _ hes
  | pair p v =>
    obtain ⟨es, hes, rfl⟩ := Option.map_eq_some_iff.1 h
    exact setsOne_within (setsOne_addPair _ _ _) _ _ _ hes

theorem distinct_foldlM_add {a a' : Assembly} {parts : List Statement} (ha : Distinct a.entries)
    (h : parts.foldlM Assembly.add a = some a') : Distinct a'.entries := by
  induction parts generalizing a with
  | nil =>
    cases h
    exact ha
  | cons s parts ih =>
    rw [List.foldlM_cons] at h
    obtain ⟨next, hnext, hrest⟩ := Option.bind_eq_some_iff.1 h
    obtain ⟨name, v, heq⟩ := exists_setEntry_of_add hnext
    exact ih (heq ▸ distinct_setEntry ha name v) hrest

/-- **The entries of a document have distinct names.** -/
theorem distinct_parse {text : String} {es : Entries} (h : parse text = some es) :
    Distinct es := by
  unfold parse at h
  obtain ⟨⟨parts, rest⟩, -, h⟩ := Option.bind_eq_some_iff.1 h
  obtain ⟨assembly, hassembly, heq⟩ := Option.bind_eq_some_iff.1 h
  cases heq
  have hempty : Distinct (⟨[], []⟩ : Assembly).entries := List.nodup_nil
  exact distinct_foldlM_add hempty hassembly

end Toml

namespace Registry

open Toml (Entries Distinct)

/-! ## The content of a table -/

/-- A value that writes a list of names. -/
def WritesNames (v : Toml.Value) (names : List String) : Prop :=
  ∃ ofHeaders, v = .array ofHeaders (names.map .string)

/-- A value that writes a page size, so that one is set. -/
def WritesPageSize (v : Toml.Value) (size? : Option UInt32) : Prop :=
  ∃ literal size, v = .integer literal ∧ literal.value? = some (size.toNat : Int) ∧
    size? = some size

/-- **The content of a field**: what its entry writes, or the default if there is none. -/
inductive Holds {α : Type} (fields : Entries) (writes : Toml.Value → α → Prop) (default : α)
    (name : String) : α → Prop
  | missing (h : ∀ v, (name, v) ∉ fields) : Holds fields writes default name default
  | written {v : Toml.Value} {a : α} (hv : (name, v) ∈ fields) (ha : writes v a) :
    Holds fields writes default name a

/-- **The configuration that fields write**, apart from how they are read. -/
structure Written (fields : Entries) (c : EndpointConfig) : Prop where
  distinct : Distinct fields
  known : ∀ e ∈ fields, e.1 ∈ fieldNames
  equalityOnly : Holds fields WritesNames [] "equality_only" c.equalityOnly
  anyOperator : Holds fields WritesNames [] "any_operator" c.anyOperator
  reserved : Holds fields WritesNames [] "reserved" c.reserved
  defaultLimit : Holds fields WritesPageSize none "default_limit" c.defaultLimit
  maxLimit : Holds fields WritesPageSize none "max_limit" c.maxLimit

/-- **The configuration that a value writes**: by fields with their names, or by an array of them
that may stop before the last one. -/
inductive Describes : Toml.Value → EndpointConfig → Prop
  | table {form : Toml.TableForm} {fields : Entries} {c : EndpointConfig} (h : Written fields c) :
    Describes (.table form fields) c
  | array {ofHeaders : Bool} {items : List Toml.Value} {c : EndpointConfig}
    (h : Written (["equality_only", "any_operator", "reserved", "default_limit", "max_limit"].zip
      items) c) : Describes (.array ofHeaders items) c

theorem mapM_string?_eq_some_iff {items : List Toml.Value} {names : List String} :
    items.mapM string? = some names ↔ items = names.map .string := by
  induction items generalizing names with
  | nil => cases names <;> simp
  | cons item items ih =>
    rw [List.mapM_cons]
    cases item <;> cases names <;> simp [string?, Option.bind_eq_some_iff, ih, and_comm]

theorem names?_eq_some_iff {v : Toml.Value} {names : List String} :
    names? v = some names ↔ WritesNames v names := by
  cases v with
  | array ofHeaders items => simp [names?, WritesNames, mapM_string?_eq_some_iff]
  | _ => simp [names?, WritesNames]

theorem pageSize?_eq_some_iff {v : Toml.Value} {size : UInt32} :
    pageSize? v = some size ↔
      ∃ literal, v = .integer literal ∧ literal.value? = some (size.toNat : Int) := by
  cases v with
  | integer literal =>
    have hword (i : Int) : (if 0 ≤ i then Numeral.word32? i.toNat else none) = some size ↔
        i = size.toNat := by
      rw [Option.ite_none_right_eq_some, Numeral.word32?_eq_some_iff]
      omega
    simp only [pageSize?, Option.bind_eq_some_iff, hword]
    simp
  | _ => simp [pageSize?]

theorem map_pageSize?_eq_some_iff {v : Toml.Value} {size? : Option UInt32} :
    (pageSize? v).map some = some size? ↔ WritesPageSize v size? := by
  rw [Option.map_eq_some_iff]
  constructor
  · rintro ⟨size, hsize, rfl⟩
    obtain ⟨literal, hv, hvalue⟩ := pageSize?_eq_some_iff.1 hsize
    exact ⟨literal, size, hv, hvalue, rfl⟩
  · rintro ⟨literal, size, hv, hvalue, rfl⟩
    exact ⟨size, pageSize?_eq_some_iff.2 ⟨literal, hv, hvalue⟩, rfl⟩

theorem fieldOr?_eq_some_iff {α : Type} {fields : Entries} (hfields : Distinct fields)
    {read? : Toml.Value → Option α} {writes : Toml.Value → α → Prop}
    (hread : ∀ {v a}, read? v = some a ↔ writes v a) {default a : α} {name : String} :
    fieldOr? fields read? default name = some a ↔ Holds fields writes default name a := by
  unfold fieldOr?
  cases h : fields.lookup name with
  | none =>
    have hmissing : ∀ v, (name, v) ∉ fields := Toml.lookup_eq_none_iff.1 h
    constructor
    · intro heq
      cases heq
      exact .missing hmissing
    · rintro (_ | ⟨hv, -⟩)
      · rfl
      · exact absurd hv (hmissing _)
  | some v =>
    have hv : (name, v) ∈ fields := (Toml.lookup_eq_some_iff hfields).1 h
    constructor
    · exact fun heq => .written hv (hread.1 heq)
    · rintro (hmissing | ⟨hw, ha⟩)
      · exact absurd hv (hmissing v)
      · rw [← Toml.lookup_eq_some_iff hfields, h] at hw
        cases hw
        exact hread.2 ha

theorem endpointOfFields?_eq_some_iff {fields : Entries} {c : EndpointConfig} :
    endpointOfFields? fields = some c ↔ Written fields c := by
  have names (hdistinct : Distinct fields) {name : String} {names : List String} :
      fieldOr? fields names? [] name = some names ↔ Holds fields WritesNames [] name names :=
    fieldOr?_eq_some_iff hdistinct names?_eq_some_iff
  have pageSize (hdistinct : Distinct fields) {name : String} {size? : Option UInt32} :
      fieldOr? fields (fun v => (pageSize? v).map some) none name = some size? ↔
        Holds fields WritesPageSize none name size? :=
    fieldOr?_eq_some_iff hdistinct map_pageSize?_eq_some_iff
  unfold endpointOfFields?
  simp only [Option.ite_none_right_eq_some, Option.bind_eq_bind, Option.bind_eq_some_iff]
  constructor
  · rintro ⟨⟨hdistinct, hknown⟩, _, hequality, _, hany, _, hreserved, _, hdefault, _, hmax, heq⟩
    cases heq
    exact {
      distinct := hdistinct
      known := List.forall_mem_map.1 hknown
      equalityOnly := (names hdistinct).1 hequality
      anyOperator := (names hdistinct).1 hany
      reserved := (names hdistinct).1 hreserved
      defaultLimit := (pageSize hdistinct).1 hdefault
      maxLimit := (pageSize hdistinct).1 hmax }
  · intro h
    exact ⟨⟨h.distinct, List.forall_mem_map.2 h.known⟩, _, (names h.distinct).2 h.equalityOnly, _,
      (names h.distinct).2 h.anyOperator, _, (names h.distinct).2 h.reserved, _,
      (pageSize h.distinct).2 h.defaultLimit, _, (pageSize h.distinct).2 h.maxLimit, rfl⟩

/-- **What is read from a table** is what it writes. -/
theorem endpoint?_eq_some_iff {v : Toml.Value} {c : EndpointConfig} :
    endpoint? v = some c ↔ Describes v c := by
  constructor
  · intro h
    cases v with
    | table form fields => exact .table (endpointOfFields?_eq_some_iff.1 h)
    | array ofHeaders items => exact .array (endpointOfFields?_eq_some_iff.1 h)
    | _ => cases h
  · intro h
    cases h with
    | table h | array h => exact endpointOfFields?_eq_some_iff.2 h

/-! ## The content of a document -/

/-- **The configuration that a document writes**: the content of its tables, each for the resource
with its name. -/
structure Configures (document : Entries) (c : Configuration) : Prop where
  content : ∀ e ∈ document, ∃ r endpoint, e.1 = r.name ∧ Describes e.2 endpoint ∧
    c r = some endpoint
  exact : ∀ r endpoint, c r = some endpoint → ∃ v, (r.name, v) ∈ document ∧ Describes v endpoint

/-- The resource and the content of an entry of a document. -/
def reads? (e : String × Toml.Value) : Option (Resource × EndpointConfig) :=
  (Resource.ofName? e.1).bind fun r => (endpoint? e.2).map (r, ·)

/-- The configuration with one more table. -/
def withTable (c : Configuration) (t : Resource × EndpointConfig) : Configuration :=
  fun r => if r = t.1 then some t.2 else c r

theorem configuration?_eq (es : Entries) : configuration? es =
    es.foldlM (fun c e => (reads? e).map (withTable c)) fun _ => none := by
  unfold configuration?
  congr 1
  funext c ⟨name, v⟩
  dsimp only [reads?]
  cases Resource.ofName? name with
  | none => rfl
  | some r => cases endpoint? v <;> rfl

theorem reads?_eq_some_iff {e : String × Toml.Value} {r : Resource} {endpoint : EndpointConfig} :
    reads? e = some (r, endpoint) ↔ e.1 = r.name ∧ Describes e.2 endpoint := by
  unfold reads?
  simp only [Option.bind_eq_some_iff, Option.map_eq_some_iff, Prod.mk.injEq,
    Resource.ofName?_eq_some_iff, endpoint?_eq_some_iff]
  constructor
  · rintro ⟨_, hname, _, hdescribes, rfl, rfl⟩
    exact ⟨hname, hdescribes⟩
  · rintro ⟨hname, hdescribes⟩
    exact ⟨r, hname, endpoint, hdescribes, rfl, rfl⟩

theorem withTable_eq_some_iff {c : Configuration} {t : Resource × EndpointConfig} {r : Resource}
    {b : EndpointConfig} :
    withTable c t r = some b ↔ t = (r, b) ∨ r ≠ t.1 ∧ c r = some b := by
  obtain ⟨s, d⟩ := t
  unfold withTable
  by_cases h : r = s
  · subst h
    simp
  · simp [h, Ne.symm h]

theorem isSome_foldlM_withTable (es : Entries) (c : Configuration) :
    (es.foldlM (fun c e => (reads? e).map (withTable c)) c).isSome = true ↔
      ∀ e ∈ es, (reads? e).isSome = true := by
  induction es generalizing c with
  | nil => exact ⟨fun _ _ => nofun, fun _ => rfl⟩
  | cons e es ih =>
    rw [List.foldlM_cons, List.forall_mem_cons]
    cases reads? e with
    | none => simp
    | some t => simp [ih]

theorem isSome_configuration?_iff {es : Entries} :
    (configuration? es).isSome = true ↔ ∀ e ∈ es, (reads? e).isSome = true := by
  rw [configuration?_eq]
  exact isSome_foldlM_withTable es _

/-- **What is configured**: the content of each table, for the resource with its name. -/
theorem eq_some_iff_of_configuration? {es : Entries} (hes : Distinct es) {c : Configuration}
    (h : configuration? es = some c) (r : Resource) (b : EndpointConfig) :
    c r = some b ↔ ∃ e ∈ es, reads? e = some (r, b) := by
  rw [configuration?_eq] at h
  -- on the entries from the last one, since of two tables for a resource the later would count
  induction es using List.reverseRecOn generalizing c with
  | nil =>
    cases h
    simp
  | append_singleton es e ih =>
    obtain ⟨hfront, hother⟩ := Toml.distinct_concat_iff.1 hes
    rw [List.foldlM_append] at h
    obtain ⟨c₁, h₁, h⟩ := Option.bind_eq_some_iff.1 h
    obtain ⟨t, ht, rfl⟩ : ∃ t, reads? e = some t ∧ withTable c₁ t = c := by simpa using h
    rw [withTable_eq_some_iff, ih hfront h₁]
    constructor
    · rintro (rfl | ⟨-, e', he', hread⟩)
      · exact ⟨e, by simp, ht⟩
      · exact ⟨e', List.mem_append_left _ he', hread⟩
    · rintro ⟨e', he', hread⟩
      rcases List.mem_append.1 he' with he' | he'
      · refine .inr ⟨fun hr => hother e' he' ?_, e', he', hread⟩
        rw [(reads?_eq_some_iff.1 hread).1, (reads?_eq_some_iff.1 ht).1, hr]
      · rw [List.mem_singleton.1 he', ht] at hread
        exact .inl (Option.some.inj hread)

/-- **What is read from a document** is what it writes. -/
theorem configuration?_eq_some_iff {es : Entries} (hes : Distinct es) {c : Configuration} :
    configuration? es = some c ↔ Configures es c := by
  constructor
  · intro h
    have hread : ∀ e ∈ es, (reads? e).isSome = true := isSome_configuration?_iff.1 (by rw [h]; rfl)
    constructor
    · intro e he
      obtain ⟨⟨r, endpoint⟩, ht⟩ := Option.isSome_iff_exists.1 (hread e he)
      obtain ⟨hname, hdescribes⟩ := reads?_eq_some_iff.1 ht
      exact ⟨r, endpoint, hname, hdescribes,
        (eq_some_iff_of_configuration? hes h r endpoint).2 ⟨e, he, ht⟩⟩
    · intro r endpoint hr
      obtain ⟨e, he, ht⟩ := (eq_some_iff_of_configuration? hes h r endpoint).1 hr
      obtain ⟨hname, hdescribes⟩ := reads?_eq_some_iff.1 ht
      exact ⟨e.2, hname ▸ he, hdescribes⟩
  · intro h
    have hread : ∀ e ∈ es, (reads? e).isSome = true := by
      intro e he
      obtain ⟨r, endpoint, hname, hdescribes, -⟩ := h.content e he
      exact Option.isSome_iff_exists.2 ⟨(r, endpoint), reads?_eq_some_iff.2 ⟨hname, hdescribes⟩⟩
    obtain ⟨c', hc'⟩ := Option.isSome_iff_exists.1 (isSome_configuration?_iff.2 hread)
    rw [hc']
    refine congrArg some (funext fun r => Option.ext fun endpoint => ?_)
    rw [eq_some_iff_of_configuration? hes hc']
    constructor
    · rintro ⟨e, he, ht⟩
      obtain ⟨r', endpoint', hname, hdescribes, hc⟩ := h.content e he
      have ht' : reads? e = some (r', endpoint') := reads?_eq_some_iff.2 ⟨hname, hdescribes⟩
      cases ht.symm.trans ht'
      exact hc
    · intro hr
      obtain ⟨v, hv, hdescribes⟩ := h.exact r endpoint hr
      exact ⟨(r.name, v), hv, reads?_eq_some_iff.2 ⟨rfl, hdescribes⟩⟩

theorem Configures.perm {es es' : Entries} {c : Configuration} (h : Configures es c)
    (hperm : es.Perm es') : Configures es' c where
  content e he := h.content e (hperm.mem_iff.2 he)
  exact r endpoint hr := by
    obtain ⟨v, hv, hdescribes⟩ := h.exact r endpoint hr
    exact ⟨v, hperm.mem_iff.1 hv, hdescribes⟩

/-- **The order of the tables does not matter.** -/
theorem configuration?_perm {es es' : Entries} (hes : Distinct es) (hperm : es.Perm es') :
    configuration? es = configuration? es' := by
  have hes' : Distinct es' := (hperm.map _).nodup_iff.1 hes
  refine Option.ext fun c => ?_
  rw [configuration?_eq_some_iff hes, configuration?_eq_some_iff hes']
  exact ⟨fun h => h.perm hperm, fun h => h.perm hperm.symm⟩

end Registry

end QueryFilter
