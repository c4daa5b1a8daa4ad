/-!
# Log events

What the library reports about its work. A computation that reports carries its events beside its
value, so that a report is part of what can be said about the computation.

* `Event`: the five events, with `Event.level`, `Event.message` and `Event.fields`;
* `Traced`: a value and the events on the way to it, in order;
* `Traced.emit`: reports one event.
-/

namespace QueryFilter

/-- How important an event is. -/
inductive Level where
  | info
  | debug
  | trace
  deriving DecidableEq

/-- The name of a level. -/
def Level.name : Level → String
  | info => "INFO"
  | debug => "DEBUG"
  | trace => "TRACE"

/-- The content of a field of an event. -/
inductive FieldValue where
  | number (n : Nat)
  | text (s : String)
  deriving DecidableEq

/-- Something worth reporting. -/
inductive Event where
  /-- A configuration for so many resources was read. -/
  | configurationLoaded (resources : Nat)
  /-- A page number or page size could not be used, and the default took its place. -/
  | paginationDefaulted (key value : String) (default : UInt32)
  /-- A query was accepted. -/
  | filterCompiled (predicates : Nat) (page limit : UInt32)
  /-- A query was rejected for so many keys. -/
  | filterRejected (errors : Nat) (message : String)
  /-- A page of a listing was rendered. -/
  | selectRendered (dialect table : String) (params : Nat)
  deriving DecidableEq

namespace Event

/-- The level of an event. -/
def level : Event → Level
  | configurationLoaded .. => .info
  | selectRendered .. => .trace
  | paginationDefaulted .. | filterCompiled .. | filterRejected .. => .debug

/-- The wording of an event. -/
def message : Event → String
  | configurationLoaded .. => "loaded filter configuration"
  | paginationDefaulted .. => "invalid pagination value, using default"
  | filterCompiled .. => "compiled query filter"
  | filterRejected .. => "rejected query filter"
  | selectRendered .. => "rendered select"

/-- The named contents of an event. -/
def fields : Event → List (String × FieldValue)
  | configurationLoaded resources => [("resources", .number resources)]
  | paginationDefaulted key value default =>
    [("key", .text key), ("value", .text value), ("default", .number default.toNat)]
  | filterCompiled predicates page limit =>
    [("predicates", .number predicates), ("page", .number page.toNat),
      ("limit", .number limit.toNat)]
  | filterRejected errors message => [("errors", .number errors), ("err", .text message)]
  | selectRendered dialect table params =>
    [("dialect", .text dialect), ("table", .text table), ("params", .number params)]

end Event

/-- A value, and the events reported on the way to it. -/
structure Traced (α : Type) where
  value : α
  events : List Event

namespace Traced

variable {α β : Type}

instance : Monad Traced where
  pure a := ⟨a, []⟩
  bind x f := ⟨(f x.value).value, x.events ++ (f x.value).events⟩

/-- Reports an event. -/
def emit (e : Event) : Traced Unit :=
  ⟨(), [e]⟩

@[simp] theorem value_pure (a : α) : (pure a : Traced α).value = a := rfl

@[simp] theorem events_pure (a : α) : (pure a : Traced α).events = [] := rfl

@[simp] theorem value_bind (x : Traced α) (f : α → Traced β) :
    (x >>= f).value = (f x.value).value := rfl

@[simp] theorem events_bind (x : Traced α) (f : α → Traced β) :
    (x >>= f).events = x.events ++ (f x.value).events := rfl

@[simp] theorem events_emit (e : Event) : (emit e).events = [e] := rfl

end Traced

end QueryFilter
