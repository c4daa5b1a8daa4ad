/-!
# Resources

* `Resource`: the listings of the portal;
* `Resource.all`, `Resource.name`, `Resource.ofName?`;
* functions on resources have decidable equality.
-/

namespace QueryFilter

/-- A listing of the portal. -/
inductive Resource where
  /-- Members. -/
  | users
  /-- News posts. -/
  | posts
  /-- Events that members can attend. -/
  | events
  /-- Items of the document library. -/
  | libraries
  /-- Files attached to posts and library items. -/
  | attachments
  /-- Notifications inside the portal. -/
  | notifications
  deriving DecidableEq

namespace Resource

/-- Every resource. -/
def all : List Resource := [users, posts, events, libraries, attachments, notifications]

/-- The configuration name of a resource. -/
def name : Resource → String
  | users => "users"
  | posts => "posts"
  | events => "events"
  | libraries => "libraries"
  | attachments => "attachments"
  | notifications => "notifications"

/-- The resource of a name. -/
def ofName? (name : String) : Option Resource :=
  all.find? (·.name = name)

theorem mem_all (r : Resource) : r ∈ all := by
  cases r <;> decide

instance {α : Type} [DecidableEq α] : DecidableEq (Resource → α) := fun f g =>
  decidable_of_iff (∀ r ∈ all, f r = g r)
    ⟨fun h => funext fun r => h r r.mem_all, fun h _ _ => congrFun h _⟩

theorem ofName?_eq_some_iff {name : String} {r : Resource} :
    ofName? name = some r ↔ name = r.name := by
  constructor
  · intro h
    simpa [eq_comm] using List.find?_some h
  · rintro rfl
    cases r <;> decide

end Resource

end QueryFilter
