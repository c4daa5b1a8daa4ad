import QueryFilter.Proofs.Compile
import QueryFilter.Proofs.Pagination

/-!
# The report of a compilation

What a compilation reports is the truth about its outcome. A rejection is reported once and with all
its keys; an acceptance by one event with what was accepted, behind one for each value that could not
be used as a page number or a page size.

* `Event.entry`: an event as a log shows it;
* `PageLimits.Reported`: what is reported about the number at a key, with
  `PageLimits.reported_positiveOr` and `PageLimits.Reported.eq_entries`, that this is what happens;
* `FieldSpec.events_of_error`, `FieldSpec.events_of_ok`: the events of each outcome;
* **`FieldSpec.compile_reported`**: the log of a compilation.
-/

namespace QueryFilter

/-- An event as a log shows it: its level, its wording and its named contents. -/
structure Entry where
  level : String
  message : String
  fields : List (String × FieldValue)
  deriving DecidableEq

/-- The entry of an event. -/
def Event.entry (e : Event) : Entry :=
  ⟨e.level.name, e.message, e.fields⟩

/-! ## The number at a key -/

namespace PageLimits

variable {raw : RawQuery} {key : String} {default : UInt32} {entries : List Entry}

/-- **What is reported about the number at a key**: nothing if no value stands there or if it writes
a number, and otherwise the value, with the default that takes its place. -/
inductive Reported (raw : RawQuery) (key : String) (default : Nat) : List Entry → Prop
  | absent (h : raw.get? key = none) : Reported raw key default []
  | written {value : String} {n : Nat} (hv : raw.get? key = some value)
    (hn : WritesPositive value n) : Reported raw key default []
  | replaced {value : String} (hv : raw.get? key = some value)
    (hn : ∀ n, ¬ WritesPositive value n) :
    Reported raw key default [⟨"DEBUG", "invalid pagination value, using default",
      [("key", .text key), ("value", .text value), ("default", .number default)]⟩]

theorem reported_positiveOr (raw : RawQuery) (key : String) (default : UInt32) :
    Reported raw key default.toNat ((positiveOr raw key default).events.map Event.entry) := by
  unfold positiveOr
  split
  · next hv => exact .absent hv
  · next value hv =>
    split
    · next w hw => exact .written hv (positive?_eq_some_iff.1 hw)
    · next hnone => exact .replaced hv (positive?_eq_none_iff.1 hnone)

/-- There is exactly one report about the number at a key. -/
theorem Reported.eq_entries (h : Reported raw key default.toNat entries) :
    entries = (positiveOr raw key default).events.map Event.entry := by
  unfold positiveOr
  cases h with
  | absent h =>
    rw [h]
    rfl
  | written hv hn =>
    obtain ⟨w, -, hw⟩ := hn.exists_word
    rw [hv]
    simp only [hw]
    rfl
  | replaced hv hn =>
    rw [hv]
    simp only [positive?_eq_none_iff.2 hn]
    rfl

/-- The page number is reported before the page size. -/
theorem events_extract (limits : PageLimits) (raw : RawQuery) : (limits.extract raw).events =
    (positiveOr raw "page" 1).events ++ (positiveOr raw "limit" limits.default).events := by
  rw [extract, Traced.events_bind, Traced.events_bind, Traced.events_pure, List.append_nil]
  rfl

end PageLimits

namespace FieldSpec

open PageLimits (Reported)

variable {spec : FieldSpec} {raw : RawQuery}

/-! ## Outcomes -/

/-- **A rejection** is the only event of its compilation. -/
theorem events_of_error {e : QueryError} (h : spec.compile raw = .error e) :
    (spec.compileTraced raw).events = [.filterRejected e.errors.length e.message] := by
  unfold compile at h
  unfold compileTraced at h ⊢
  split at h
  · cases h
    rfl
  · cases h

/-- **An acceptance** is reported behind what is reported about its page. -/
theorem events_of_ok {q : CompiledQuery} (h : spec.compile raw = .ok q) :
    (spec.compileTraced raw).events = (spec.limits.extract raw).events ++
      [.filterCompiled q.filter.size q.pagination.page q.pagination.limit] := by
  unfold compile at h
  unfold compileTraced at h ⊢
  split at h
  · cases h
  · cases h
    rfl

/-- **What a log shows of a compilation.** A rejected query leaves one entry, with the number of its
key errors and its wording, which is made of all its keys. An accepted one leaves what is reported
about its page number and then about its page size, whose default is the configured one, and behind
it one entry with the number of its predicates and with the page that it is given, whose size is
already lowered to the greatest one. -/
theorem compile_reported {b : Builder} {spec : FieldSpec} (hb : b.build = .ok spec)
    (raw : RawQuery) :
    (∀ e, spec.compile raw = .error e → (spec.compileTraced raw).events.map Event.entry =
      [⟨"DEBUG", "rejected query filter", [("errors", .number e.errors.length),
        ("err", .text ("invalid query parameters: " ++
          ", ".intercalate (e.errors.map (·.key))))]⟩]) ∧
    ∀ q, spec.compile raw = .ok q → ∃ page limit,
      Reported raw "page" 1 page ∧
      Reported raw "limit" (b.defaultLimit.getD 10).toNat limit ∧
      (spec.compileTraced raw).events.map Event.entry = page ++ limit ++
        [⟨"DEBUG", "compiled query filter", [("predicates", .number q.filter.size),
          ("page", .number q.pagination.page.toNat),
          ("limit", .number q.pagination.limit.toNat)]⟩] ∧
      q.pagination.Answers spec.limits raw := by
  obtain ⟨hdefault, -, -⟩ := Builder.limits_of_build hb
  refine ⟨fun e he => ?_, fun q hq => ?_⟩
  · rw [events_of_error he]
    rfl
  · rw [← hdefault]
    refine ⟨_, _, PageLimits.reported_positiveOr raw "page" 1,
      PageLimits.reported_positiveOr raw "limit" spec.limits.default, ?_, ?_⟩
    · rw [events_of_ok hq, PageLimits.events_extract, List.map_append, List.map_append]
      rfl
    · rw [pagination_eq hq]
      exact Pagination.answers_extract spec.limits raw

/-- A query that is rejected for two of its keys, with a page number that is none, and one that is
accepted with a page number and a page size that are none. -/
theorem compile_reported_replaced :
    let b : Builder := { anyOperator := ["age"], defaultLimit := some 20, maxLimit := some 50 }
    let spec := b.rules ⟨20, some 50⟩
    let faulty : RawQuery := .ofList [("role_gt", "1"), ("page", "x"), ("name", "ann")]
    let right : RawQuery := .ofList [("age_gt", "18"), ("page", "0"), ("limit", "99999999999")]
    b.build = .ok spec ∧
    (∃ e, spec.compile faulty = .error e ∧
      (spec.compileTraced faulty).events.map Event.entry =
        [⟨"DEBUG", "rejected query filter", [("errors", .number 2),
          ("err", .text "invalid query parameters: name, role_gt")]⟩]) ∧
    ∃ q, spec.compile right = .ok q ∧ (spec.compileTraced right).events.map Event.entry =
      [⟨"DEBUG", "invalid pagination value, using default",
        [("key", .text "page"), ("value", .text "0"), ("default", .number 1)]⟩,
      ⟨"DEBUG", "invalid pagination value, using default",
        [("key", .text "limit"), ("value", .text "99999999999"), ("default", .number 20)]⟩,
      ⟨"DEBUG", "compiled query filter",
        [("predicates", .number 1), ("page", .number 1), ("limit", .number 20)]⟩] := by
  intro b spec faulty right
  have hb : b.build = .ok spec := by decide +kernel
  have he : spec.compile faulty = .error
      ⟨[⟨"name", .unknownAttribute "name"⟩, ⟨"role_gt", .unknownAttribute "role"⟩],
        List.cons_ne_nil _ _⟩ := by decide +kernel
  have hq : spec.compile right =
      .ok ⟨.ofPredicates [⟨"age", .gt, .int 18⟩], ⟨1, 20⟩, .empty⟩ := by decide +kernel
  have hfaulty := (compile_reported hb faulty).1 _ he
  obtain ⟨page, limit, hpage, hlimit, hright, -⟩ := (compile_reported hb right).2 _ hq
  have hpage_eq : page = (PageLimits.positiveOr right "page" 1).events.map Event.entry :=
    hpage.eq_entries
  have hlimit_eq : limit = (PageLimits.positiveOr right "limit" 20).events.map Event.entry :=
    hlimit.eq_entries
  subst hpage_eq hlimit_eq
  exact ⟨hb, ⟨_, he, hfaulty.trans (by decide +kernel)⟩, _, hq, hright.trans (by decide +kernel)⟩

end FieldSpec

end QueryFilter
