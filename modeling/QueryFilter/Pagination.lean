import QueryFilter.Event
import QueryFilter.RawQuery

/-!
# Pagination

Two keys of every query select a page: `page`, counted from one, and `limit`, the page size. They
never make a query fail: a value that is no positive number of 32 bits gives way to its default.

* `Pagination`, with `skip` and `take`, the rows before the page and on it;
* `PageLimits`: the default page size and the greatest one;
* **`PageLimits.extract`**: the page that a query asks for, with a report for each value that
  could not be used.
-/

namespace QueryFilter

/-- The key of the page number. -/
def pageKey : String := "page"

/-- The key of the page size. -/
def limitKey : String := "limit"

/-- The keys that select a page. -/
def paginationKeys : List String := [pageKey, limitKey]

/-- The page of a query that names none. -/
def defaultPage : UInt32 := 1

/-- The page size where neither the query nor the endpoint sets one. -/
def defaultLimit : UInt32 := 10

/-! ## Pages -/

/-- A page of a listing: its number, counted from one, and its size. -/
structure Pagination where
  page : UInt32
  limit : UInt32
  deriving DecidableEq

namespace Pagination

/-- The page of a number and a size, each raised to one if it is zero. -/
def ofNumbers (page limit : UInt32) : Pagination :=
  ⟨if page = 0 then 1 else page, if limit = 0 then 1 else limit⟩

/-- The number of rows before the page. -/
def skip (p : Pagination) : UInt64 :=
  (if p.page = 0 then 0 else p.page.toUInt64 - 1) * p.limit.toUInt64

/-- The number of rows on the page. -/
def take (p : Pagination) : UInt32 :=
  p.limit

end Pagination

/-! ## Limits -/

/-- The page sizes of an endpoint: the default and, if there is one, the greatest. -/
structure PageLimits where
  default : UInt32 := defaultLimit
  max : Option UInt32 := none
  deriving DecidableEq

namespace PageLimits

/-- Lowers a page size to the greatest one. -/
def clamp (limits : PageLimits) (limit : UInt32) : UInt32 :=
  match limits.max with
  | some max => if max < limit then max else limit
  | none => limit

/-- A numeral of a positive number. -/
def positive? (s : String) : Option UInt32 :=
  (Numeral.uint32? s).filter (0 < ·)

/-- The positive number at a key. A value that is none is reported, and the default is taken. -/
def positiveOr (raw : RawQuery) (key : String) (default : UInt32) : Traced UInt32 :=
  match raw.get? key with
  | none => pure default
  | some value =>
    match positive? value with
    | some n => pure n
    | none => do
      Traced.emit (.paginationDefaulted key value default)
      return default

/-- **The page that a query asks for.** -/
def extract (limits : PageLimits) (raw : RawQuery) : Traced Pagination := do
  let page ← positiveOr raw pageKey defaultPage
  let limit ← positiveOr raw limitKey limits.default
  return .ofNumbers page (limits.clamp limit)

end PageLimits

end QueryFilter
