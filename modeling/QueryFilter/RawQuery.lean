import QueryFilter.KeyMap
import QueryFilter.Percent
import QueryFilter.Text.Cut

/-!
# Raw queries

The decoded parameters of a request: one value for each key, in key order.

* `RawQuery`, a map from keys to values;
* `RawQuery.segments`: the pieces of a query string;
* **`RawQuery.parse`**: reads a percent-encoded query string.
-/

namespace QueryFilter

/-- The parameters of a request: one value for each key. -/
abbrev RawQuery : Type := KeyMap String

namespace RawQuery

open Percent

/-- The segments of a query string: one leading question mark is dropped, and ampersands separate
the segments. -/
def segments (query : String) : List (List Char) :=
  let unmarked := match query.toList with
    | '?' :: rest => rest
    | cs => cs
  unmarked.splitOn '&'

/-- Adds the parameter of a segment: its key stands before the first equals sign and its value
behind it. A segment whose key decodes to nothing is skipped, and its value is not decoded. -/
def addSegment (raw : RawQuery) (segment : List Char) : Except DecodeError RawQuery := do
  let key ← decodeComponent (Text.before '=' segment)
  if key.isEmpty then return raw
  let value ← decodeComponent (Text.after '=' segment)
  return raw.insert key value

/-- **Reads a query string**: the segments in order, so that of a repeated key the last value
counts. -/
def parse (query : String) : Except DecodeError RawQuery :=
  (segments query).foldlM addSegment KeyMap.empty

end RawQuery

end QueryFilter
