import QueryFilter.Json.Encode
import QueryFilter.Registry.Portal
import QueryFilter.Sql.Statement
import QueryFilter.Proofs.Filter
import QueryFilter.Proofs.ByteOrder
import QueryFilter.Proofs.FieldSpec
import QueryFilter.Proofs.Compile
import QueryFilter.Proofs.Coerce
import QueryFilter.Proofs.Registry
import QueryFilter.Proofs.Whitelist
import QueryFilter.Proofs.Acceptance
import QueryFilter.Proofs.Conservation
import QueryFilter.Proofs.Spelling
import QueryFilter.Proofs.Parse
import QueryFilter.Proofs.Statement
import QueryFilter.Proofs.BoundValues
import QueryFilter.Proofs.DecodedSize
import QueryFilter.Proofs.Route
import QueryFilter.Proofs.Reading
import QueryFilter.Proofs.ParameterOrder
import QueryFilter.Proofs.Insertion
import QueryFilter.Proofs.Unescape
import QueryFilter.Proofs.Building
import QueryFilter.Proofs.Selection
import QueryFilter.Proofs.Tables
import QueryFilter.Proofs.Loading
import QueryFilter.Proofs.JsonForm
import QueryFilter.Proofs.Pagination
import QueryFilter.Proofs.Placeholders
import QueryFilter.Proofs.Nearest
import QueryFilter.Proofs.PageNumbers
import QueryFilter.Proofs.Numbers
import QueryFilter.Proofs.Display
import QueryFilter.Proofs.Addressing
import QueryFilter.Proofs.CallOrder
import QueryFilter.Proofs.Report
