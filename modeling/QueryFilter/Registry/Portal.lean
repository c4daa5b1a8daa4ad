import QueryFilter.Registry.Configuration

/-!
# The portal

* `Registry.portalText`: the configuration of the portal's listings;
* `Registry.portal`: its registry.
-/

namespace QueryFilter.Registry

/-- The configuration of the portal's listings. -/
def portalText : String :=
"[users]
equality_only = [\"role\", \"status\", \"email\"]
any_operator = [\"name\", \"joined_at\"]
reserved = [\"sort\"]
max_limit = 100

[posts]
equality_only = [\"author_id\", \"status\", \"category\"]
any_operator = [\"title\", \"content\", \"created_at\", \"updated_at\"]
reserved = [\"sort\"]
max_limit = 100

[events]
equality_only = [\"organizer_id\", \"status\"]
any_operator = [\"title\", \"location\", \"start_date\", \"end_date\", \"capacity\"]
reserved = [\"sort\"]
max_limit = 100

[libraries]
equality_only = [\"owner_id\", \"category\", \"visibility\"]
any_operator = [\"title\", \"description\", \"created_at\"]
reserved = [\"sort\"]
max_limit = 100

[attachments]
equality_only = [\"library_id\", \"post_id\", \"mime_type\"]
any_operator = [\"file_name\", \"file_size\", \"uploaded_at\"]
max_limit = 100

[notifications]
equality_only = [\"user_id\", \"is_read\", \"kind\"]
any_operator = [\"created_at\"]
default_limit = 20
max_limit = 50
"

/-- The registry of the portal, read anew. -/
def portal : Traced (Except RegistryError Registry) :=
  ofToml portalText

end QueryFilter.Registry
