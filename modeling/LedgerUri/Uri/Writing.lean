import LedgerUri.Base64.UrlSafe
import LedgerUri.Resource.Id
import LedgerUri.Uri.Entry
import LedgerUri.Uri.Request
import LedgerUri.Uri.Vocabulary

/-!
# Writing URIs

A URI is written from an id and a request. The order is fixed: boxes, global keys, each local key
directly followed by its address, and the bare request for program code last; token fields in
canonical order. A request for nothing has no query.

* `buildApplication`, `buildToken` — the URI, or what is wrong with the id or the first bad key.
-/

namespace LedgerUri.Uri

/-- The URI of a resource without a query. -/
def base (kind : ResourceKind) (id : ResourceId) : String :=
  pathStart ++ kind.segment ++ "/" ++ id.text

/-- The entry that asks for a key. -/
def keyEntry (param : KeyParam) (key : String) : Entry :=
  ⟨param.name, some key⟩

/-- The two entries that ask for a key of local state. -/
def localEntries (l : LocalRequest) : List Entry :=
  [keyEntry .localKey l.key, ⟨addressParam, some l.address.text⟩]

/-- The entries of an application request, in the order in which they are written. -/
def applicationEntries (r : ApplicationRequest) : List Entry :=
  r.boxKeys.map (keyEntry .boxKey) ++ r.globalKeys.map (keyEntry .globalKey) ++
    r.localReads.flatMap localEntries ++ (if r.programs then [⟨programParam, none⟩] else [])

/-- The entries of a token request, in canonical order. -/
def tokenEntries (fields : TokenFieldSet) : List Entry :=
  fields.toList.map fun f => ⟨f.key, none⟩

/-- A URI with the given entries. -/
def write (kind : ResourceKind) (id : ResourceId) (entries : List Entry) : String :=
  base kind id ++ String.ofList (writeQuery entries)

/-- Checks that a key is base64url text. A failure is reported on the URI being written, which
has no query yet. -/
def checkKey (uri : String) (param : KeyParam) (key : String) : Except UriError Unit :=
  (Base64.UrlSafe.check key).mapError fun error => ⟨uri, .badKey param error⟩

/-- Checks every key, from left to right. -/
def checkKeys (uri : String) (param : KeyParam) : List String → Except UriError Unit
  | [] => .ok ()
  | key :: keys => do
    checkKey uri param key
    checkKeys uri param keys

/-- The URI of an application request. The id is converted before any key is looked at. -/
def buildApplication (source : IdSource) (r : ApplicationRequest) : Except UriError String := do
  let id ← source.resolve
  let uri := base .application id
  checkKeys uri .boxKey r.boxKeys
  checkKeys uri .globalKey r.globalKeys
  checkKeys uri .localKey (r.localReads.map LocalRequest.key)
  return write .application id (applicationEntries r)

/-- The URI of a token request. -/
def buildToken (source : IdSource) (fields : TokenFieldSet) : Except UriError String := do
  let id ← source.resolve
  return write .token id (tokenEntries fields)

end LedgerUri.Uri
