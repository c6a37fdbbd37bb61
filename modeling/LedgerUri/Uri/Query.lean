import LedgerUri.Uri.Writing

/-!
# Reading URIs

Reading is lenient: the resource marker may stand anywhere after the scheme, unknown parameters are
ignored, and keys may carry padding. What is read is a `Query`, which also keeps the text.

* `Pairing` — how local keys find their addresses;
* `Query.parse` — the query of a URI, or the first thing that is wrong with it;
* `Query.canonical` — the URI that says the same in the one way in which URIs are written.
-/

namespace LedgerUri

/-- How local keys are paired with addresses. -/
inductive Pairing
  /-- every key is read from the first address of the URI -/
  | firstAddress
  /-- every key is directly followed by its own address -/
  | strict
deriving DecidableEq

/-- A URI that has been read. -/
structure Query where
  /-- the resource -/
  id : ResourceId
  /-- what is asked of it -/
  request : Request
  /-- the URI as it was given -/
  text : String
deriving DecidableEq

namespace Uri

/-- The scheme that a text names instead, if it has a colon. -/
def foundScheme? (uri : List Char) : Option String :=
  (Text.cutFirst? ':' uri).map fun (found, _) => String.ofList found

/-- The resource of a URI and the text right after its marker. The application marker is looked
for in the whole text before the token marker. -/
def resource? (uri : List Char) : Option (ResourceKind × List Char) :=
  ResourceKind.all.findSome? fun kind =>
    (Text.afterFirst? kind.marker.toList uri).map fun rest => (kind, rest)

/-- Reads the run of digits at the start of a text as an id. -/
def leadingId (rest : List Char) : Except UriError.Cause ResourceId :=
  (ResourceId.parse (String.ofList (rest.takeWhile Char.isDigit))).mapError .badId

/-- The key of a value: the value without padding, when that is base64url text. -/
def readKey (param : KeyParam) (value : String) : Except UriError.Cause String :=
  let key := String.ofList (Text.trimEnd '=' value.toList)
  match Base64.UrlSafe.check key with
  | .ok () => .ok key
  | .error error => .error (.badKey param error)

/-- The keys of a parameter, in order. -/
def readKeys (param : KeyParam) (entries : List Entry) : Except UriError.Cause (List String) :=
  (valuesOf param.name entries).mapM (readKey param)

/-- Reads the address of a value. -/
def readAddress (value : String) : Except UriError.Cause Address :=
  (Address.parse value).mapError .badAddress

/-- Every address of a query, in order. -/
def readAddresses (entries : List Entry) : Except UriError.Cause (List Address) :=
  (valuesOf addressParam entries).mapM readAddress

/-- The address right after each local entry, up to the first one that has none. -/
def addressesAfterLocals : List Entry → Except UriError.Cause (List Address)
  | [] => .ok []
  | e :: rest =>
    if e.name = KeyParam.localKey.name then
      match rest with
      | [] => .ok []
      | next :: _ =>
        if next.name = addressParam then do
          let address ← readAddress next.valueText
          let addresses ← addressesAfterLocals rest
          return address :: addresses
        else .ok []
    else addressesAfterLocals rest

/-- Gives every local key its address. -/
def pairLocals (pairing : Pairing) (entries : List Entry) (keys : List String)
    (addresses : List Address) : Except UriError.Cause (List LocalRequest) :=
  match keys, addresses with
  | [], _ => .ok []
  | _ :: _, [] => .error (.noAddress keys.length)
  | _ :: _, first :: _ =>
    match pairing with
    | .firstAddress => .ok (keys.map fun key => ⟨key, first⟩)
    | .strict =>
      let unpaired := UriError.Cause.unpaired keys.length addresses.length
      if addresses.length = keys.length then do
        let paired ← addressesAfterLocals entries
        if paired.length = keys.length then return keys.zipWith LocalRequest.mk paired
        else .error unpaired
      else .error unpaired

/-- What the entries ask of an application. -/
def readApplication (pairing : Pairing) (entries : List Entry) :
    Except UriError.Cause ApplicationRequest := do
  let boxKeys ← readKeys .boxKey entries
  let globalKeys ← readKeys .globalKey entries
  let localKeys ← readKeys .localKey entries
  let addresses ← readAddresses entries
  let localReads ← pairLocals pairing entries localKeys addresses
  return ⟨boxKeys, globalKeys, localReads, mentions programParam entries⟩

/-- What the entries ask of a token: the fields whose keys occur, with or without a value. -/
def readToken (entries : List Entry) : TokenFieldSet :=
  TokenFieldSet.ofList (TokenField.all.filter fun f => mentions f.key entries)

/-- What the entries ask of a resource. -/
def readRequest (kind : ResourceKind) (pairing : Pairing) (entries : List Entry) :
    Except UriError.Cause Request :=
  match kind with
  | .application => (readApplication pairing entries).map .application
  | .token => .ok (.token (readToken entries))

/-- Reads a URI: its resource first, then its query. -/
def read (pairing : Pairing) (uri : List Char) :
    Except UriError.Cause (ResourceId × Request) :=
  if uri.isEmpty then .error .empty
  else if (Text.after? schemeStart.toList uri).isNone then
    .error (.foreignScheme (foundScheme? uri))
  else
    match resource? uri with
    | none => .error .noResource
    | some (kind, rest) => do
      let id ← leadingId rest
      let entries ← readEntries (queryPart uri)
      let request ← readRequest kind pairing entries
      return (id, request)

end Uri

namespace Query

/-- Reads a URI. -/
def parse (pairing : Pairing) (text : String) : Except UriError Query :=
  match Uri.read pairing text.toList with
  | .ok (id, request) => .ok ⟨id, request, text⟩
  | .error cause => .error ⟨text, cause⟩

/-- The kind of the resource. -/
def kind (q : Query) : ResourceKind := q.request.kind

/-- Writes the query anew. -/
def build (q : Query) : Except UriError String :=
  match q.request with
  | .application r => Uri.buildApplication (.id q.id) r
  | .token fields => Uri.buildToken (.id q.id) fields

/-- The URI in the one form in which URIs are written. A query that cannot be written keeps its
text; one that was read always can. -/
def canonical (q : Query) : String :=
  match q.build with
  | .ok uri => uri
  | .error _ => q.text

/-- Whether a text can be read as a URI. -/
def isValid (text : String) : Bool :=
  (parse .firstAddress text).isOk

/-- The id in a URI, if it can be read. -/
def idOf? (text : String) : Option ResourceId :=
  (parse .firstAddress text).toOption.map Query.id

/-- The kind of resource in a URI, if it can be read. -/
def kindOf? (text : String) : Option ResourceKind :=
  (parse .firstAddress text).toOption.map Query.kind

end Query

end LedgerUri
