import LedgerUri.Uri.Query

/-!
# The strict grammar

Where reading is lenient, the grammar fixes the shape: the resource is the path right after the
scheme, every entry belongs to the resource, keys carry no padding, and local keys and addresses
alternate. The first violation from the left is reported.

* `Grammar.check` — accepts a URI, or says what violates the grammar.
-/

namespace LedgerUri.Grammar

open Uri

/-- The kind of resource that a path segment names. -/
def kindOfSegment? (segment : String) : Option ResourceKind :=
  ResourceKind.all.find? fun kind => kind.segment = segment

/-- Checks the path: a segment, a slash and an id. -/
def checkPath (path : List Char) : Except UriError.Cause ResourceKind :=
  match Text.cutFirst? '/' path with
  | none => .error .badPath
  | some (segment, id) =>
    match kindOfSegment? (String.ofList segment) with
    | none => .error .badPath
    | some kind =>
      match ResourceId.parse (String.ofList id) with
      | .ok _ => .ok kind
      | .error error => .error (.badId error)

/-- The key parameter with a given name. -/
def keyParam? (name : String) : Option KeyParam :=
  [KeyParam.boxKey, .globalKey, .localKey].find? fun param => param.name = name

/-- Whether an entry is there and holds an address. -/
def isAddressEntry (e : Option Entry) : Bool :=
  e.any fun e => e.name = addressParam

/-- Whether an entry is there and holds a local key. -/
def isLocalEntry (e : Option Entry) : Bool :=
  e.any fun e => e.name = KeyParam.localKey.name

/-- Checks one entry of an application between its neighbours. Counts in an error are those of
the whole query. -/
def checkEntry (all : List Entry) (previous : Option Entry) (e : Entry) (next : Option Entry) :
    Except UriError.Cause Unit :=
  let locals := countOf KeyParam.localKey.name all
  match keyParam? e.name with
  | some param =>
    match Base64.UrlSafe.check e.valueText with
    | .error error => .error (.badKey param error)
    | .ok () =>
      if param = .localKey ∧ !isAddressEntry next then .error (.noAddress locals) else .ok ()
  | none =>
    if e.name = addressParam then
      if isLocalEntry previous then
        match Address.parse e.valueText with
        | .ok _ => .ok ()
        | .error error => .error (.badAddress error)
      else .error (.unpaired locals (countOf addressParam all))
    else if e.name = programParam then
      if e.value.isSome then .error (.unwantedValue e.name) else .ok ()
    else .error (.foreignParam e.name)

/-- Checks the entries of an application from left to right. -/
def checkApplicationFrom (all : List Entry) (previous : Option Entry) :
    List Entry → Except UriError.Cause Unit
  | [] => .ok ()
  | e :: rest => do
    checkEntry all previous e rest.head?
    checkApplicationFrom all (some e) rest

/-- Checks the entries of an application. -/
def checkApplication (entries : List Entry) : Except UriError.Cause Unit :=
  checkApplicationFrom entries none entries

/-- Checks the entries of a token: bare keys of its fields. -/
def checkToken : List Entry → Except UriError.Cause Unit
  | [] => .ok ()
  | e :: rest =>
    if (TokenField.ofKey? e.name).isNone then .error (.foreignParam e.name)
    else if e.value.isSome then .error (.unwantedValue e.name)
    else checkToken rest

/-- Checks the entries of a resource. -/
def checkEntries (kind : ResourceKind) (entries : List Entry) : Except UriError.Cause Unit :=
  match kind with
  | .application => checkApplication entries
  | .token => checkToken entries

/-- Checks a URI: scheme, path, escapes, entries. -/
def checkUri (uri : List Char) : Except UriError.Cause Unit :=
  if uri.isEmpty then .error .empty
  else
    match Text.after? pathStart.toList uri with
    | none => .error (.foreignScheme (foundScheme? uri))
    | some rest => do
      let (path, query) := (Text.cutFirst? '?' rest).getD (rest, [])
      let kind ← checkPath path
      let entries ← readEntries query
      checkEntries kind entries

/-- Accepts a URI of the strict grammar, or reports its first violation. -/
def check (text : String) : Except UriError Unit :=
  (checkUri text.toList).mapError fun cause => ⟨text, cause⟩

end LedgerUri.Grammar
