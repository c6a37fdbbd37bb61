import LedgerUri.Json.Value
import LedgerUri.Uri.Query

/-!
# URIs and requests as JSON

A query and an address are exchanged as their text, so reading them back goes through the same
checks as any text. Ids are numbers, kinds and fields are words, requests are records.
-/

namespace LedgerUri

/-- Why a JSON value that should hold checked text is refused. -/
inductive TextMismatch
  /-- the value is no string -/
  | notText
  /-- the string fails the check, with its wording -/
  | rejected (message : String)
deriving DecidableEq

namespace Address

/-- An address as a string. -/
def toJson (a : Address) : Json := .str a.text

/-- Reads a string as an address and says what is wrong with it. -/
def fromJson (j : Json) : Except TextMismatch Address :=
  match j.str? with
  | none => .error .notText
  | some text => (Address.parse text).mapError fun error => .rejected error.message

/-- Reads an address. -/
def ofJson? (j : Json) : Option Address :=
  (fromJson j).toOption

end Address

namespace Query

/-- A query as the URI that it was read from. -/
def toJson (q : Query) : Json := .str q.text

/-- Reads a string as a URI and says what is wrong with it. -/
def fromJson (j : Json) : Except TextMismatch Query :=
  match j.str? with
  | none => .error .notText
  | some text => (parse .firstAddress text).mapError fun error => .rejected error.message

end Query

namespace ResourceKind

/-- A kind as its word. -/
def toJson (kind : ResourceKind) : Json := .str kind.name

/-- Reads a kind. -/
def ofJson? (j : Json) : Option ResourceKind := do
  let word ← j.word?
  all.find? fun kind => kind.name = word

end ResourceKind

namespace ResourceId

/-- An id as a number. -/
def toJson (id : ResourceId) : Json := .nat id.toNat

/-- Reads an id. -/
def ofJson? (j : Json) : Option ResourceId :=
  j.uint64?.map ResourceId.mk

end ResourceId

namespace TokenField

/-- A field as its name. -/
def toJson (f : TokenField) : Json := .str f.name

/-- Reads a field. -/
def ofJson? (j : Json) : Option TokenField := do
  let word ← j.word?
  all.find? fun f => f.name = word

end TokenField

namespace TokenFieldSet

/-- A set as the list of its members in canonical order. -/
def toJson (s : TokenFieldSet) : Json :=
  .arr (s.toList.map TokenField.toJson)

/-- Reads a list of fields, in any order and with repetitions. -/
def ofJson? (j : Json) : Option TokenFieldSet :=
  (j.list? TokenField.ofJson?).map ofList

end TokenFieldSet

namespace LocalRequest

/-- A request for local state as a record. -/
def toJson (l : LocalRequest) : Json :=
  .obj [("key", .str l.key), ("address", l.address.toJson)]

/-- Reads a request for local state. The key is not looked at. -/
def ofJson? (j : Json) : Option LocalRequest := do
  match ← j.members? ["key", "address"] with
  | [key, address] =>
    return ⟨← Json.required? Json.str? key, ← Json.required? Address.ofJson? address⟩
  | _ => none

end LocalRequest

namespace ApplicationRequest

/-- An application request as a record. -/
def toJson (r : ApplicationRequest) : Json :=
  .obj [
    ("boxes", .arr (r.boxKeys.map .str)),
    ("global", .arr (r.globalKeys.map .str)),
    ("local", .arr (r.localReads.map LocalRequest.toJson)),
    ("program_code", .bool r.programs)]

/-- Reads an application request. -/
def ofJson? (j : Json) : Option ApplicationRequest := do
  match ← j.members? ["boxes", "global", "local", "program_code"] with
  | [boxes, global, locals, programs] =>
    return {
      boxKeys := ← Json.required? (Json.list? Json.str?) boxes
      globalKeys := ← Json.required? (Json.list? Json.str?) global
      localReads := ← Json.required? (Json.list? LocalRequest.ofJson?) locals
      programs := ← Json.required? Json.bool? programs }
  | _ => none

end ApplicationRequest

/-- A request as a record of the kind of resource and what is asked of it. -/
def Request.toJson (r : Request) : Json :=
  .obj [
    ("type", r.kind.toJson),
    ("params",
      match r with
      | .application request => request.toJson
      | .token fields => fields.toJson)]

end LedgerUri
