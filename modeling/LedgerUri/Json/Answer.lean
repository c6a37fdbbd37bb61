import LedgerUri.Answer.Resolve
import LedgerUri.Json.Ledger

/-!
# Answers as JSON

Answers are written and never read. A failure is an object whose only member is named for its
kind, an item is an object with the member `Ok` or `Err`, and the parameters of a token leave out
what is absent.
-/

namespace LedgerUri

/-- A failed read. -/
def ReadError.toJson : ReadError → Json
  | missing resource => .obj [("NotFound", .obj [("resource", .str resource)])]
  | timedOut operation => .obj [("Timeout", .obj [("operation", .str operation)])]
  | failed message => .obj [("Transport", .obj [("message", .str message)])]

/-- A failed item. -/
def ItemFailure.toJson : ItemFailure → Json
  | badKey key reason =>
    .obj [("InvalidKey", .obj [("key", .str key), ("reason", .str reason)])]
  | absent key => .obj [("NotFound", .obj [("key", .str key)])]
  | notOptedIn address => .obj [("NotOptedIn", .obj [("address", address.toJson)])]
  | ledger error => .obj [("Ledger", error.toJson)]

/-- A box. -/
def FoundBox.toJson (item : FoundBox) : Json :=
  .obj [("key", .str item.key), ("value", Json.ofBytes item.value)]

/-- An entry of global state, with its text if it is text. -/
def FoundGlobal.toJson (item : FoundGlobal) : Json :=
  .obj [
    ("key", .str item.key),
    ("value", item.value.toJson),
    ("decoded", Json.ofOption .str item.text)]

/-- An entry of local state, with its text if it is text. -/
def FoundLocal.toJson (item : FoundLocal) : Json :=
  .obj [
    ("key", .str item.key),
    ("address", item.address.toJson),
    ("value", item.value.toJson),
    ("decoded", Json.ofOption .str item.text)]

/-- Both programs. -/
def Programs.toJson (code : Programs) : Json :=
  .obj [("approval", Json.ofBytes code.approval), ("clear", Json.ofBytes code.clear)]

/-- A list of items, found or failed. -/
def Json.ofItems {α : Type} (f : α → Json) (items : List (Except ItemFailure α)) : Json :=
  .arr (items.map fun
    | .ok item => .obj [("Ok", f item)]
    | .error error => .obj [("Err", error.toJson)])

/-- The members of an application answer. -/
def ApplicationAnswer.members (o : ApplicationAnswer) : List (String × Json) :=
  [("app_id", o.id.toJson),
    ("exists", .bool o.present),
    ("failure", Json.ofOption .str o.failure),
    ("boxes", Json.ofItems FoundBox.toJson o.boxes),
    ("global", Json.ofItems FoundGlobal.toJson o.global),
    ("local", Json.ofItems FoundLocal.toJson o.locals),
    ("program_code", Json.ofOption Programs.toJson o.programs)]

/-- An application answer. -/
def ApplicationAnswer.toJson (o : ApplicationAnswer) : Json :=
  .obj o.members

/-- A member, left out when it is absent. -/
def Json.presentMember {α : Type} (name : String) (f : α → Json) (value : Option α) :
    List (String × Json) :=
  (value.map fun v => (name, f v)).toList

/-- The parameters of a token that are present. -/
def TokenView.toJson (p : TokenView) : Json :=
  .obj (
    Json.presentMember "total" (fun n => .nat n.toNat) p.total ++
    Json.presentMember "decimals" (fun n => .nat n.toNat) p.decimals ++
    Json.presentMember "frozenDefault" .bool p.frozenDefault ++
    Json.presentMember "unitName" .str p.unitName ++
    Json.presentMember "assetName" .str p.assetName ++
    Json.presentMember "url" .str p.url ++
    Json.presentMember "metadataHash" .str p.metadataHash ++
    Json.presentMember "manager" .str p.manager ++
    Json.presentMember "reserve" .str p.reserve ++
    Json.presentMember "freeze" .str p.freeze ++
    Json.presentMember "clawback" .str p.clawback)

/-- The members of a token answer. -/
def TokenAnswer.members (o : TokenAnswer) : List (String × Json) :=
  [("token_id", o.id.toJson),
    ("exists", .bool o.present),
    ("parameters", o.parameters.toJson),
    ("failure", Json.ofOption .str o.failure)]

/-- A token answer. -/
def TokenAnswer.toJson (o : TokenAnswer) : Json :=
  .obj o.members

/-- An answer with the kind of its resource. -/
def Answer.toJson (o : Answer) : Json :=
  .obj (("type", o.kind.toJson) ::
    match o with
    | application answer => answer.members
    | token answer => answer.members)

end LedgerUri
