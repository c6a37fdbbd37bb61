import LedgerUri.Json.Uri
import LedgerUri.Ledger.Record

/-!
# Ledger records as JSON

Byte strings are arrays of numbers, and a state value names its kind beside its value. Absent
values of a token are null when written and may be left out when read.
-/

namespace LedgerUri

namespace StateValue

/-- A value with its kind. -/
def toJson : StateValue → Json
  | bytes value => .obj [("kind", .str "bytes"), ("value", Json.ofBytes value)]
  | uint value => .obj [("kind", .str "uint"), ("value", .nat value.toNat)]

/-- Reads a value of a kind. -/
def ofKind? (kind : String) (j : Json) : Option StateValue :=
  if kind = "bytes" then j.bytes?.map bytes
  else if kind = "uint" then j.uint64?.map uint
  else none

/-- Reads a value. A member `kind` may be written in either form of a bare choice; in an array the
kind is a string and nothing else. -/
def ofJson? : Json → Option StateValue
  | .arr [.str kind, value] => ofKind? kind value
  | .obj members => do
    let kind ← List.lookup "kind" members
    let value ← List.lookup "value" members
    ofKind? (← kind.word?) value
  | _ => none

end StateValue

namespace StateCell

/-- An entry as a record. -/
def toJson (e : StateCell) : Json :=
  .obj [("key", Json.ofBytes e.key), ("value", e.value.toJson)]

/-- Reads an entry. -/
def ofJson? (j : Json) : Option StateCell := do
  match ← j.members? ["key", "value"] with
  | [key, value] =>
    return ⟨← Json.required? Json.bytes? key, ← Json.required? StateValue.ofJson? value⟩
  | _ => none

end StateCell

namespace ApplicationRecord

/-- An application as a record. -/
def toJson (r : ApplicationRecord) : Json :=
  .obj [
    ("id", r.id.toJson),
    ("global_state", .arr (r.globalState.map StateCell.toJson)),
    ("approval_program", Json.ofBytes r.approvalProgram),
    ("clear_program", Json.ofBytes r.clearProgram)]

/-- Reads an application. -/
def ofJson? (j : Json) : Option ApplicationRecord := do
  match ← j.members? ["id", "global_state", "approval_program", "clear_program"] with
  | [id, globalState, approvalProgram, clearProgram] =>
    return {
      id := ← Json.required? ResourceId.ofJson? id
      globalState := ← Json.required? (Json.list? StateCell.ofJson?) globalState
      approvalProgram := ← Json.required? Json.bytes? approvalProgram
      clearProgram := ← Json.required? Json.bytes? clearProgram }
  | _ => none

end ApplicationRecord

namespace OptIn

/-- Local state as a record. -/
def toJson (s : OptIn) : Json :=
  .obj [
    ("app_id", s.application.toJson),
    ("key_value", .arr (s.entries.map StateCell.toJson))]

/-- Reads local state. -/
def ofJson? (j : Json) : Option OptIn := do
  match ← j.members? ["app_id", "key_value"] with
  | [application, entries] =>
    return {
      application := ← Json.required? ResourceId.ofJson? application
      entries := ← Json.required? (Json.list? StateCell.ofJson?) entries }
  | _ => none

end OptIn

namespace AccountRecord

/-- An account as a record. -/
def toJson (a : AccountRecord) : Json :=
  .obj [
    ("address", a.address.toJson),
    ("apps_local_state", .arr (a.localStates.map OptIn.toJson))]

/-- Reads an account. -/
def ofJson? (j : Json) : Option AccountRecord := do
  match ← j.members? ["address", "apps_local_state"] with
  | [address, localStates] =>
    return {
      address := ← Json.required? Address.ofJson? address
      localStates := ← Json.required? (Json.list? OptIn.ofJson?) localStates }
  | _ => none

end AccountRecord

namespace TokenRecord

/-- A token as a record. -/
def toJson (t : TokenRecord) : Json :=
  .obj [
    ("id", t.id.toJson),
    ("total", .nat t.total.toNat),
    ("decimals", .nat t.decimals.toNat),
    ("default_frozen", .bool t.defaultFrozen),
    ("unit_name", Json.ofOption .str t.unitName),
    ("name", Json.ofOption .str t.name),
    ("url", Json.ofOption .str t.url),
    ("metadata_hash", Json.ofOption Json.ofBytes t.metadataHash),
    ("manager", Json.ofOption .str t.manager),
    ("reserve", Json.ofOption .str t.reserve),
    ("freeze", Json.ofOption .str t.freeze),
    ("clawback", Json.ofOption .str t.clawback)]

/-- The members of a token's record, in order. -/
def memberNames : List String :=
  ["id", "total", "decimals", "default_frozen", "unit_name", "name", "url", "metadata_hash",
    "manager", "reserve", "freeze", "clawback"]

/-- Reads a token. -/
def ofJson? (j : Json) : Option TokenRecord := do
  match ← j.members? memberNames with
  | [id, total, decimals, defaultFrozen, unitName, name, url, metadataHash, manager, reserve,
      freeze, clawback] =>
    return {
      id := ← Json.required? ResourceId.ofJson? id
      total := ← Json.required? Json.uint64? total
      decimals := ← Json.required? Json.uint32? decimals
      defaultFrozen := ← Json.required? Json.bool? defaultFrozen
      unitName := ← Json.optional? Json.str? unitName
      name := ← Json.optional? Json.str? name
      url := ← Json.optional? Json.str? url
      metadataHash := ← Json.optional? Json.bytes? metadataHash
      manager := ← Json.optional? Json.str? manager
      reserve := ← Json.optional? Json.str? reserve
      freeze := ← Json.optional? Json.str? freeze
      clawback := ← Json.optional? Json.str? clawback }
  | _ => none

end TokenRecord

end LedgerUri
