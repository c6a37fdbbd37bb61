import LedgerUri.Answer.Item
import LedgerUri.Answer.Resolution
import LedgerUri.Ledger.KeyedState
import LedgerUri.Ledger.Window

/-!
# Resolving an application query

The application is read once, then its boxes, then the local state that was asked for; global state
and programs come with the application. A failed box read stays with its item. A fatal failure of a
local read ends the query there: it is the last local item, and the programs are withheld.

* `ApplicationAnswer` — what was found;
* `resolveApplicationOver` — the answer and the reads, whatever works off the reads in flight, and
  while the ledger may change;
* `resolveApplicationWith` — the same over one client that answers all reads;
* `resolveApplication` — the same when all reads in flight are polled together.
-/

namespace LedgerUri

/-- What an application query found. -/
structure ApplicationAnswer where
  /-- the application -/
  id : ResourceId
  /-- whether it is there -/
  present : Bool
  /-- why the query ended early, or that there is no application -/
  failure : Option String
  /-- boxes, in the order of the request -/
  boxes : List (Except ItemFailure FoundBox)
  /-- global state, in the order of the request -/
  global : List (Except ItemFailure FoundGlobal)
  /-- local state, in the order of the request, up to a fatal failure -/
  locals : List (Except ItemFailure FoundLocal)
  /-- the programs, if they were asked for and nothing was fatal -/
  programs : Option Programs

namespace ApplicationAnswer

/-- The answer for an application that is not there. -/
def missing (id : ResourceId) (reason : String) : ApplicationAnswer :=
  ⟨id, false, some reason, [], [], [], none⟩

/-- Whether the application is there and no read was fatal. -/
def complete (o : ApplicationAnswer) : Bool :=
  o.present && o.failure.isNone

/-- The number of items that were found. -/
def foundSize (o : ApplicationAnswer) : Nat :=
  o.boxes.countP Except.isOk + o.global.countP Except.isOk + o.locals.countP Except.isOk

end ApplicationAnswer

namespace Resolve

/-- The bytes of a requested key. -/
def keyBytes (key : String) : Except ItemFailure (List UInt8) :=
  (Base64.UrlSafe.decode key).mapError fun error =>
    .badKey key (UriError.Cause.notBase64 error).message

/-- A requested key as the state index writes it. -/
def indexKey (key : String) : Except ItemFailure String :=
  (keyBytes key).map Base64.UrlSafe.encode

/-- A task without a read, for a key that cannot be asked for. -/
def failedTask {α : Type} (error : ItemFailure) : Task Read (Except ItemFailure α) :=
  ⟨none, 0, .error error⟩

/-- The task of making a read for the item at a place of the request. -/
def readTask {α : Type} (client : Client) (place : Nat) (read : Read)
    (item : Except ReadError read.Answer → Except ItemFailure α) :
    Task Read (Except ItemFailure α) :=
  ⟨some read, client.polls place read, item (client.answer read)⟩

/-- The item of a box from the ledger's answer. -/
def boxItem (key : String) : Except ReadError (List UInt8) → Except ItemFailure FoundBox
  | .ok value => .ok ⟨key, value⟩
  | .error error => if error.isMissing then .error (.absent key) else .error (.ledger error)

/-- The task of reading the box at a place of the request. -/
def boxTask (client : Client) (id : ResourceId) (place : Nat) (key : String) :
    Task Read (Except ItemFailure FoundBox) :=
  match keyBytes key with
  | .error error => failedTask error
  | .ok bytes => readTask client place (.box id bytes) (boxItem key)

/-- The item of a key of global state. -/
def globalItem (index : KeyedState) (key : String) : Except ItemFailure FoundGlobal := do
  let canonical ← indexKey key
  match index.get? canonical with
  | some value => return ⟨key, value, value.text?⟩
  | none => throw (.absent key)

/-- The item of a key of local state from the ledger's answer. An account that is not there is one
that never opted in. -/
def localItem (id : ResourceId) (request : LocalRequest) (canonical : String) :
    Except ReadError AccountRecord → Except ItemFailure FoundLocal
  | .error error =>
    if error.isMissing then .error (.notOptedIn request.address) else .error (.ledger error)
  | .ok account =>
    match account.localState? id with
    | none => .error (.notOptedIn request.address)
    | some state =>
      match (KeyedState.ofEntries state.entries).get? canonical with
      | some value => .ok ⟨request.key, request.address, value, value.text?⟩
      | none => .error (.absent request.key)

/-- The task of reading the key of local state at a place of the request. -/
def localTask (client : Client) (id : ResourceId) (place : Nat) (request : LocalRequest) :
    Task Read (Except ItemFailure FoundLocal) :=
  match indexKey request.key with
  | .error error => failedTask error
  | .ok canonical =>
    readTask client place (.account request.address) (localItem id request canonical)

/-- Whether an item is a fatal failure. -/
def isFatal {α : Type} : Except ItemFailure α → Bool
  | .ok _ => false
  | .error error => error.isFatal

/-- The wording of the fatal failure that ended a list of items, if one did. -/
def fatalMessage? {α : Type} (items : List (Except ItemFailure α)) : Option String :=
  items.findSome? fun
    | .ok _ => none
    | .error error => if error.isFatal then some error.message else none

/-- The part of a query that follows once the application has been read. -/
def resolveItems (buffered : Buffering Read) (config : Config) (ledgers : Ledgers)
    (id : ResourceId) (r : ApplicationRequest) (record : ApplicationRecord) :
    ApplicationAnswer × List Read :=
  let boxTrace := buffered config.width
    (r.boxKeys.mapIdx fun place => boxTask (ledgers.box place) id place)
  let index := KeyedState.ofEntries record.globalState
  let localTrace := Event.through isFatal (buffered config.width
    (r.localReads.mapIdx fun place => localTask (ledgers.account place) id place))
  let locals := Event.results localTrace
  let failure := fatalMessage? locals
  let programs :=
    if r.programs && failure.isNone then
      some ⟨record.approvalProgram, record.clearProgram⟩
    else none
  (⟨id, true, failure, Event.results boxTrace, r.globalKeys.map (globalItem index), locals,
      programs⟩,
    Event.reads boxTrace ++ Event.reads localTrace)

end Resolve

/-- Resolves an application query while the ledger may change, with the reads in flight worked off
in the given way. -/
def resolveApplicationOver (buffered : Buffering Read) (config : Config) (ledgers : Ledgers)
    (q : Query) : Resolution ApplicationAnswer :=
  match q.request with
  | .token _ => ⟨.error (.wrongKind .application .token), []⟩
  | .application r =>
    .ask ledgers.resource (.application q.id) fun
      | .ok record =>
        let (answer, reads) := Resolve.resolveItems buffered config ledgers q.id r record
        ⟨.ok answer, reads⟩
      | .error error =>
        let answer :=
          if error.isMissing then .ok (ApplicationAnswer.missing q.id error.message)
          else .error (.ledger error)
        ⟨answer, []⟩

/-- Resolves an application query, with the reads in flight worked off in the given way. -/
def resolveApplicationWith (buffered : Buffering Read) (config : Config) (client : Client)
    (q : Query) : Resolution ApplicationAnswer :=
  resolveApplicationOver buffered config (.constant client) q

/-- Resolves an application query. -/
def resolveApplication (config : Config) (client : Client) (q : Query) :
    Resolution ApplicationAnswer :=
  resolveApplicationWith Task.trace config client q

end LedgerUri
