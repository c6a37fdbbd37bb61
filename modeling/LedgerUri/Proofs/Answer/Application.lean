import LedgerUri.Answer.Resolve
import LedgerUri.Proofs.Ledger.Window

/-!
# Answers without windows

The answer to an application query does not mention delays or windows: each item follows from the
key and from what the ledger holds when it is read, and the local items are those up to the first
fatal one. Any way to work off the reads that follows the rules of the window finds that answer.

* `Resolve.boxResult`, `Resolve.localResult` — the item of one key;
* `answerOver`, `answerApplication` — the whole answer, of a ledger that may change or does not;
* `resolveApplicationOver_answer`, `resolveApplicationWith_answer` — it is the answer of every
  resolver;
* `resolveOver_of_application`, `resolveUriOver_of_ok` — a query goes to the resolver of its kind,
  and a URI to that of its query.
-/

namespace LedgerUri

theorem Config.width_pos (config : Config) : 0 < config.width :=
  Nat.le_max_left 1 config.maxReads

namespace Resolve

variable {client : Client} {id : ResourceId}

/-! ## Items -/

/-- The item of a requested box. -/
def boxResult (client : Client) (id : ResourceId) (key : String) :
    Except ItemFailure FoundBox := do
  let bytes ← keyBytes key
  boxItem key (client.box id bytes)

/-- The item of a requested key of local state. -/
def localResult (client : Client) (id : ResourceId) (request : LocalRequest) :
    Except ItemFailure FoundLocal := do
  let canonical ← indexKey request.key
  localItem id request canonical (client.account request.address)

theorem boxTask_result (place : ℕ) (key : String) :
    (boxTask client id place key).result = boxResult client id key := by
  rw [boxTask, boxResult]
  cases keyBytes key <;> rfl

theorem localTask_result (place : ℕ) (request : LocalRequest) :
    (localTask client id place request).result = localResult client id request := by
  rw [localTask, localResult]
  cases indexKey request.key <;> rfl

/-- Every requested box has its item, whichever client answers at its place. -/
def boxResults (ledgers : Ledgers) (id : ResourceId) (keys : List String) :
    List (Except ItemFailure FoundBox) :=
  keys.mapIdx fun place key => boxResult (ledgers.box place) id key

/-- The items of all requested keys of local state, also of those that come after a fatal one. -/
def localResults (ledgers : Ledgers) (id : ResourceId) (requests : List LocalRequest) :
    List (Except ItemFailure FoundLocal) :=
  requests.mapIdx fun place request => localResult (ledgers.account place) id request

/-- The delay of a task is gone from its result. -/
theorem map_result_mapIdx {κ ρ α : Type} {task : ℕ → κ → Task ρ α} {result : ℕ → κ → α}
    (h : ∀ place k, (task place k).result = result place k) (ks : List κ) :
    (ks.mapIdx task).map Task.result = ks.mapIdx result := by
  refine List.ext_getElem? fun i => ?_
  have htask : Task.result ∘ task i = result i := funext (h i)
  rw [List.getElem?_map, List.getElem?_mapIdx, Option.map_map, htask, List.getElem?_mapIdx]

/-- What depends on no place is mapped. -/
theorem mapIdx_const {κ α : Type} (f : κ → α) (ks : List κ) :
    (ks.mapIdx fun _ => f) = ks.map f := by
  refine List.ext_getElem? fun i => ?_
  rw [List.getElem?_mapIdx, List.getElem?_map]

/-! ## Answers -/

/-- The answer that is made of the items of all requested boxes and keys of local state. -/
def answerOf (id : ResourceId) (r : ApplicationRequest) (record : ApplicationRecord)
    (boxes : List (Except ItemFailure FoundBox)) (results : List (Except ItemFailure FoundLocal)) :
    ApplicationAnswer :=
  let locals := upTo isFatal results
  let failure := fatalMessage? locals
  let programs :=
    if r.programs && failure.isNone then
      some ⟨record.approvalProgram, record.clearProgram⟩
    else none
  ⟨id, true, failure, boxes,
    r.globalKeys.map (globalItem (KeyedState.ofEntries record.globalState)), locals, programs⟩

/-- The answer for an application with the given record. -/
def answerItems (client : Client) (id : ResourceId) (r : ApplicationRequest)
    (record : ApplicationRecord) : ApplicationAnswer :=
  answerOf id r record (r.boxKeys.map (boxResult client id))
    (r.localReads.map (localResult client id))

variable {buffered : Buffering Read}

theorem results_boxTasks (hb : IsBuffering buffered) (config : Config) (ledgers : Ledgers)
    (keys : List String) :
    Event.results (buffered config.width
        (keys.mapIdx fun place => boxTask (ledgers.box place) id place)) =
      boxResults ledgers id keys := by
  rw [hb.results_eq config.width_pos, map_result_mapIdx fun place => boxTask_result place]
  rfl

theorem results_localTasks (hb : IsBuffering buffered) (config : Config) (ledgers : Ledgers)
    (requests : List LocalRequest) :
    Event.results (Event.through isFatal (buffered config.width
        (requests.mapIdx fun place => localTask (ledgers.account place) id place))) =
      upTo isFatal (localResults ledgers id requests) := by
  rw [Event.results_through, hb.results_eq config.width_pos,
    map_result_mapIdx fun place => localTask_result place]
  rfl

theorem resolveItems_answer (hb : IsBuffering buffered) (config : Config) (ledgers : Ledgers)
    (r : ApplicationRequest) (record : ApplicationRecord) :
    (resolveItems buffered config ledgers id r record).1 =
      answerOf id r record (boxResults ledgers id r.boxKeys)
        (localResults ledgers id r.localReads) := by
  simp only [resolveItems, answerOf, results_boxTasks hb, results_localTasks hb]

theorem answerOf_constant (client : Client) (id : ResourceId) (r : ApplicationRequest)
    (record : ApplicationRecord) :
    answerOf id r record (boxResults (.constant client) id r.boxKeys)
        (localResults (.constant client) id r.localReads) = answerItems client id r record := by
  rw [answerItems, ← mapIdx_const, ← mapIdx_const]
  rfl

end Resolve

/-- The answer to an application query over a ledger that may change. -/
def answerOver (ledgers : Ledgers) (q : Query) : Except ResolveError ApplicationAnswer :=
  match q.request with
  | .token _ => .error (.wrongKind .application .token)
  | .application r =>
    match ledgers.resource.application q.id with
    | .ok record =>
      .ok (Resolve.answerOf q.id r record (Resolve.boxResults ledgers q.id r.boxKeys)
        (Resolve.localResults ledgers q.id r.localReads))
    | .error error =>
      if error.isMissing then .ok (ApplicationAnswer.missing q.id error.message)
      else .error (.ledger error)

/-- The answer to an application query. -/
def answerApplication (client : Client) (q : Query) : Except ResolveError ApplicationAnswer :=
  match q.request with
  | .token _ => .error (.wrongKind .application .token)
  | .application r =>
    match client.application q.id with
    | .ok record => .ok (Resolve.answerItems client q.id r record)
    | .error error =>
      if error.isMissing then .ok (ApplicationAnswer.missing q.id error.message)
      else .error (.ledger error)

section Cases

variable {ledgers : Ledgers} {client : Client} {q : Query} {r : ApplicationRequest}

/-- An application that can be read is answered with items. -/
theorem answerOver_of_ok {record : ApplicationRecord} (hrequest : q.request = .application r)
    (hread : ledgers.resource.application q.id = .ok record) :
    answerOver ledgers q =
      .ok (Resolve.answerOf q.id r record (Resolve.boxResults ledgers q.id r.boxKeys)
        (Resolve.localResults ledgers q.id r.localReads)) := by
  simp only [answerOver, hrequest, hread]

/-- An application that is not there is an answer too, any other failure to read it is not. -/
theorem answerOver_of_error {error : ReadError} (hrequest : q.request = .application r)
    (hread : ledgers.resource.application q.id = .error error) :
    answerOver ledgers q =
      if error.isMissing then .ok (ApplicationAnswer.missing q.id error.message)
      else .error (.ledger error) := by
  simp only [answerOver, hrequest, hread]

theorem answerApplication_of_ok {record : ApplicationRecord}
    (hrequest : q.request = .application r) (hread : client.application q.id = .ok record) :
    answerApplication client q = .ok (Resolve.answerItems client q.id r record) := by
  simp only [answerApplication, hrequest, hread]

end Cases

/-- Every resolver that follows the rules of the window finds the one answer. -/
theorem resolveApplicationOver_answer {buffered : Buffering Read} (hb : IsBuffering buffered)
    (config : Config) (ledgers : Ledgers) (q : Query) :
    (resolveApplicationOver buffered config ledgers q).answer = answerOver ledgers q := by
  rw [resolveApplicationOver, answerOver]
  cases q.request with
  | token fields => rfl
  | application r =>
    simp only [Resolution.answer_ask, Client.answer]
    cases ledgers.resource.application q.id with
    | ok record => exact congrArg Except.ok (Resolve.resolveItems_answer hb config ledgers r record)
    | error error => rfl

/-- A ledger that does not change answers as its one client. -/
theorem answerOver_constant (client : Client) (q : Query) :
    answerOver (.constant client) q = answerApplication client q := by
  rw [answerOver, answerApplication, Ledgers.constant]
  cases q.request with
  | token fields => rfl
  | application r =>
    cases client.application q.id with
    | ok record => exact congrArg Except.ok (Resolve.answerOf_constant client q.id r record)
    | error error => rfl

theorem resolveApplicationWith_answer {buffered : Buffering Read} (hb : IsBuffering buffered)
    (config : Config) (client : Client) (q : Query) :
    (resolveApplicationWith buffered config client q).answer = answerApplication client q :=
  (resolveApplicationOver_answer hb config (.constant client) q).trans
    (answerOver_constant client q)

/-! ## Queries and URIs -/

section Queries

variable {buffered : Buffering Read} {config : Config} {ledgers : Ledgers} {q : Query}

theorem resolveOver_of_application {r : ApplicationRequest}
    (hrequest : q.request = .application r) :
    resolveOver buffered config ledgers q =
      (resolveApplicationOver buffered config ledgers q).map .application := by
  simp only [resolveOver, Query.kind, hrequest, Request.kind]

theorem resolveOver_of_token {fields : TokenFieldSet} (hrequest : q.request = .token fields) :
    resolveOver buffered config ledgers q = (resolveToken ledgers.resource q).map .token := by
  simp only [resolveOver, Query.kind, hrequest, Request.kind]

theorem resolveUriOver_of_ok {uri : String} (hparse : Query.parse config.pairing uri = .ok q) :
    resolveUriOver buffered config ledgers uri = resolveOver buffered config ledgers q := by
  simp only [resolveUriOver, hparse]

/-- A URI of an application is answered as its query is. -/
theorem resolveUriWith_of_application {client : Client} {uri : String} {r : ApplicationRequest}
    {o : ApplicationAnswer} (hparse : Query.parse config.pairing uri = .ok q)
    (hrequest : q.request = .application r)
    (hanswer : (resolveApplicationWith buffered config client q).answer = .ok o) :
    (resolveUriWith buffered config client uri).answer = .ok (.application o) := by
  rw [resolveUriWith, resolveUriOver_of_ok hparse, resolveOver_of_application hrequest,
    Resolution.map]
  exact congrArg (Except.map Answer.application) hanswer

end Queries

end LedgerUri
