import LedgerUri.Answer.Application
import LedgerUri.Answer.Token

/-!
# Resolving any query

A query goes to the resolver of its kind of resource; a URI is read first.

* `resolveOver`, `resolveUriOver` — with the reads in flight worked off in a given way, and while
  the ledger may change;
* `resolveWith`, `resolveUriWith` — the same over one client that answers all reads;
* `resolve`, `resolveUri` — the same when all reads in flight are polled together.
-/

namespace LedgerUri

/-- What a query found. -/
inductive Answer
  | application (answer : ApplicationAnswer)
  | token (answer : TokenAnswer)

namespace Answer

/-- The kind of the resource. -/
def kind : Answer → ResourceKind
  | application _ => .application
  | token _ => .token

/-- Whether the resource is there. -/
def present : Answer → Bool
  | application o => o.present
  | token o => o.present

/-- Whether the query went through as a whole. -/
def complete : Answer → Bool
  | application o => o.complete
  | token o => o.complete

end Answer

/-- Resolves a query while the ledger may change, with the reads in flight worked off in the given
way. -/
def resolveOver (buffered : Buffering Read) (config : Config) (ledgers : Ledgers) (q : Query) :
    Resolution Answer :=
  match q.kind with
  | .application => (resolveApplicationOver buffered config ledgers q).map .application
  | .token => (resolveToken ledgers.resource q).map .token

/-- Resolves a query, with the reads in flight worked off in the given way. -/
def resolveWith (buffered : Buffering Read) (config : Config) (client : Client) (q : Query) :
    Resolution Answer :=
  resolveOver buffered config (.constant client) q

/-- Resolves a query. -/
def resolve (config : Config) (client : Client) (q : Query) : Resolution Answer :=
  resolveWith Task.trace config client q

/-- Reads a URI and resolves its query while the ledger may change, with the reads in flight worked
off in the given way. -/
def resolveUriOver (buffered : Buffering Read) (config : Config) (ledgers : Ledgers)
    (uri : String) : Resolution Answer :=
  match Query.parse config.pairing uri with
  | .ok q => resolveOver buffered config ledgers q
  | .error error => ⟨.error (.uri error), []⟩

/-- Reads a URI and resolves its query, with the reads in flight worked off in the given way. -/
def resolveUriWith (buffered : Buffering Read) (config : Config) (client : Client)
    (uri : String) : Resolution Answer :=
  resolveUriOver buffered config (.constant client) uri

/-- Reads a URI and resolves its query. -/
def resolveUri (config : Config) (client : Client) (uri : String) : Resolution Answer :=
  resolveUriWith Task.trace config client uri

end LedgerUri
