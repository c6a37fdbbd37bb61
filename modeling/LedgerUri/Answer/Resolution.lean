import LedgerUri.Ledger.Client
import LedgerUri.Uri.Query

/-!
# Resolving a query

What every kind of query shares: the configuration, the failures of a query as a whole, and the
pair of an answer with the reads that were made for it.

* `Config`, `ResolveError` — how a query is read and resolved, and why there is no answer;
* `Resolution.ask` — a read with what follows from its answer, and its record.
-/

namespace LedgerUri

/-- How queries are read and resolved. -/
structure Config where
  /-- how local keys find their addresses -/
  pairing : Pairing
  /-- how many item reads may be in flight -/
  maxReads : Nat

namespace Config

/-- One read at a time, and every local key from the first address. -/
def default : Config := ⟨.firstAddress, 1⟩

instance : Inhabited Config := ⟨default⟩

/-- The width of the window of reads, which is never zero. -/
def width (config : Config) : Nat := max 1 config.maxReads

end Config

/-- Why a query has no answer. -/
inductive ResolveError
  /-- the query is about the other kind of resource -/
  | wrongKind (expected found : ResourceKind)
  /-- the URI cannot be read -/
  | uri (error : UriError)
  /-- the resource itself could not be read -/
  | ledger (error : ReadError)
deriving DecidableEq

namespace ResolveError

/-- The wording of a failure. -/
def message : ResolveError → String
  | wrongKind expected found =>
    found.name ++ " query passed to " ++ expected.name ++ " executor"
  | uri error => error.message
  | ledger error => error.message

/-- The wording of the failure behind it, if there is one. -/
def source? : ResolveError → Option String
  | wrongKind _ _ => none
  | uri error => some error.message
  | ledger error => some error.message

end ResolveError

/-- An answer with the reads that were made for it, in the order in which they were started. -/
structure Resolution (α : Type) where
  /-- the answer -/
  answer : Except ResolveError α
  /-- the reads -/
  reads : List Read

namespace Resolution

variable {α β : Type}

/-- The same reads with a changed answer. -/
def map (f : α → β) (r : Resolution α) : Resolution β :=
  ⟨r.answer.map f, r.reads⟩

/-- Makes a read and goes on with what the client answers. The read is recorded where it is made,
so none is made without its record, and none is recorded that is not made. -/
def ask (client : Client) (read : Read) (next : Except ReadError read.Answer → Resolution α) :
    Resolution α :=
  let rest := next (client.answer read)
  ⟨rest.answer, read :: rest.reads⟩

@[simp]
theorem answer_ask (client : Client) (read : Read)
    (next : Except ReadError read.Answer → Resolution α) :
    (ask client read next).answer = (next (client.answer read)).answer := rfl

@[simp]
theorem reads_ask (client : Client) (read : Read)
    (next : Except ReadError read.Answer → Resolution α) :
    (ask client read next).reads = read :: (next (client.answer read)).reads := rfl

end Resolution

end LedgerUri
