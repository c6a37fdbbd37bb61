import LedgerUri.Ledger.Client
import LedgerUri.Text.Hex

/-!
# Faults

A fault plan makes a client fail or delay some of its reads. Rules name a kind of read and either
all reads of that kind or those of one subject: the id of an application or token, the key of a
box in hexadecimal, or an address. Of several rules that apply to a read the first one counts.
-/

namespace LedgerUri

/-- The kinds of read. -/
inductive ReadKind
  | application
  | box
  | account
  | token
deriving DecidableEq

namespace Read

/-- The kind of a read. -/
def kind : Read → ReadKind
  | application _ => .application
  | box _ _ => .box
  | account _ => .account
  | token _ => .token

/-- What a read is about, as text. -/
def subject : Read → String
  | application id => id.text
  | box _ key => Text.hex key
  | account address => address.text
  | token id => id.text

end Read

/-- The reads that a rule is about. -/
structure ReadPattern where
  /-- their kind -/
  kind : ReadKind
  /-- their subject; `none` for all of the kind -/
  subject : Option String
deriving DecidableEq

/-- Whether a read is one of them. -/
def ReadPattern.covers (p : ReadPattern) (read : Read) : Bool :=
  p.kind = read.kind && p.subject.all fun s => s = read.subject

/-- The rules by which a client fails and delays. -/
structure FaultPlan where
  /-- reads that fail, and how -/
  failures : List (ReadPattern × ReadError)
  /-- reads that are delayed, and by how many polls -/
  delays : List (ReadPattern × Nat)

namespace FaultPlan

/-- No faults. -/
def empty : FaultPlan := ⟨[], []⟩

/-- Adds a failure after the rules there are. -/
def fail (plan : FaultPlan) (pattern : ReadPattern) (error : ReadError) : FaultPlan :=
  { plan with failures := plan.failures ++ [(pattern, error)] }

/-- Adds a delay after the rules there are. -/
def delay (plan : FaultPlan) (pattern : ReadPattern) (polls : Nat) : FaultPlan :=
  { plan with delays := plan.delays ++ [(pattern, polls)] }

/-- What the first rule for a read says. -/
def firstFor? {α : Type} (rules : List (ReadPattern × α)) (read : Read) : Option α :=
  (rules.find? fun rule => rule.1.covers read).map (·.2)

/-- The planned failure of a read, or else its answer. -/
def answer {α : Type} (plan : FaultPlan) (read : Read) (own : Except ReadError α) :
    Except ReadError α :=
  match firstFor? plan.failures read with
  | some error => .error error
  | none => own

/-- A client with the planned faults. -/
def apply (plan : FaultPlan) (client : Client) : Client where
  application id := plan.answer (.application id) (client.application id)
  box application key := plan.answer (.box application key) (client.box application key)
  account address := plan.answer (.account address) (client.account address)
  token id := plan.answer (.token id) (client.token id)
  polls place read := (firstFor? plan.delays read).getD (client.polls place read)

end FaultPlan

end LedgerUri
