import LedgerUri.Ledger.Error
import LedgerUri.Ledger.Record

/-!
# Reading a ledger

A client answers four kinds of read. Its answer to a read is fixed, but may take a number of polls
to arrive, which may differ each time the read is made. So a client is a record of functions: what
runs at the same time can change when a read is answered, but not what it says.

A ledger may also change while a query runs. Then each of the query's reads is answered by a client
of its own, and the same read can be answered differently at another place of the request.
-/

namespace LedgerUri

/-- A read of the ledger. -/
inductive Read
  | application (id : ResourceId)
  | box (application : ResourceId) (key : List UInt8)
  | account (address : Address)
  | token (id : ResourceId)
deriving DecidableEq

/-- What a ledger answers. -/
structure Client where
  /-- the application with an id -/
  application : ResourceId → Except ReadError ApplicationRecord
  /-- the contents of an application's box -/
  box : ResourceId → List UInt8 → Except ReadError (List UInt8)
  /-- the account with an address -/
  account : Address → Except ReadError AccountRecord
  /-- the token with an id -/
  token : ResourceId → Except ReadError TokenRecord
  /-- how many polls find the read for the item at a place of the request still pending -/
  polls : (place : Nat) → Read → Nat

/-- What a read is answered with. -/
abbrev Read.Answer : Read → Type
  | application _ => ApplicationRecord
  | box _ _ => List UInt8
  | account _ => AccountRecord
  | token _ => TokenRecord

/-- The answer to a read of any kind. -/
def Client.answer (client : Client) : (read : Read) → Except ReadError read.Answer
  | .application id => client.application id
  | .box owner key => client.box owner key
  | .account address => client.account address
  | .token id => client.token id

/-- The ledger as each read of one query finds it. -/
structure Ledgers where
  /-- answers the read of the resource itself -/
  resource : Client
  /-- answers the read for the box at a place of the request -/
  box : (place : Nat) → Client
  /-- answers the read for the local key at a place of the request -/
  account : (place : Nat) → Client

/-- A ledger that does not change. -/
def Ledgers.constant (client : Client) : Ledgers where
  resource := client
  box _ := client
  account _ := client

end LedgerUri
