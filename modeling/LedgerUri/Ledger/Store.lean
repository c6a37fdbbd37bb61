import LedgerUri.Ledger.Client
import Std.Data.ExtHashMap

/-!
# A ledger in memory

Four maps, one per kind of record. An insert replaces the record under the same key and touches
nothing else. The maps are extensional, so two stores with the same records are equal, whatever
was inserted in between.
-/

namespace LedgerUri

/-- A ledger that is held in memory. -/
structure Store where
  /-- applications by id -/
  applications : Std.ExtHashMap ResourceId ApplicationRecord
  /-- boxes by application and key; the application need not be there -/
  boxes : Std.ExtHashMap (ResourceId × List UInt8) (List UInt8)
  /-- accounts by address -/
  accounts : Std.ExtHashMap Address AccountRecord
  /-- tokens by id -/
  tokens : Std.ExtHashMap ResourceId TokenRecord

namespace Store

/-- The ledger without records. -/
def empty : Store := ⟨∅, ∅, ∅, ∅⟩

/-- Inserts or replaces an application. -/
def insertApplication (s : Store) (record : ApplicationRecord) : Store :=
  { s with applications := s.applications.insert record.id record }

/-- Inserts or replaces a box. -/
def insertBox (s : Store) (application : ResourceId) (key value : List UInt8) : Store :=
  { s with boxes := s.boxes.insert (application, key) value }

/-- Inserts or replaces an account. -/
def insertAccount (s : Store) (record : AccountRecord) : Store :=
  { s with accounts := s.accounts.insert record.address record }

/-- Inserts or replaces a token. -/
def insertToken (s : Store) (record : TokenRecord) : Store :=
  { s with tokens := s.tokens.insert record.id record }

/-- The number of records of all kinds. -/
def size (s : Store) : Nat :=
  s.applications.size + s.boxes.size + s.accounts.size + s.tokens.size

/-- Whether there is no record. -/
def isEmpty (s : Store) : Bool :=
  s.size = 0

/-- A record, or the failure that names what is missing. -/
def orMissing {α : Type} (resource : String) : Option α → Except ReadError α
  | some record => .ok record
  | none => .error (.missing resource)

/-- The store as a client that answers at once. -/
def client (s : Store) : Client where
  application id := orMissing ("application " ++ id.text) s.applications[id]?
  box application key :=
    orMissing ("box of application " ++ application.text) s.boxes[(application, key)]?
  account address := orMissing ("account " ++ address.text) s.accounts[address]?
  token id := orMissing ("token " ++ id.text) s.tokens[id]?
  polls _ _ := 0

end Store

end LedgerUri
