import LedgerUri.Address
import LedgerUri.Resource.Id
import LedgerUri.Text.Utf8

/-!
# Ledger records

What a ledger holds: applications with their global state and programs, the local state that
accounts have in applications, and tokens. State is a list of entries, and of two entries under
one key the first counts.
-/

namespace LedgerUri

/-- A value in state. -/
inductive StateValue
  | bytes (value : List UInt8)
  | uint (value : UInt64)
deriving DecidableEq

namespace StateValue

/-- The bytes of a byte string. -/
def bytes? : StateValue → Option (List UInt8)
  | bytes value => some value
  | uint _ => none

/-- The number. -/
def uint? : StateValue → Option UInt64
  | uint value => some value
  | bytes _ => none

/-- The text of a byte string that is UTF-8. -/
def text? (v : StateValue) : Option String :=
  v.bytes?.bind Text.ofUtf8?

end StateValue

/-- An entry of global or local state. -/
structure StateCell where
  /-- the key's bytes -/
  key : List UInt8
  /-- the value -/
  value : StateValue
deriving DecidableEq

/-- An application. -/
structure ApplicationRecord where
  /-- its id -/
  id : ResourceId
  /-- its global state -/
  globalState : List StateCell
  /-- its approval program -/
  approvalProgram : List UInt8
  /-- its clear-state program -/
  clearProgram : List UInt8
deriving DecidableEq

/-- The state that an account has in one application. -/
structure OptIn where
  /-- the application -/
  application : ResourceId
  /-- the state -/
  entries : List StateCell
deriving DecidableEq

/-- An account. -/
structure AccountRecord where
  /-- its address -/
  address : Address
  /-- its state, per application that it opted in to -/
  localStates : List OptIn
deriving DecidableEq

/-- The account's state in an application: its first record for it. -/
def AccountRecord.localState? (account : AccountRecord) (application : ResourceId) :
    Option OptIn :=
  account.localStates.find? fun s => s.application = application

/-- A token. -/
structure TokenRecord where
  /-- its id -/
  id : ResourceId
  /-- total supply in base units -/
  total : UInt64
  /-- decimal places -/
  decimals : UInt32
  /-- whether holdings start frozen -/
  defaultFrozen : Bool
  /-- name of a unit -/
  unitName : Option String
  /-- name of the token -/
  name : Option String
  /-- where its metadata is -/
  url : Option String
  /-- hash of its metadata -/
  metadataHash : Option (List UInt8)
  /-- manager account -/
  manager : Option String
  /-- reserve account -/
  reserve : Option String
  /-- account that may freeze holdings -/
  freeze : Option String
  /-- account that may claw holdings back -/
  clawback : Option String
deriving DecidableEq

end LedgerUri
