import LedgerUri.Base64.Padded
import LedgerUri.Ledger.Error
import LedgerUri.Ledger.Record

/-!
# Items of an answer

Each requested key becomes an item: what was found under it, or why nothing was. A failure stays
with its item unless it is fatal.
-/

namespace LedgerUri

/-- Why nothing was found under a key. -/
inductive ItemFailure
  /-- the key is no base64url text -/
  | badKey (key reason : String)
  /-- there is no box or entry under the key -/
  | absent (key : String)
  /-- the account has no state in the application -/
  | notOptedIn (address : Address)
  /-- the read failed -/
  | ledger (error : ReadError)
deriving DecidableEq

namespace ItemFailure

/-- The wording of a failure. -/
def message : ItemFailure → String
  | badKey key reason => "invalid key '" ++ key ++ "': " ++ reason
  | absent key => "key '" ++ key ++ "' not found"
  | notOptedIn address => "account " ++ address.text ++ " is not opted in to the application"
  | ledger error => error.message

/-- Whether later reads should not be tried: the ledger failed, which is more than a miss. -/
def isFatal : ItemFailure → Bool
  | ledger error => !error.isMissing
  | _ => false

end ItemFailure

/-- A box. -/
structure FoundBox where
  /-- the key as it was requested -/
  key : String
  /-- the contents -/
  value : List UInt8
deriving DecidableEq

/-- The contents in padded Base64. -/
def FoundBox.base64 (item : FoundBox) : String :=
  Base64.Padded.encode item.value

/-- An entry of global state. -/
structure FoundGlobal where
  /-- the key as it was requested -/
  key : String
  /-- the value -/
  value : StateValue
  /-- the text of the value, if it is text -/
  text : Option String
deriving DecidableEq

/-- An entry of an account's local state. -/
structure FoundLocal where
  /-- the key as it was requested -/
  key : String
  /-- the account -/
  address : Address
  /-- the value -/
  value : StateValue
  /-- the text of the value, if it is text -/
  text : Option String
deriving DecidableEq

/-- Both programs of an application. -/
structure Programs where
  /-- the approval program -/
  approval : List UInt8
  /-- the clear-state program -/
  clear : List UInt8
deriving DecidableEq

end LedgerUri
