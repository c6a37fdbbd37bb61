/-!
# Ledger failures

A read finds nothing, gives up waiting, or fails in some other way. The last two are fatal to the
reads that would follow.
-/

namespace LedgerUri

/-- Why a read of the ledger gave no record. -/
inductive ReadError
  /-- there is no such record -/
  | missing (resource : String)
  /-- the read did not end in time -/
  | timedOut (operation : String)
  /-- the read failed -/
  | failed (message : String)
deriving DecidableEq

namespace ReadError

/-- The wording of a failure. -/
def message : ReadError → String
  | missing resource => resource ++ " not found"
  | timedOut operation => operation ++ " timed out"
  | failed message => "ledger read failed: " ++ message

/-- Whether the record just does not exist. -/
def isMissing : ReadError → Bool
  | missing _ => true
  | _ => false

end ReadError

end LedgerUri
