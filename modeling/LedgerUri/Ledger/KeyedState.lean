import LedgerUri.Base64.UrlSafe
import LedgerUri.Ledger.Record
import Std.Data.HashMap

/-!
# Looking up state

State is looked up by the base64url text of a key, so an index is built once for every state that
is read. Each byte string has one such text as it is written here, which is why a requested key is
decoded and written again before the lookup.
-/

namespace LedgerUri

/-- State by the base64url text of its keys. -/
structure KeyedState where
  /-- the value of the first entry under each key -/
  values : Std.HashMap String StateValue

namespace KeyedState

/-- The index of a state. Of several entries under one key the first stays. -/
def ofEntries (entries : List StateCell) : KeyedState :=
  ⟨entries.foldl (fun m e => m.insertIfNew (Base64.UrlSafe.encode e.key) e.value) ∅⟩

/-- The value under a key's text. -/
def get? (index : KeyedState) (key : String) : Option StateValue :=
  index.values[key]?

/-- The number of different keys. -/
def size (index : KeyedState) : Nat :=
  index.values.size

end KeyedState

end LedgerUri
