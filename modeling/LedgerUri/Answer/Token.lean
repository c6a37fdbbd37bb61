import LedgerUri.Answer.Resolution
import LedgerUri.Base64.Padded

/-!
# Resolving a token query

The token is read once, and of its record only the requested fields are shown.

* `TokenView.ofRecord` — the requested part of a record;
* `resolveToken` — the answer and the read.
-/

namespace LedgerUri

/-- The part of a token's record that was asked for. A field is absent when it was not requested or
has no value. -/
structure TokenView where
  total : Option UInt64
  decimals : Option UInt32
  frozenDefault : Option Bool
  unitName : Option String
  assetName : Option String
  url : Option String
  /-- the hash in padded Base64 -/
  metadataHash : Option String
  manager : Option String
  reserve : Option String
  freeze : Option String
  clawback : Option String
deriving DecidableEq

namespace TokenView

/-- No field at all. -/
def empty : TokenView :=
  ⟨none, none, none, none, none, none, none, none, none, none, none⟩

/-- Whether no field is present. -/
def isEmpty (p : TokenView) : Bool :=
  p = empty

/-- The view with one more field of a record. A field without a value stays absent. -/
def reveal (record : TokenRecord) (view : TokenView) : TokenField → TokenView
  | .total => { view with total := some record.total }
  | .decimals => { view with decimals := some record.decimals }
  | .frozenDefault => { view with frozenDefault := some record.defaultFrozen }
  | .unitName => { view with unitName := record.unitName }
  | .assetName => { view with assetName := record.name }
  | .url => { view with url := record.url }
  | .metadataHash =>
    { view with metadataHash := record.metadataHash.map Base64.Padded.encode }
  | .manager => { view with manager := record.manager }
  | .reserve => { view with reserve := record.reserve }
  | .freeze => { view with freeze := record.freeze }
  | .clawback => { view with clawback := record.clawback }

/-- The requested part of a record, one field after the other. -/
def ofRecord (record : TokenRecord) (requested : TokenFieldSet) : TokenView :=
  requested.toList.foldl (reveal record) empty

end TokenView

/-- What a token query found. -/
structure TokenAnswer where
  /-- the token -/
  id : ResourceId
  /-- whether it is there -/
  present : Bool
  /-- the requested fields; none when there is no token -/
  parameters : TokenView
  /-- that there is no token -/
  failure : Option String
deriving DecidableEq

/-- Whether the token is there. -/
def TokenAnswer.complete (o : TokenAnswer) : Bool :=
  o.present && o.failure.isNone

/-- The answer to a token query from the ledger's answer. -/
def TokenAnswer.ofAnswer (id : ResourceId) (requested : TokenFieldSet) :
    Except ReadError TokenRecord → Except ResolveError TokenAnswer
  | .ok record => .ok ⟨id, true, TokenView.ofRecord record requested, none⟩
  | .error error =>
    if error.isMissing then .ok ⟨id, false, TokenView.empty, some error.message⟩
    else .error (.ledger error)

/-- Resolves a token query. -/
def resolveToken (client : Client) (q : Query) : Resolution TokenAnswer :=
  match q.request with
  | .application _ => ⟨.error (.wrongKind .token .application), []⟩
  | .token requested =>
    .ask client (.token q.id) fun answer => ⟨TokenAnswer.ofAnswer q.id requested answer, []⟩

end LedgerUri
