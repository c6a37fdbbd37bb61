/-!
# Token fields

A token has eleven parameters. Their order here is the order in which a URI lists them.
-/

namespace LedgerUri

/-- A parameter of a token. -/
inductive TokenField
  | total
  | decimals
  | frozenDefault
  | unitName
  | assetName
  | url
  | metadataHash
  | manager
  | reserve
  | freeze
  | clawback
deriving DecidableEq

namespace TokenField

/-- Every field, in canonical order. -/
def all : List TokenField :=
  [total, decimals, frozenDefault, unitName, assetName, url, metadataHash, manager, reserve,
    freeze, clawback]

/-- The field's place in the canonical order. -/
def index : TokenField → Nat
  | total => 0
  | decimals => 1
  | frozenDefault => 2
  | unitName => 3
  | assetName => 4
  | url => 5
  | metadataHash => 6
  | manager => 7
  | reserve => 8
  | freeze => 9
  | clawback => 10

/-- The bare query key that requests the field. -/
def key : TokenField → String
  | total => "total"
  | decimals => "decimals"
  | frozenDefault => "frozen"
  | unitName => "unitname"
  | assetName => "assetname"
  | url => "url"
  | metadataHash => "metadatahash"
  | manager => "manager"
  | reserve => "reserve"
  | freeze => "freeze"
  | clawback => "clawback"

/-- The field's name in records. -/
def name : TokenField → String
  | total => "total"
  | decimals => "decimals"
  | frozenDefault => "frozenDefault"
  | unitName => "unitName"
  | assetName => "assetName"
  | url => "url"
  | metadataHash => "metadataHash"
  | manager => "manager"
  | reserve => "reserve"
  | freeze => "freeze"
  | clawback => "clawback"

/-- The field that a query key requests. -/
def ofKey? (key : String) : Option TokenField :=
  all.find? fun f => f.key = key

theorem mem_all (f : TokenField) : f ∈ all := by
  cases f <;> decide

theorem index_lt (f : TokenField) : f.index < 11 := by
  cases f <;> decide

theorem index_inj {f g : TokenField} : f.index = g.index ↔ f = g := by
  cases f <;> cases g <;> decide

end TokenField

end LedgerUri
