import LedgerUri.Address
import LedgerUri.Resource.Kind
import LedgerUri.Token.FieldSet

/-!
# What a URI asks for

An application is asked for boxes, global state, local state and program code; a token for some of
its fields. Keys are base64url text and keep the order and repetitions in which they were given.
-/

namespace LedgerUri

/-- One key of local state, with the account that it is read from. -/
structure LocalRequest where
  /-- base64url text of the key -/
  key : String
  /-- the account -/
  address : Address
deriving DecidableEq

/-- What is asked of an application. -/
structure ApplicationRequest where
  /-- keys of boxes -/
  boxKeys : List String
  /-- keys of global state -/
  globalKeys : List String
  /-- keys of local state -/
  localReads : List LocalRequest
  /-- whether the programs are wanted -/
  programs : Bool
deriving DecidableEq

namespace ApplicationRequest

/-- Asks for nothing. -/
def empty : ApplicationRequest := ⟨[], [], [], false⟩

instance : EmptyCollection ApplicationRequest := ⟨empty⟩

instance : Inhabited ApplicationRequest := ⟨empty⟩

/-- Whether nothing is asked for. -/
def isEmpty (r : ApplicationRequest) : Bool :=
  r.boxKeys.isEmpty && r.globalKeys.isEmpty && r.localReads.isEmpty && !r.programs

/-- Asks for one more box. -/
def addBox (r : ApplicationRequest) (key : String) : ApplicationRequest :=
  { r with boxKeys := r.boxKeys ++ [key] }

/-- Asks for one more key of global state. -/
def addGlobal (r : ApplicationRequest) (key : String) : ApplicationRequest :=
  { r with globalKeys := r.globalKeys ++ [key] }

/-- Asks for one more key of local state. -/
def addLocal (r : ApplicationRequest) (key : String) (address : Address) : ApplicationRequest :=
  { r with localReads := r.localReads ++ [⟨key, address⟩] }

/-- Asks for the programs. -/
def addPrograms (r : ApplicationRequest) : ApplicationRequest :=
  { r with programs := true }

end ApplicationRequest

/-- What is asked of a resource. -/
inductive Request
  | application (request : ApplicationRequest)
  | token (fields : TokenFieldSet)
deriving DecidableEq

namespace Request

/-- The kind of resource that can be asked this. -/
def kind : Request → ResourceKind
  | application _ => .application
  | token _ => .token

/-- What is asked of an application. -/
def application? : Request → Option ApplicationRequest
  | application request => some request
  | token _ => none

/-- What is asked of a token. -/
def token? : Request → Option TokenFieldSet
  | application _ => none
  | token fields => some fields

end Request

end LedgerUri
