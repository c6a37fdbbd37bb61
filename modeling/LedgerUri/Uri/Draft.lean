import LedgerUri.Uri.Writing

/-!
# Drafts

A draft collects a request piece by piece and is written at the end. Its URI depends on what was
collected only, so drafts and requests agree.
-/

namespace LedgerUri.Uri

/-- A URI of an application in the making. -/
structure ApplicationDraft where
  /-- the application -/
  id : ResourceId
  /-- what has been asked for so far -/
  request : ApplicationRequest

namespace ApplicationDraft

/-- A draft that asks for nothing yet. -/
def new (id : ResourceId) : ApplicationDraft := ⟨id, ∅⟩

/-- Adds a box. -/
def askBox (d : ApplicationDraft) (key : String) : ApplicationDraft :=
  { d with request.boxKeys := d.request.boxKeys ++ [key] }

/-- Adds a key of global state. -/
def askGlobal (d : ApplicationDraft) (key : String) : ApplicationDraft :=
  { d with request.globalKeys := d.request.globalKeys ++ [key] }

/-- Adds a key of local state. -/
def askLocal (d : ApplicationDraft) (key : String) (address : Address) : ApplicationDraft :=
  { d with request := d.request.addLocal key address }

/-- Adds a key of local state with an address that is still text. -/
def askLocalAt (d : ApplicationDraft) (key : String) (address : String) :
    Except UriError ApplicationDraft :=
  match Address.parse address with
  | .ok a => .ok (d.askLocal key a)
  | .error error => .error ⟨address, .badAddress error⟩

/-- Adds the programs. -/
def askPrograms (d : ApplicationDraft) : ApplicationDraft :=
  { d with request.programs := true }

/-- Writes the URI. -/
def write (d : ApplicationDraft) : Except UriError String :=
  buildApplication (.id d.id) d.request

end ApplicationDraft

/-- A URI of a token in the making. -/
structure TokenDraft where
  /-- the token -/
  id : ResourceId
  /-- the fields that have been asked for so far -/
  fields : TokenFieldSet

namespace TokenDraft

/-- A draft that asks for nothing yet. -/
def new (id : ResourceId) : TokenDraft := ⟨id, ∅⟩

/-- Adds a field. -/
def ask (d : TokenDraft) (f : TokenField) : TokenDraft :=
  { d with fields := d.fields.insert f }

/-- Adds every field. -/
def askAll (d : TokenDraft) : TokenDraft :=
  { d with fields := TokenFieldSet.full }

/-- Writes the URI. -/
def write (d : TokenDraft) : String :=
  Uri.write .token d.id (tokenEntries d.fields)

end TokenDraft

end LedgerUri.Uri
