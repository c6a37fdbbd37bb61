/-!
# Kinds of resource

A URI names an application or a token. Each kind has a word in messages, a path segment and a
marker that introduces its id.
-/

namespace LedgerUri

/-- What a URI can name. -/
inductive ResourceKind
  | application
  | token
deriving DecidableEq

namespace ResourceKind

/-- The kind's word in messages and records. -/
def name : ResourceKind → String
  | application => "application"
  | token => "token"

/-- The kind's path segment. -/
def segment : ResourceKind → String
  | application => "app"
  | token => "asset"

/-- The text right before the kind's id. -/
def marker : ResourceKind → String
  | application => "//app/"
  | token => "//asset/"

/-- Both kinds, in the order in which they are tried. -/
def all : List ResourceKind := [application, token]

end ResourceKind

end LedgerUri
