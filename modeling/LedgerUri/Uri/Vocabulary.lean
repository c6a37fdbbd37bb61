/-!
# The words of a URI

The fixed texts that every reader and writer of URIs shares, apart from those that belong to a
resource kind, a key parameter or a token field.
-/

namespace LedgerUri.Uri

/-- The scheme. -/
def scheme : String := "algorand"

/-- The scheme with its colon, which every URI starts with. -/
def schemeStart : String := scheme ++ ":"

/-- The scheme as a well-formed URI starts, up to its path. -/
def pathStart : String := schemeStart ++ "//"

/-- The parameter that holds the address a local key is read from. -/
def addressParam : String := "algorandaddress"

/-- The bare parameter that requests program code. -/
def programParam : String := "tealcode"

end LedgerUri.Uri
