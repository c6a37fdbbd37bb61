import LedgerUri.Error
import LedgerUri.Text.Percent
import LedgerUri.Text.Split

/-!
# Query entries

The query of a URI is the text after its first `?`. It is a list of entries `name` or
`name=value`, separated by `&` or `?`; empty pieces between separators are no entries. Names and
values are percent-decoded. A bare name is told apart from an empty value.
-/

namespace LedgerUri.Uri

/-- One entry of a query, decoded. -/
structure Entry where
  /-- the parameter -/
  name : String
  /-- the value; `none` for a bare name -/
  value : Option String
deriving DecidableEq

namespace Entry

/-- The value, empty for a bare name. -/
def valueText (e : Entry) : String :=
  e.value.getD ""

/-- Writes an entry as it stands, without escapes. -/
def write (e : Entry) : List Char :=
  match e.value with
  | none => e.name.toList
  | some v => e.name.toList ++ '=' :: v.toList

end Entry

/-- The characters that separate entries. -/
def isSeparator (c : Char) : Bool :=
  c = '&' ∨ c = '?'

/-- Decodes a name or value; a failure names it as it was written. -/
def decodePart (raw : List Char) : Except UriError.Cause String :=
  match Text.percentDecode? raw with
  | some text => .ok text
  | none => .error (.badEscape (String.ofList raw))

/-- Reads one entry: the first `=` ends the name, and the name is decoded before the value. -/
def readEntry (raw : List Char) : Except UriError.Cause Entry :=
  match Text.cutFirst? '=' raw with
  | none => do
    let name ← decodePart raw
    return ⟨name, none⟩
  | some (rawName, rawValue) => do
    let name ← decodePart rawName
    let value ← decodePart rawValue
    return ⟨name, some value⟩

/-- Reads the entries of a query, from left to right. -/
def readEntries (query : List Char) : Except UriError.Cause (List Entry) :=
  (Text.pieces isSeparator query).mapM readEntry

/-- The query of a URI; empty when there is none. -/
def queryPart (uri : List Char) : List Char :=
  match Text.cutFirst? '?' uri with
  | some (_, query) => query
  | none => []

/-- Writes a query with its leading `?`; without entries there is no query. -/
def writeQuery (entries : List Entry) : List Char :=
  if entries.isEmpty then [] else '?' :: List.intercalate ['&'] (entries.map Entry.write)

/-- The values of the entries with a given name, in order. -/
def valuesOf (name : String) (entries : List Entry) : List String :=
  (entries.filter fun e => e.name = name).map Entry.valueText

/-- The number of entries with a given name. -/
def countOf (name : String) (entries : List Entry) : Nat :=
  entries.countP fun e => e.name = name

/-- Whether an entry has the given name. -/
def mentions (name : String) (entries : List Entry) : Bool :=
  entries.any fun e => e.name = name

end LedgerUri.Uri
