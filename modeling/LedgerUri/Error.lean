/-!
# What can be wrong with a URI

Each kind of failure is a value that holds the evidence; its wording is one function, `message`.

* `IdError`, `Base64Error`, `AddressError` — a resource id, a transported key, an address;
* `UriError` — a whole URI, or one of the parts above together with the text that was given.
-/

namespace LedgerUri

/-- Why a text or number is no resource id. -/
inductive IdError
  /-- there are no digits at all -/
  | noDigits
  /-- an integer below zero -/
  | negative (value : String)
  /-- no integer: a fraction, an infinity, or text that is no numeral -/
  | notInteger (value : String)
  /-- an integer of more than 64 bits -/
  | tooLarge (value : String)
deriving DecidableEq

/-- The wording of an id failure. -/
def IdError.message : IdError → String
  | noDigits => "no digits follow the resource marker"
  | negative value => s!"id {value} is negative"
  | notInteger value => s!"id {value} is not an integer"
  | tooLarge value => s!"id {value} exceeds the 64-bit range"

/-- Why a text is no base64url key. -/
inductive Base64Error
  /-- a character outside the alphabet, with its place -/
  | foreignChar (char : Char) (position : Nat)
  /-- a length that leaves a single symbol at the end -/
  | danglingSymbol (length : Nat)
  /-- bytes that are no UTF-8, where text was wanted -/
  | notUtf8
deriving DecidableEq

/-- The wording of a base64url failure. -/
def Base64Error.message : Base64Error → String
  | foreignChar char position =>
    s!"invalid character '{char}' at position {position}; allowed: A-Z, a-z, 0-9, '-', '_'"
  | danglingSymbol length => s!"length {length} cannot be produced by base64url encoding"
  | notUtf8 => "decoded bytes are not valid UTF-8"

/-- Why a text is no account address. -/
inductive AddressError
  /-- not the one length that addresses have -/
  | wrongLength (expected actual : Nat)
  /-- a character outside the alphabet, with its place -/
  | foreignChar (char : Char) (position : Nat)
deriving DecidableEq

/-- The wording of an address failure. -/
def AddressError.message : AddressError → String
  | wrongLength expected actual => s!"address has {actual} characters, expected {expected}"
  | foreignChar char position =>
    s!"invalid character '{char}' at position {position}; only A-Z and 2-7 allowed"

/-- The query parameters that carry a base64url key. -/
inductive KeyParam
  | boxKey
  | globalKey
  | localKey
deriving DecidableEq

/-- The parameter's name in a query. -/
def KeyParam.name : KeyParam → String
  | boxKey => "box"
  | globalKey => "global"
  | localKey => "local"

/-- The cause of a URI failure. -/
inductive UriError.Cause
  /-- the input is the empty text -/
  | empty
  /-- the scheme is another one, or there is none -/
  | foreignScheme (found : Option String)
  /-- no marker introduces a resource -/
  | noResource
  /-- the resource id is wrong -/
  | badId (error : IdError)
  /-- the key of a parameter is wrong -/
  | badKey (param : KeyParam) (error : Base64Error)
  /-- a key given on its own is wrong -/
  | notBase64 (error : Base64Error)
  /-- local keys without an address to read them from -/
  | noAddress (localCount : Nat)
  /-- an account address is wrong -/
  | badAddress (error : AddressError)
  /-- local keys and addresses that do not pair up -/
  | unpaired (locals addresses : Nat)
  /-- the path is no resource segment and id -/
  | badPath
  /-- a parameter that the resource does not have -/
  | foreignParam (name : String)
  /-- a value on a parameter that takes none -/
  | unwantedValue (name : String)
  /-- percent escapes that spell no UTF-8 -/
  | badEscape (value : String)
deriving DecidableEq

/-- The wording of a cause. -/
def UriError.Cause.message : UriError.Cause → String
  | empty => "input is empty"
  | foreignScheme (some found) => s!"expected scheme 'algorand:', found '{found}'"
  | foreignScheme none => "missing scheme; URI must start with 'algorand:'"
  | noResource => "resource type not found; expected '//app/<id>' or '//asset/<id>'"
  | badId error => "invalid resource id: " ++ error.message
  | badKey param error =>
    "invalid base64url value for '" ++ param.name ++ "': " ++ error.message
  | notBase64 error => "invalid base64url: " ++ error.message
  | noAddress localCount =>
    let verb := if localCount = 1 then "query requires" else "queries require"
    s!"{localCount} local storage {verb} an 'algorandaddress' parameter"
  | badAddress error => "invalid algorandaddress: " ++ error.message
  | unpaired locals addresses =>
    "strict pairing requires one 'algorandaddress' per 'local' key; " ++
      s!"found {locals} keys and {addresses} addresses"
  | badPath => "path must be 'app/<id>' or 'asset/<id>' directly after 'algorand://'"
  | foreignParam name => s!"unknown query parameter '{name}' for this resource type"
  | unwantedValue name => s!"query parameter '{name}' takes no value"
  | badEscape value => s!"invalid percent encoding in '{value}'"

/-- A failure together with the text that was given. -/
structure UriError where
  /-- the text that was read, or the printed value that was converted -/
  input : String
  /-- what is wrong with it -/
  cause : UriError.Cause
deriving DecidableEq

/-- The wording of a failure. -/
def UriError.message (error : UriError) : String :=
  "failed to parse ARC-82 URI '" ++ error.input ++ "': " ++ error.cause.message

end LedgerUri
