import LedgerUri.Decimal.Numeral
import LedgerUri.Json.Value
import LedgerUri.Text.Hex

/-!
# JSON text: writing

Values are written without blanks, and text as it is: only quotes, backslashes and control
characters are escaped.
-/

namespace LedgerUri.Json

/-- A character inside a string. -/
def escapeChar (c : Char) : List Char :=
  if c = '"' then ['\\', '"']
  else if c = '\\' then ['\\', '\\']
  else if c.toNat < 0x20 then '\\' :: 'u' :: '0' :: '0' :: Text.hexDigits [UInt8.ofNat c.toNat]
  else [c]

/-- A string with its quotes. -/
def quote (text : String) : String :=
  String.ofList ('"' :: (text.toList.flatMap escapeChar ++ ['"']))

mutual

/-- The text of a value. -/
def print : Json → String
  | null => "null"
  | bool value => if value then "true" else "false"
  | nat value => Decimal.numeral value
  | number literal => literal
  | str value => quote value
  | arr items => "[" ++ printItems items ++ "]"
  | obj members => "\x7b" ++ printMembers members ++ "\x7d"

/-- The items of an array, with commas between them. -/
def printItems : List Json → String
  | [] => ""
  | [item] => print item
  | item :: items => print item ++ "," ++ printItems items

/-- The members of an object, with commas between them. -/
def printMembers : List (String × Json) → String
  | [] => ""
  | [(name, value)] => quote name ++ ":" ++ print value
  | (name, value) :: members => quote name ++ ":" ++ print value ++ "," ++ printMembers members

end

end LedgerUri.Json
