import LedgerUri.Decimal.Numeral
import LedgerUri.Json.Value
import LedgerUri.Text.Hex

/-!
# JSON text: reading

Reads one value and whatever stands after it. Of several members with one name the last counts.
A number is kept as its literal unless that is a run of digits; which literals make sense is left
to those who read numbers.
-/

namespace LedgerUri.Json

/-- The text after blanks. -/
def skipBlank (text : List Char) : List Char :=
  text.dropWhile fun c => c = ' ' ∨ c = '\t' ∨ c = '\n' ∨ c = '\r'

/-- The number that four hexadecimal digits spell. -/
def hexQuad? (digits : List Char) : Option Nat :=
  (digits.mapM Text.hexValue?).map fun values => values.foldl (fun n v => 16 * n + v) 0

/-- The character of two surrogates, the high one first. -/
def ofSurrogates (high low : Nat) : Char :=
  Char.ofNat (0x10000 + (high - 0xD800) * 0x400 + (low - 0xDC00))

/-- The character that a letter stands for after a backslash. -/
def escaped? (letter : Char) : Option Char :=
  match letter with
  | '"' | '\\' | '/' => some letter
  | 'b' => some (Char.ofNat 0x08)
  | 'f' => some (Char.ofNat 0x0C)
  | 'n' => some '\n'
  | 'r' => some '\r'
  | 't' => some '\t'
  | _ => none

/-- Reads the rest of a string after its opening quote. A surrogate stands for nothing alone. -/
def readChars : List Char → Option (List Char × List Char)
  | [] => none
  | '"' :: rest => some ([], rest)
  | '\\' :: 'u' :: a :: b :: c :: d :: rest => do
    let code ← hexQuad? [a, b, c, d]
    if 0xDC00 ≤ code ∧ code < 0xE000 then none
    else if 0xD800 ≤ code ∧ code < 0xDC00 then
      match rest with
      | '\\' :: 'u' :: e :: f :: g :: h :: rest =>
        let low ← hexQuad? [e, f, g, h]
        if 0xDC00 ≤ low ∧ low < 0xE000 then
          let (chars, rest) ← readChars rest
          return (ofSurrogates code low :: chars, rest)
        else none
      | _ => none
    else
      let (chars, rest) ← readChars rest
      return (Char.ofNat code :: chars, rest)
  | '\\' :: letter :: rest => do
    let char ← escaped? letter
    let (chars, rest) ← readChars rest
    return (char :: chars, rest)
  | char :: rest => do
    let (chars, rest) ← readChars rest
    return (char :: chars, rest)

/-- The characters of number literals. -/
def isNumberChar (c : Char) : Bool :=
  c.isDigit || c = '-' || c = '+' || c = '.' || c = 'e' || c = 'E'

/-- Reads a number. -/
def readNumber (text : List Char) : Option (Json × List Char) :=
  let literal := text.takeWhile isNumberChar
  let rest := text.dropWhile isNumberChar
  if literal.isEmpty then none
  else if literal.all Char.isDigit then some (nat (Decimal.value literal), rest)
  else some (number (String.ofList literal), rest)

mutual

/-- Reads a value; `fuel` bounds the nesting and the number of items. -/
def readValue : (fuel : Nat) → List Char → Option (Json × List Char)
  | 0, _ => none
  | fuel + 1, text =>
    match skipBlank text with
    | 'n' :: 'u' :: 'l' :: 'l' :: rest => some (null, rest)
    | 't' :: 'r' :: 'u' :: 'e' :: rest => some (bool true, rest)
    | 'f' :: 'a' :: 'l' :: 's' :: 'e' :: rest => some (bool false, rest)
    | '"' :: rest => (readChars rest).map fun (chars, rest) => (str (String.ofList chars), rest)
    | '[' :: rest =>
      match skipBlank rest with
      | ']' :: rest => some (arr [], rest)
      | rest => (readItems fuel rest).map fun (items, rest) => (arr items, rest)
    | '{' :: rest =>
      match skipBlank rest with
      | '}' :: rest => some (obj [], rest)
      | rest => (readMembers fuel rest).map fun (members, rest) => (obj members, rest)
    | text => readNumber text

/-- Reads the items of an array, of which there is at least one, and its closing bracket. -/
def readItems : (fuel : Nat) → List Char → Option (List Json × List Char)
  | 0, _ => none
  | fuel + 1, text => do
    let (item, rest) ← readValue fuel text
    match skipBlank rest with
    | ',' :: rest =>
      let (items, rest) ← readItems fuel rest
      return (item :: items, rest)
    | ']' :: rest => return ([item], rest)
    | _ => none

/-- Reads the members of an object, of which there is at least one, and its closing brace. -/
def readMembers : (fuel : Nat) → List Char → Option (List (String × Json) × List Char)
  | 0, _ => none
  | fuel + 1, text => do
    let '"' :: rest := skipBlank text | none
    let (chars, rest) ← readChars rest
    let name := String.ofList chars
    let ':' :: rest := skipBlank rest | none
    let (value, rest) ← readValue fuel rest
    match skipBlank rest with
    | ',' :: rest =>
      let (members, rest) ← readMembers fuel rest
      if (List.lookup name members).isSome then return (members, rest)
      else return ((name, value) :: members, rest)
    | '}' :: rest => return ([(name, value)], rest)
    | _ => none

end

/-- The value that a text spells. Nothing but blanks may follow it. Every two steps of reading take
a character away. -/
def parse? (text : String) : Option Json := do
  let chars := text.toList
  let (value, rest) ← readValue (2 * chars.length + 2) chars
  if (skipBlank rest).isEmpty then return value else none

end LedgerUri.Json
