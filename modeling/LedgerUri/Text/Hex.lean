/-!
# Hexadecimal

Byte strings as lower-case hexadecimal text, and the value of one digit in either case.
-/

namespace LedgerUri.Text

/-- The value of a hexadecimal digit, in either case. -/
def hexValue? (c : Char) : Option Nat :=
  if '0' ≤ c ∧ c ≤ '9' then some (c.toNat - '0'.toNat)
  else if 'a' ≤ c ∧ c ≤ 'f' then some (c.toNat - 'a'.toNat + 10)
  else if 'A' ≤ c ∧ c ≤ 'F' then some (c.toNat - 'A'.toNat + 10)
  else none

/-- Two digits per byte, the high half first. -/
def hexDigits (bytes : List UInt8) : List Char :=
  bytes.flatMap fun b => [Nat.digitChar (b.toNat / 16), Nat.digitChar (b.toNat % 16)]

/-- The lower-case hexadecimal text of a byte string. -/
def hex (bytes : List UInt8) : String :=
  String.ofList (hexDigits bytes)

/-- Reads hexadecimal text; refuses an odd digit at the end and anything that is no digit. -/
def ofHexDigits? : List Char → Option (List UInt8)
  | [] => some []
  | [_] => none
  | high :: low :: rest => do
    let h ← hexValue? high
    let l ← hexValue? low
    let bytes ← ofHexDigits? rest
    return UInt8.ofNat (16 * h + l) :: bytes

/-- The byte string that a hexadecimal text spells. -/
def ofHex? (text : String) : Option (List UInt8) :=
  ofHexDigits? text.toList

end LedgerUri.Text
