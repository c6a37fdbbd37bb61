/-!
# Base64 alphabets

Both alphabets share the letters and digits and differ in their last two symbols. A symbol stands
for six bits, and `value?_symbol` says that they are read back from it.
-/

namespace LedgerUri.Base64

/-- The 64 symbols that six bits are written with. -/
inductive Alphabet
  /-- ends in `-` and `_`, safe inside a URI -/
  | urlSafe
  /-- ends in `+` and `/` -/
  | standard
deriving DecidableEq

namespace Alphabet

/-- The symbols of the values 62 and 63. -/
def lastTwo : Alphabet → Char × Char
  | urlSafe => ('-', '_')
  | standard => ('+', '/')

/-- The symbol of a six-bit value. -/
def symbol (α : Alphabet) (v : Nat) : Char :=
  if v < 26 then Char.ofNat ('A'.toNat + v)
  else if v < 52 then Char.ofNat ('a'.toNat + (v - 26))
  else if v < 62 then Char.ofNat ('0'.toNat + (v - 52))
  else if v = 62 then α.lastTwo.1
  else α.lastTwo.2

/-- The six-bit value of a symbol. -/
def value? (α : Alphabet) (c : Char) : Option Nat :=
  if c.isUpper then some (c.toNat - 'A'.toNat)
  else if c.isLower then some (c.toNat - 'a'.toNat + 26)
  else if c.isDigit then some (c.toNat - '0'.toNat + 52)
  else if c = α.lastTwo.1 then some 62
  else if c = α.lastTwo.2 then some 63
  else none

/-- Six bits are read back from their symbol. -/
theorem value?_symbol (α : Alphabet) {v : Nat} (h : v < 64) : α.value? (α.symbol v) = some v := by
  have hall : ∀ w < 64, α.value? (α.symbol w) = some w := by cases α <;> decide
  exact hall v h

/-- Whether the character is one of the 64 symbols. -/
def has (α : Alphabet) (c : Char) : Bool :=
  (α.value? c).isSome

end Alphabet

end LedgerUri.Base64
