/-!
# Decimal numerals

A natural number as a run of ASCII digits, and the number that such a run spells. Leading zeros
do not change the value.
-/

namespace LedgerUri.Decimal

/-- The digits of a number, without superfluous zeros. -/
def digits (n : Nat) : List Char :=
  Nat.toDigits 10 n

/-- The numeral of a number. -/
def numeral (n : Nat) : String :=
  String.ofList (digits n)

/-- The number that a run of digits spells; the empty run spells zero. -/
def value (run : List Char) : Nat :=
  Nat.ofDigitChars 10 run 0

theorem value_digits (n : Nat) : value (digits n) = n :=
  Nat.ofDigitChars_ten_toDigits

/-- The numeral of an integer, with `-` in front of a negative one. -/
def signedNumeral (n : Int) : String :=
  if n < 0 then "-" ++ numeral n.natAbs else numeral n.natAbs

end LedgerUri.Decimal
