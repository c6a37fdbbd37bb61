/-!
# 64-bit floating point patterns

A pattern is a sign bit, eleven exponent bits and 52 fraction bits. `value` reads it as an exact
number `± mantissa · 2 ^ exponent`, an infinity, or no number. Nothing here computes with machine
floats, so every statement about a pattern is one about integers.

* `Value.fract` — what a value has after the point;
* `Value.compare?` — the order of values, in which NaN has no place;
* `Value.ofNat`, `Value.toUInt64` — from a natural number, rounded, and to one of 64 bits, clamped.
-/

namespace LedgerUri

/-- A 64-bit floating point number, as its bit pattern. -/
structure Binary64 where
  /-- sign, exponent and fraction, from the top bit down -/
  bits : UInt64
deriving DecidableEq

namespace Binary64

/-- What a pattern denotes. -/
inductive Value
  /-- no number -/
  | nan
  /-- an infinity -/
  | infinite (negative : Bool)
  /-- exactly `mantissa · 2 ^ exponent`, below zero if `negative` -/
  | finite (negative : Bool) (mantissa : Nat) (exponent : Int)
deriving DecidableEq

/-- The mantissa of the least normal number of each binade. -/
def hiddenBit : Nat := Nat.pow 2 52

/-- The exponent of the subnormal numbers and of the first binade. -/
def minExponent : Int := -1074

/-- Reads a pattern. -/
def value (x : Binary64) : Value :=
  let n := x.bits.toNat
  let negative := decide (n / Nat.pow 2 63 = 1)
  let biased := n / Nat.pow 2 52 % Nat.pow 2 11
  let fraction := n % Nat.pow 2 52
  if biased = Nat.pow 2 11 - 1 then
    if fraction = 0 then .infinite negative else .nan
  else if biased = 0 then .finite negative fraction minExponent
  else .finite negative (hiddenBit + fraction) (minExponent + (biased - 1 : Nat))

namespace Value

/-- Zero, without a sign. -/
def zero : Value := finite false 0 minExponent

/-- Whether there is a number: neither an infinity nor NaN. -/
def isFinite : Value → Bool
  | finite .. => true
  | _ => false

/-- What a number has after the point, with the number's sign. It has the exponent of the number
and no larger mantissa, so it is exact. An infinity less itself is no number. -/
def fract : Value → Value
  | finite negative mantissa exponent =>
    finite negative (mantissa % Nat.pow 2 (-exponent).toNat) exponent
  | _ => nan

/-- The number `± mantissa · 2 ^ exponent` in units of `2 ^ unit`, for a unit that divides it. -/
def inUnits (unit : Int) (negative : Bool) (mantissa : Nat) (exponent : Int) : Int :=
  let magnitude : Int := (mantissa * Nat.pow 2 (exponent - unit).toNat : Nat)
  if negative then -magnitude else magnitude

/-- The order of two values. NaN is in no order with anything, and both zeros are equal. -/
def compare? : Value → Value → Option Ordering
  | nan, _ => none
  | _, nan => none
  | infinite negative, infinite negative' => some (compare negative' negative)
  | infinite negative, finite .. => some (if negative then .lt else .gt)
  | finite .., infinite negative => some (if negative then .gt else .lt)
  | finite negative mantissa exponent, finite negative' mantissa' exponent' =>
    let unit := min exponent exponent'
    some (compare (inUnits unit negative mantissa exponent)
      (inUnits unit negative' mantissa' exponent'))

/-- Whether two values are equal as numbers. -/
def eq (v w : Value) : Bool := v.compare? w = some .eq

/-- Whether a value is less than another. -/
def lt (v w : Value) : Bool := v.compare? w = some .lt

/-- Whether a value is less than another, or equal to it. -/
def le (v w : Value) : Bool := v.lt w || v.eq w

/-- The value of 53 significant bits that is nearest to a natural number, of two equally near ones
the one with an even mantissa. -/
def ofNat (n : Nat) : Value :=
  let dropped := n.log2 - 52
  let kept := n / Nat.pow 2 dropped
  let lost := n % Nat.pow 2 dropped
  let half := Nat.pow 2 dropped / 2
  -- With nothing dropped nothing is lost, and there is no half to be above.
  let up := half < lost ∨ (0 < lost ∧ lost = half ∧ kept % 2 = 1)
  finite false (if up then kept + 1 else kept) dropped

/-- A value without what it has after the point, or the end of the range of 64 bits that is next to
it. NaN becomes zero. -/
def toUInt64 : Value → UInt64
  | nan => 0
  | infinite negative => if negative then 0 else UInt64.ofNat (UInt64.size - 1)
  | finite negative mantissa exponent =>
    let magnitude := mantissa * Nat.pow 2 exponent.toNat / Nat.pow 2 (-exponent).toNat
    if negative then 0 else UInt64.ofNat (min magnitude (UInt64.size - 1))

end Value

end Binary64

end LedgerUri
