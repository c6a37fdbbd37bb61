import LedgerUri.Decimal.Binary64
import LedgerUri.Decimal.Numeral

/-!
# The shortest decimal of a float

A float is written with the fewest digits that read back as the same float. Those are found on
decimal grids: the multiples of a power of ten. The coarsest grid with a point in the interval of
reals that round to the float has the fewest digits, and of its points in the interval the one
nearest to the float is taken.

* `Rounding` — the float and the interval around it, in quarters of its last binary place;
* `shortest` — the digits and the power of ten;
* `Binary64.text` — the digits written out without an exponent, however many zeros that takes.
-/

namespace LedgerUri.Decimal

/-- A positive float with the reals that round to it, all in units of `2 ^ exponent`. -/
structure Rounding where
  /-- the binary exponent of the unit -/
  exponent : Int
  /-- the float itself -/
  center : Nat
  /-- the lower end of the interval -/
  low : Nat
  /-- the upper end of the interval -/
  high : Nat
  /-- whether the ends round to the float too -/
  closed : Bool

/-- The interval of `mantissa · 2 ^ exponent`. It reaches half way to both neighbours. Below the
first number of a binade the neighbour is half as far away, except at the bottom of the range. A
real half way rounds to the even mantissa. -/
def Rounding.of (mantissa : Nat) (exponent : Int) : Rounding :=
  let narrow := mantissa = Binary64.hiddenBit ∧ exponent ≠ Binary64.minExponent
  { exponent := exponent - 2
    center := 4 * mantissa
    low := 4 * mantissa - if narrow then 1 else 2
    high := 4 * mantissa + 2
    closed := mantissa % 2 = 0 }

/-- The point of the grid of multiples of `10 ^ k` that lies in the interval and nearest to its
center, the upper one of two equally near. It is given as the multiple. -/
def Rounding.onGrid? (r : Rounding) (k : Int) : Option Nat :=
  -- Both the unit and the grid step are scaled to integers.
  let unit := Nat.pow 2 r.exponent.toNat * Nat.pow 10 (-k).toNat
  let step := Nat.pow 10 k.toNat * Nat.pow 2 (-r.exponent).toNat
  let inside (n : Nat) : Bool :=
    if r.closed then r.low * unit ≤ n * step ∧ n * step ≤ r.high * unit
    else r.low * unit < n * step ∧ n * step < r.high * unit
  let below := r.center * unit / step
  let nearerBelow := 2 * (r.center * unit % step) < step
  if inside below ∧ (nearerBelow ∨ ¬ inside (below + 1)) then some below
  else if inside (below + 1) then some (below + 1)
  else none

/-- Tries finer and finer grids, from `10 ^ k` down. -/
def Rounding.coarsest (r : Rounding) : (grids : Nat) → (k : Int) → Nat × Int
  | 0, k => (0, k)
  | grids + 1, k =>
    match r.onGrid? k with
    | some multiple => (multiple, k)
    | none => r.coarsest grids (k - 1)

/-- The shortest decimal `digits · 10 ^ k` that reads back as `mantissa · 2 ^ exponent`. Every
float is below `10 ^ 309`, and no two floats are closer than a step of `10 ^ -324`. -/
def shortest (mantissa : Nat) (exponent : Int) : Nat × Int :=
  (Rounding.of mantissa exponent).coarsest 634 309

/-- Writes `n · 10 ^ k` without an exponent. -/
def positional (n : Nat) (k : Int) : List Char :=
  let run := digits n
  if 0 ≤ k then run ++ List.replicate k.toNat '0'
  else
    let places := (-k).toNat
    if places < run.length then
      run.take (run.length - places) ++ '.' :: run.drop (run.length - places)
    else '0' :: '.' :: (List.replicate (places - run.length) '0' ++ run)

end LedgerUri.Decimal

namespace LedgerUri.Binary64

/-- The text of a float: its shortest decimal, written out in full. Zero keeps its sign. -/
def text (x : Binary64) : String :=
  match x.value with
  | .nan => "NaN"
  | .infinite negative => if negative then "-inf" else "inf"
  | .finite negative mantissa exponent =>
    let magnitude :=
      if mantissa = 0 then ['0']
      else
        let (n, k) := Decimal.shortest mantissa exponent
        Decimal.positional n k
    String.ofList (if negative then '-' :: magnitude else magnitude)

end LedgerUri.Binary64
