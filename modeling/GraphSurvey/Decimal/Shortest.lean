import GraphSurvey.Decimal.Binary

/-!
# Shortest decimals

The decimal of fewest digits among those that round to a given binary number. The decimals with
`n` significant digits form a grid; of a grid only the two neighbours of the number matter, since
the decimals that round to it form an interval around it. The first grid, `n = 1, 2, 3, …`, with a
neighbour in the interval wins, and of two such neighbours the nearer.

## Main definitions

* `GraphSurvey.Decimal` — a coefficient and a power of ten.
* `GraphSurvey.Binary.shortest` — the shortest decimal that rounds to a finite number.
-/

namespace GraphSurvey

/-- The decimal `coefficient * 10 ^ power`. -/
structure Decimal where
  coefficient : Nat
  power : Int
  deriving DecidableEq, Repr

/-- The neighbour taken when a number lies exactly between two decimals of equal length. -/
inductive Halfway where
  | toEven
  | up
  deriving DecidableEq, Repr

namespace Decimal

/-- The digits of the coefficient. -/
def digits (d : Decimal) : List Char := Nat.toDigits 10 d.coefficient

/-- The power of ten of the first digit. -/
def leadingPower (d : Decimal) : Int := d.power + d.digits.length - 1

end Decimal

/-- The digits of a coefficient without the zeros at its end, and how many these are. -/
def trimZeros (digits : List Char) : List Char × Nat :=
  let kept := (digits.reverse.dropWhile (· = '0')).reverse
  (kept, digits.length - kept.length)

/-- The power of ten of the first digit of the positive quotient `num / den`. -/
def leadingPower (num den : Nat) : Int :=
  if den ≤ num then (Nat.toDigits 10 (num / den)).length - 1
  else -((Nat.toDigits 10 ((den + num - 1) / num - 1)).length : Int)

namespace Binary

variable {f : BinaryFormat}

/-- A positive number and the ends of the interval of the reals that round to it, over one
denominator. The ends belong to the interval iff `closed`. -/
structure Interval where
  low : Nat
  mid : Nat
  high : Nat
  den : Nat
  closed : Bool

/-- The interval of the reals that round to a finite positive number. Below a power of two the next
smaller number is only half as far away as the next greater one. -/
def interval (x : Binary f) : Interval where
  low := (4 * x.significand - if x.word % f.fractions = 0 ∧ 0 < x.scale then 1 else 2) <<< x.scale
  mid := (4 * x.significand) <<< x.scale
  high := (4 * x.significand + 2) <<< x.scale
  den := 4 * f.unitsPerOne
  closed := x.significand % 2 = 0

/-- The better neighbour of the number on the grid of the multiples of `10 ^ power`, if one of them
lies in the interval. -/
def Interval.onGrid (i : Interval) (half : Halfway) (power : Int) : Option Nat :=
  let step := i.den * Nat.pow 10 power.toNat
  let unit := Nat.pow 10 (-power).toNat
  let inside := fun d =>
    if i.closed then i.low * unit ≤ d * step ∧ d * step ≤ i.high * unit
    else i.low * unit < d * step ∧ d * step < i.high * unit
  let below := i.mid * unit / step
  let twice := 2 * (i.mid * unit)
  let middle := (2 * below + 1) * step
  if inside below then
    if inside (below + 1) then
      if twice < middle then some below
      else if middle < twice then some (below + 1)
      else match half with
        | .toEven => some (below + below % 2)
        | .up => some (below + 1)
    else some below
  else if inside (below + 1) then some (below + 1)
  else none

/-- The first grid with a neighbour in the interval, among the next `count` grids from the given
power of ten downwards. -/
def Interval.search (i : Interval) (half : Halfway) : Nat → Int → Decimal
  | 0, power => ⟨i.mid / i.den, power⟩
  | count + 1, power =>
    match i.onGrid half power with
    | some d => ⟨d, power⟩
    | none => i.search half count (power - 1)

/-- The shortest decimal that rounds to a finite number, without its sign. A number with `p` bits
needs at most `p / 3 + 3` digits. -/
def shortest (half : Halfway) (x : Binary f) : Decimal :=
  if x.word = 0 then ⟨0, 0⟩
  else x.interval.search half (f.fractionBits / 3 + 3) (leadingPower x.interval.mid x.interval.den)

end Binary

end GraphSurvey
