import GraphSurvey.Decimal.Shortest

/-!
# Layouts of decimals

How a binary number is written with the digits of its shortest decimal: positionally, with at least
one digit on each side of the point, or as a coefficient and a power of ten.
-/

namespace GraphSurvey

/-- The choices of a way to write numbers. -/
structure Layout where
  /-- What is taken halfway between two shortest decimals. -/
  half : Halfway
  /-- The least power of ten of a first digit that is written positionally. -/
  least : Int
  /-- The greatest power of ten of a first digit that is written positionally. -/
  greatest : Int
  /-- A power of ten that is not negative is written with a plus sign. -/
  plus : Bool

namespace Layout

/-- Digits with the point after the first `point` of them, zeros filling the places up to it. -/
def positional (digits : List Char) (point : Int) : List Char :=
  let whole := if point ≤ 0 then ['0'] else
    digits.take point.toNat ++ List.replicate (point.toNat - digits.length) '0'
  let fraction := List.replicate (-point).toNat '0' ++ digits.drop point.toNat
  whole ++ '.' :: (if fraction.isEmpty then ['0'] else fraction)

/-- Digits with the point after the first one, and the power of ten of that one. No point is written
after a single digit. -/
def scientific (layout : Layout) (digits : List Char) (power : Int) : List Char :=
  let fraction := if digits.length ≤ 1 then [] else '.' :: digits.drop 1
  let sign := if power < 0 then ['-'] else if layout.plus then ['+'] else []
  digits.take 1 ++ fraction ++ 'e' :: sign ++ Nat.toDigits 10 power.natAbs

/-- A finite number, without its sign. -/
def magnitude {f : BinaryFormat} (layout : Layout) (x : Binary f) : List Char :=
  if x.isZero then ['0', '.', '0']
  else
    let d := x.shortest layout.half
    let power := d.leadingPower
    let digits := (trimZeros d.digits).1
    if layout.least ≤ power ∧ power ≤ layout.greatest then positional digits (power + 1)
    else layout.scientific digits power

/-- A finite number. -/
def write {f : BinaryFormat} (layout : Layout) (x : Binary f) : List Char :=
  if x.negative then '-' :: layout.magnitude x else layout.magnitude x

end Layout

end GraphSurvey
