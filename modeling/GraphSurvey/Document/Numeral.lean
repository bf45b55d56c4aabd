import GraphSurvey.Decimal.Binary
import GraphSurvey.Word

/-!
# Numerals of documents

A numeral without fraction and exponent whose value fits a word of 64 bits, signed if it is
negative, is an integer. Every other numeral is a number of double precision: its first digits, as
many as fit an unsigned word of 64 bits, are rounded, then multiplied or divided by a power of ten
that is rounded itself, and the result is rounded once more. A numeral whose number would not be
finite is malformed.

## Main definitions

* `GraphSurvey.Fault` — the ways in which reading a document fails.
* `GraphSurvey.Numeral`, `GraphSurvey.Number` — a numeral as written, and what it stands for.
* `GraphSurvey.Numeral.number` — the number of a numeral.
-/

namespace GraphSurvey

/-- A way in which reading a document fails. -/
inductive Fault where
  /-- The text is no document. -/
  | malformed
  /-- The text ends too early. -/
  | truncated
  /-- The text is a document of another shape. -/
  | mismatch
  deriving DecidableEq, Repr

/-- A number in a document. -/
inductive Number where
  | natural (n : Nat)
  /-- The number `-n`. -/
  | negative (n : Nat)
  | real (x : Binary64)
  deriving DecidableEq, Repr

/-- A numeral as it is written. -/
structure Numeral where
  negative : Bool
  whole : List Char
  fraction : List Char
  /-- The sign of the exponent, `true` for minus, and its digits. -/
  exponent : Option (Bool × List Char)
  deriving DecidableEq, Repr

/-- The value of a decimal digit. -/
def digitValue (c : Char) : Nat := c.toNat - '0'.toNat

/-- The value of a row of decimal digits. -/
def digitsValue (digits : List Char) : Nat := digits.foldl (fun n c => 10 * n + digitValue c) 0

/-- The first digits of a numeral, and the power of ten that they are to be multiplied by. -/
structure Leading where
  digits : Nat
  power : Int
  deriving DecidableEq, Repr

namespace Leading

/-- Takes in the digits before the point. From the first digit on that does not fit, they only
raise the power. -/
def whole : Leading → List Char → Leading
  | l, [] => l
  | l, c :: cs =>
    if 10 * l.digits + digitValue c < wordBound then whole ⟨10 * l.digits + digitValue c, l.power⟩ cs
    else ⟨l.digits, l.power + (cs.length + 1)⟩

/-- Takes in the digits after the point. From the first digit on that does not fit, they are
passed over. -/
def fraction : Leading → List Char → Leading
  | l, [] => l
  | l, c :: cs =>
    if 10 * l.digits + digitValue c < wordBound then
      fraction ⟨10 * l.digits + digitValue c, l.power - 1⟩ cs
    else l

end Leading

/-- The greatest power of ten that is used as one factor. -/
def greatestFactor : Nat := 308

/-- Multiplies by a power of ten, in one step or, for powers below the least factor, by dividing by
the greatest factor as often as needed. There is no result if it is not finite. -/
def Binary64.scaleTen (x : Binary64) (power : Int) : Option Binary64 :=
  if power.natAbs ≤ greatestFactor then
    let factor : Binary64 := Binary.ofNat (Nat.pow 10 power.natAbs)
    let y := if 0 ≤ power then x.mul factor else x.div factor
    if y.isFinite then some y else none
  else if x.isZero then some x
  else if 0 ≤ power then none
  else Binary64.scaleTen (x.div (Binary.ofNat (Nat.pow 10 greatestFactor))) (power + greatestFactor)
termination_by power.natAbs
decreasing_by simp only [greatestFactor] at *; omega

namespace Numeral

/-- The power of ten that the exponent stands for. -/
def exponentValue (n : Numeral) : Int :=
  match n.exponent with
  | none => 0
  | some (true, digits) => -digitsValue digits
  | some (false, digits) => digitsValue digits

/-- The numeral as a number of double precision. -/
def real (n : Numeral) : Option Binary64 :=
  let leading := (Leading.whole ⟨0, 0⟩ n.whole).fraction n.fraction
  (Binary64.scaleTen (Binary.ofNat leading.digits) (leading.power + n.exponentValue)).map fun x =>
    if n.negative then x.neg else x

/-- The number that the numeral stands for. -/
def number (n : Numeral) : Except Fault Number :=
  let value := digitsValue n.whole
  if n.fraction = [] ∧ n.exponent = none ∧ n.negative = false ∧ value < wordBound then
    .ok (.natural value)
  else if n.fraction = [] ∧ n.exponent = none ∧ n.negative = true ∧ 0 < value ∧ value ≤ signedBound then
    .ok (.negative value)
  else match n.real with
    | some x => .ok (.real x)
    | none => .error .malformed

/-- The numeral as a text. -/
def text (n : Numeral) : List Char :=
  (if n.negative then ['-'] else []) ++ n.whole ++
    (if n.fraction = [] then [] else '.' :: n.fraction) ++
    match n.exponent with
    | none => []
    | some (negative, digits) => 'e' :: (if negative then ['-'] else []) ++ digits

end Numeral

end GraphSurvey
