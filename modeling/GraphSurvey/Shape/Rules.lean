import GraphSurvey.Shape.Error

/-!
# Shapes of results

The shape of the result of an operation, from the shapes of its operands. An elementwise operation
aligns its operands at their last axes and stretches extents of one. A dense layer replaces the last
extent, flattening keeps the first one and multiplies the others, and a concatenation adds the
extents of one axis.

## Main definitions

* `GraphSurvey.Shape.broadcast`, `GraphSurvey.Shape.dense`, `GraphSurvey.Shape.biasAdd`,
  `GraphSurvey.Shape.flatten`, `GraphSurvey.Shape.reshape`, `GraphSurvey.Shape.concatenate`.
-/

namespace GraphSurvey.Shape

/-- The common extent of two aligned axes. -/
def joinExtent (a b : Nat) : Option Nat :=
  if a = b then some a else if a = 1 then some b else if b = 1 then some a else none

/-- The common shape of two shapes, given with their last axes first. -/
def joinReversed : Shape → Shape → Option Shape
  | [], rhs => some rhs
  | lhs, [] => some lhs
  | a :: lhs, b :: rhs =>
    match joinExtent a b with
    | none => none
    | some c => (joinReversed lhs rhs).map (c :: ·)

/-- The shape of an elementwise operation. -/
def broadcast (op : String) (lhs rhs : Shape) : Except BuildError Shape :=
  match joinReversed lhs.reverse rhs.reverse with
  | some s => .ok s.reverse
  | none => .error (.incompatibleShapes op lhs rhs)

/-- The shape of a dense layer: `[.., k]` and `[n, k]` give `[.., n]`. -/
def dense (data weight : Shape) : Except BuildError Shape :=
  match weight with
  | [units, width] =>
    if data.getLast? = some width then .ok (data.dropLast ++ [units])
    else .error (.incompatibleShapes "dense" data weight)
  | _ => .error (.invalidRank "dense" 2 weight.length)

/-- The shape of adding a row of numbers along an axis. -/
def biasAdd (data bias : Shape) (axis : Nat) : Except BuildError Shape :=
  match bias with
  | [width] =>
    if data[axis]? = some width then .ok data
    else .error (.incompatibleShapes "bias_add" data bias)
  | _ => .error (.invalidRank "bias_add" 1 bias.length)

/-- The shape of putting all axes but the first one into one. -/
def flatten : Shape → Except BuildError Shape
  | [] => .error (.invalidRank "batch_flatten" 1 0)
  | batch :: rest => .ok [batch, size rest]

/-- The shape of giving the elements another shape. -/
def reshape (data target : Shape) : Except BuildError Shape :=
  if size data = size target then .ok target
  else .error (.incompatibleShapes "reshape" data target)

/-- The shapes have the same rank and the same extents except along the axis. -/
def agreeOff (axis : Nat) (lhs rhs : Shape) : Bool :=
  lhs.length = rhs.length && (lhs.zip rhs).zipIdx.all fun e => e.2 = axis || e.1.1 = e.1.2

/-- Puts further shapes behind the first one along an axis, `sum` being the shape so far. -/
def concatenateFrom (first : Shape) (axis : Nat) : Shape → List Shape → Except BuildError Shape
  | sum, [] => .ok sum
  | sum, s :: rest =>
    if agreeOff axis s first then
      concatenateFrom first axis (sum.set axis (sum.getD axis 0 + s.getD axis 0)) rest
    else .error (.incompatibleShapes "concatenate" first s)

/-- The shape of putting tensors behind each other along an axis. -/
def concatenate (parts : List Shape) (axis : Nat) : Except BuildError Shape :=
  match parts with
  | [] => .error .emptyConcat
  | first :: rest =>
    if axis < first.length then concatenateFrom first axis first rest
    else .error (.invalidRank "concatenate" (axis + 1) first.length)

end GraphSurvey.Shape
