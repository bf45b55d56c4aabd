import GraphSurvey.Pass.Basic

/-!
# Standard passes

The passes that every report uses: the operator of a call, its place in the order of visits, the
shapes of its result and of its arguments, chosen attributes, and how often each value of a field
occurs.

## Main definitions

* `GraphSurvey.Pass.opName`, `GraphSurvey.Pass.visitIndex`, `GraphSurvey.Pass.outputShape`,
  `GraphSurvey.Pass.inputShapes`, `GraphSurvey.Pass.attr`, `GraphSurvey.Pass.histogram`.
* `GraphSurvey.Pass.configured`, `GraphSurvey.Pass.standard` — the lists of passes.
-/

namespace GraphSurvey

namespace FieldName

/-- The field of the operator. -/
def op : String := "op"

/-- The field of the place in the order of visits. -/
def index : String := "index"

/-- The field of the shape of the result. -/
def outputShape : String := "output_shape"

/-- The field of the shapes of the arguments. -/
def inputShapes : String := "input_shapes"

end FieldName

namespace Pass

/-- Records the operator. -/
def opName : Pass :=
  extractor ⟨"op_name", [⟨FieldName.op, .text⟩], []⟩ fun _ _ c => Hook.write FieldName.op (.text c.op)

/-- Numbers the calls in the order of their visits. The state is the next number. -/
def visitIndex : Pass where
  access := ⟨"visit_index", [⟨FieldName.index, .int⟩], []⟩
  State := Int
  start := 0
  onCall _ _ _ next := do
    Hook.write FieldName.index (.int next)
    return next + 1
  onLeaf _ next := next
  onSummarize _ _ := none

/-- Records the result type of a call as nested sequences, or reports that it has no such form. -/
def outputShape : Pass :=
  extractor ⟨"output_shape", [⟨FieldName.outputShape, .seq⟩], []⟩ fun _ _ c =>
    match Value.ofType c.result with
    | some shape => Hook.write FieldName.outputShape shape
    | none =>
      Hook.report ("unrecognized result type " ++ c.result.text ++ " for '" ++ c.op ++ "'")

/-- The shape of an argument: of a call what was recorded when it was visited, of a variable or a
constant its declared type. -/
def argumentShape (g : Graph) (arg : NodeId) : Hook (Option Value) :=
  match g.find arg with
  | .error e => .fail (.graph e)
  | .ok n =>
    match n.kind with
    | .call _ => Hook.read arg FieldName.outputShape
    | .var .. | .constant .. => pure (Value.ofType n.declaredType)

/-- Adds the shapes of the arguments from a position on. An argument without a shape is left out. -/
def gatherShapes (g : Graph) : List NodeId → Nat → Dictionary Value → Hook (Dictionary Value)
  | [], _, shapes => pure shapes
  | arg :: rest, position, shapes => do
    match ← argumentShape g arg with
    | some shape => gatherShapes g rest (position + 1) (shapes.insert (toString position) shape)
    | none => gatherShapes g rest (position + 1) shapes

/-- Records the shapes of the arguments of a call by their positions. -/
def inputShapes : Pass :=
  extractor ⟨"input_shapes", [⟨FieldName.inputShapes, .map⟩], [FieldName.outputShape]⟩ fun g _ c => do
    let shapes ← gatherShapes g c.args 0 ∅
    Hook.write FieldName.inputShapes (.map shapes.entries)

/-- Records an attribute of a call as a sequence of integers, or reports that it is none. A call
without the attribute gets no field. -/
def attr (key : String) : Pass :=
  extractor ⟨"attribute:" ++ key, [⟨key, .seq⟩], []⟩ fun _ _ c =>
    match c.attrs.get? key with
    | none => pure ()
    | some a =>
      match a.toInts with
      | some is => Hook.write key (.ofInts is)
      | none =>
        Hook.report ("attribute '" ++ key ++ "' is not integer-valued: " ++ a.describe)

/-- Counts one more occurrence of a value under its text. -/
def countValue (counts : Summary) (v : Value) : Summary :=
  match counts.get? v.words with
  | some (.int n) => counts.insert v.words (.int (n + 1))
  | some _ => counts
  | none => counts.insert v.words (.int 1)

/-- Counts how often each value of a field occurs. Nodes without the field are not counted. -/
def histogram (field : String) : Pass where
  access := ⟨"histogram:" ++ field, [], [field]⟩
  State := Unit
  start := ()
  onCall _ _ _ s := pure s
  onLeaf _ s := s
  onSummarize _ details :=
    some ((details.entries.filterMap fun e => e.2.get? field).foldl countValue ∅)

/-- The attributes that are extracted unless others are asked for. -/
def defaultAttributes : List String := ["strides", "padding"]

/-- The standard passes with the given attributes and the histogram of the given field. -/
def configured (attributes : List String) (histogramField : String) : List Pass :=
  [opName, visitIndex, outputShape, inputShapes] ++ attributes.map attr ++
    [histogram histogramField]

/-- The standard passes with the given attributes and the histogram of the operators. -/
def withAttributes (attributes : List String) : List Pass := configured attributes FieldName.op

/-- The standard passes. -/
def standard : List Pass := withAttributes defaultAttributes

end Pass

end GraphSurvey
