import GraphSurvey.Decimal.Layout
import GraphSurvey.Dictionary
import GraphSurvey.Text.Quoted
import GraphSurvey.Word

/-!
# Model graphs

A graph is an array of nodes and a list of outputs. A node is an operator call, a variable or a
constant, and a call names its arguments by their positions in the array. Nothing in the type keeps
the arguments inside the array or before the call, nor the label of a node equal to its position.

## Main definitions

* `GraphSurvey.ResultType`, `GraphSurvey.Attr` — types of results and attributes of calls.
* `GraphSurvey.Node`, `GraphSurvey.Graph` — nodes and graphs.
* `GraphSurvey.GraphError` — what may be wrong with a graph.
-/

namespace GraphSurvey

/-- The position of a node in its graph. -/
structure NodeId where
  index : Nat
  deriving DecidableEq, Repr, Hashable

/-- The extents of a tensor. -/
abbrev Shape := List Nat

/-- The texts between square brackets. -/
def bracketed (parts : List String) : String := "[" ++ ", ".intercalate parts ++ "]"

namespace NodeId

/-- The position after a percent sign. -/
def text (id : NodeId) : String := "%" ++ toString id.index

instance : ToString NodeId := ⟨text⟩

end NodeId

namespace Shape

/-- The extents between square brackets. -/
def text (s : Shape) : String := bracketed (s.map toString)

/-- The number of elements of a tensor. -/
def size (s : Shape) : Nat := s.foldr (· * ·) 1

end Shape

/-! ## Types and attributes -/

/-- The type of a result. -/
inductive ResultType where
  | tensor (shape : Shape)
  | tuple (fields : List ResultType)
  /-- A type known by its name only. -/
  | named (name : String)

namespace ResultType

mutual

/-- The type in words. -/
def text : ResultType → String
  | .tensor shape => "Tensor" ++ Shape.text shape
  | .tuple fields => "(" ++ ", ".intercalate (texts fields) ++ ")"
  | .named name => "<" ++ name ++ ">"

/-- The types of a list in words. -/
def texts : List ResultType → List String
  | [] => []
  | ty :: rest => ty.text :: texts rest

end

instance : ToString ResultType := ⟨text⟩

end ResultType

/-- An attribute of a call. -/
inductive Attr where
  | int (i : Int)
  | ints (is : List Int)
  | float (x : Binary64)
  | text (s : String)
  deriving DecidableEq, Repr

namespace Attr

/-- Attributes are shown with the digits nearest to them, ties going up. They are written
positionally from `0.0001` up to, but without, `10 ^ 16`. -/
def reals : Layout where
  half := .up
  least := -4
  greatest := 15
  plus := false

/-- A number as it is shown. -/
def realText (x : Binary64) : String :=
  if x.isFinite then String.ofList (reals.write x)
  else if x.word ≠ BinaryFormat.double.infinity then "NaN"
  else if x.negative then "-inf"
  else "inf"

/-- The kind of the attribute and its value. -/
def describe : Attr → String
  | .int i => "Int(" ++ toString i ++ ")"
  | .ints is => "Ints(" ++ bracketed (is.map toString) ++ ")"
  | .float x => "Float(" ++ realText x ++ ")"
  | .text s => "Str(" ++ Text.quoted s ++ ")"

/-- The attribute as a row of integers. -/
def toInts : Attr → Option (List Int)
  | .int i => some [i]
  | .ints is => some is
  | .float _ | .text _ => none

/-- An attribute made of a size. -/
def ofSize (n : Nat) : Attr := .int (signedWord n)

/-- An attribute made of a row of sizes. -/
def ofSizes (ns : List Nat) : Attr := .ints (ns.map signedWord)

/-- An attribute made of a pair of sizes. -/
def ofPair (p : Nat × Nat) : Attr := ofSizes [p.1, p.2]

end Attr

/-! ## Nodes -/

/-- The application of an operator. -/
structure Call where
  op : String
  args : List NodeId
  attrs : Dictionary Attr
  result : ResultType

namespace Call

/-- A call without attributes. -/
def plain (op : String) (args : List NodeId) (result : ResultType) : Call := ⟨op, args, ∅, result⟩

/-- The call with an attribute, in place of an older one of its name. -/
def withAttr (c : Call) (key : String) (a : Attr) : Call :=
  { c with attrs := c.attrs.insert key a }

end Call

/-- What a variable stands for. -/
inductive VarRole where
  | input
  | parameter
  deriving DecidableEq, Repr

/-- An array of numbers. -/
structure Literal where
  shape : Shape
  data : List Binary32
  length_data : data.length = shape.size
  /-- The extents other than zero do not multiply to more than a memory can hold. -/
  bounded : Shape.size (shape.filter (· ≠ 0)) < signedBound

/-- What a node is. -/
inductive NodeKind where
  | call (c : Call)
  | var (name : String) (role : VarRole) (ty : ResultType)
  | constant (name : String) (value : Literal)

/-- A node with its label. -/
structure Node where
  id : NodeId
  kind : NodeKind

namespace Node

/-- The call that the node is. -/
def call? (n : Node) : Option Call :=
  match n.kind with
  | .call c => some c
  | .var .. | .constant .. => none

/-- The arguments of the node. Variables and constants have none. -/
def args (n : Node) : List NodeId :=
  match n.kind with
  | .call c => c.args
  | .var .. | .constant .. => []

/-- The type that the node itself tells. -/
def declaredType (n : Node) : ResultType :=
  match n.kind with
  | .call c => c.result
  | .var _ _ ty => ty
  | .constant _ value => .tensor value.shape

end Node

/-! ## Graphs -/

/-- A named model graph. -/
structure Graph where
  name : String
  nodes : Array Node
  outputs : List NodeId

/-- What is wrong with a graph. -/
inductive GraphError where
  | nodeNotFound (id : NodeId)
  /-- The node is reachable from its own arguments. -/
  | cycle (id : NodeId)
  /-- The node at the position has the label of another. -/
  | misplacedNode (position : Nat) (id : NodeId)
  deriving DecidableEq, Repr

namespace GraphError

/-- The error in words. -/
def message : GraphError → String
  | .nodeNotFound id => "node " ++ id.text ++ " not found"
  | .cycle id => "node " ++ id.text ++ " is reachable from its own arguments"
  | .misplacedNode position id =>
    "node at position " ++ toString position ++ " is labelled " ++ id.text

end GraphError

namespace Graph

/-- A graph without nodes. -/
def empty (name : String) : Graph := ⟨name, #[], []⟩

/-- The node at a position. -/
def node? (g : Graph) (id : NodeId) : Option Node := g.nodes[id.index]?

/-- The node at a position, or the error that there is none. -/
def find (g : Graph) (id : NodeId) : Except GraphError Node :=
  match g.node? id with
  | some n => .ok n
  | none => .error (.nodeNotFound id)

/-- Every node is labelled by its position. The first one that is not is the error. -/
def checkIds (g : Graph) : Except GraphError Unit :=
  match g.nodes.toList.zipIdx.find? fun p => p.1.id.index ≠ p.2 with
  | some (n, position) => .error (.misplacedNode position n.id)
  | none => .ok ()

/-- The calls with the labels of their nodes. -/
def calls (g : Graph) : List (NodeId × Call) :=
  g.nodes.toList.filterMap fun n => n.call?.map (n.id, ·)

end Graph

end GraphSurvey
