import GraphSurvey.Graph.Build
import GraphSurvey.Shape.Error

/-!
# Sessions of graph building

A session holds the graphs under construction, each in a context. A tensor holds no data: it is a
handle to a node of the graph in its context, with the type of that node. An operation on tensors
appends a call to the context of its first operand. A failing operation leaves the session as it is,
but a sequence of operations that fails in the middle keeps what the ones before have appended.

## Main definitions

* `GraphSurvey.Session`, `GraphSurvey.ContextId` — sessions and the names of their contexts.
* `GraphSurvey.Tensor` — a handle.
* `GraphSurvey.Assembly`, `GraphSurvey.Build` — steps of a session that cannot fail, and steps that
  can.
-/

namespace GraphSurvey

/-- The number of a context. -/
structure ContextId where
  index : Nat
  deriving DecidableEq, Repr

/-- The graphs under construction. -/
structure Session where
  graphs : Array Graph

/-- A handle to a node of the graph in a context. -/
structure Tensor where
  context : ContextId
  node : NodeId
  type : ResultType

namespace Session

/-- A session without contexts. -/
def empty : Session := ⟨#[]⟩

/-- The graph in a context. -/
def graph (s : Session) (c : ContextId) : Graph := s.graphs.getD c.index (Graph.empty "")

/-- Puts a graph into a context. -/
def setGraph (s : Session) (c : ContextId) (g : Graph) : Session :=
  ⟨s.graphs.setIfInBounds c.index g⟩

/-- The graph in a context, with the node of a handle as its only output. -/
def finish (s : Session) (c : ContextId) (output : Tensor) : Graph :=
  (s.graph c).setOutput output.node

end Session

/-- A step of a session that cannot fail. -/
abbrev Assembly := StateM Session

/-- A step of a session that can fail. -/
abbrev Build := ExceptT BuildError Assembly

namespace Assembly

/-- Makes a context with a graph without nodes. -/
def newContext (name : String) : Assembly ContextId := fun s =>
  (⟨s.graphs.size⟩, ⟨s.graphs.push (Graph.empty name)⟩)

/-- Adds a variable of any type. -/
def newVar (c : ContextId) (name : String) (role : VarRole) (ty : ResultType) : Assembly Tensor :=
  fun s =>
    let (id, g) := (s.graph c).addVar name role ty
    (⟨c, id, ty⟩, s.setGraph c g)

/-- Adds a tensor that is fed with data when the model runs. -/
def newInput (c : ContextId) (name : String) (shape : Shape) : Assembly Tensor :=
  newVar c name .input (.tensor shape)

/-- Adds a tensor that is learnt. -/
def newParameter (c : ContextId) (name : String) (shape : Shape) : Assembly Tensor :=
  newVar c name .parameter (.tensor shape)

/-- Adds an array of numbers. -/
def newLiteral (c : ContextId) (name : String) (value : Literal) : Assembly Tensor := fun s =>
  let (id, g) := (s.graph c).addConstant name value
  (⟨c, id, .tensor value.shape⟩, s.setGraph c g)

end Assembly

namespace Tensor

/-- The shape of an operand. -/
def shape (x : Tensor) (op : String) : Except BuildError Shape :=
  match x.type with
  | .tensor s => .ok s
  | ty => .error (.notATensor op ty)

/-- Appends a call to the context of a handle. -/
def apply (x : Tensor) (c : Call) : Build Tensor := fun s =>
  match (s.graph x.context).addCall c with
  | .error e => (.error (.graph e), s)
  | .ok (id, g) => (.ok ⟨x.context, id, c.result⟩, s.setGraph x.context g)

end Tensor

end GraphSurvey
