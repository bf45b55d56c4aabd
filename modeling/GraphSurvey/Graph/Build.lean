import GraphSurvey.Graph.Basic

/-!
# Building graphs

Nodes are added at the end of a graph and labelled by their position. A call is added only if its
arguments are there already, which keeps the graph free of cycles.
-/

namespace GraphSurvey.Graph

/-- The position of the next node. -/
def nextId (g : Graph) : NodeId := ⟨g.nodes.size⟩

/-- The graph with one more node. -/
def push (g : Graph) (kind : NodeKind) : Graph := { g with nodes := g.nodes.push ⟨g.nextId, kind⟩ }

/-- Adds a call whose arguments are all in the graph. -/
def addCall (g : Graph) (c : Call) : Except GraphError (NodeId × Graph) :=
  match c.args.find? fun a => g.nodes.size ≤ a.index with
  | some missing => .error (.nodeNotFound missing)
  | none => .ok (g.nextId, g.push (.call c))

/-- Adds a variable. -/
def addVar (g : Graph) (name : String) (role : VarRole) (ty : ResultType) : NodeId × Graph :=
  (g.nextId, g.push (.var name role ty))

/-- Adds a constant. -/
def addConstant (g : Graph) (name : String) (value : Literal) : NodeId × Graph :=
  (g.nextId, g.push (.constant name value))

/-- Adds a node of any kind. -/
def addNode (g : Graph) : NodeKind → Except GraphError (NodeId × Graph)
  | .call c => g.addCall c
  | .var name role ty => .ok (g.addVar name role ty)
  | .constant name value => .ok (g.addConstant name value)

/-- The graph with one output. -/
def setOutput (g : Graph) (output : NodeId) : Graph := { g with outputs := [output] }

end GraphSurvey.Graph
