import GraphSurvey.Document.Json
import GraphSurvey.Graph.Basic

/-!
# Written graphs

The document of a graph. Records are objects with their fields in the order of declaration, variants
are objects whose only member has the name of the variant, and dictionaries are objects with their
names in increasing order.

## Main definitions

* `GraphSurvey.Graph.toJson` — the document of a graph.
-/

namespace GraphSurvey

/-- An array of natural numbers. -/
def Json.sizes (ns : List Nat) : Json := .array (ns.map fun n : Nat => .int n)

/-- An array of integers. -/
def Json.ints (is : List Int) : Json := .array (is.map .int)

/-- An object with one member. -/
def Json.tagged (name : String) (content : Json) : Json := .object [(name, content)]

namespace ResultType

mutual

/-- The document of a type. -/
def toJson : ResultType → Json
  | .tensor shape => .tagged "Tensor" (.sizes shape)
  | .tuple fields => .tagged "Tuple" (.array (fieldsToJson fields))
  | .named name => .tagged "Opaque" (.text name)

/-- The documents of the fields of a tuple. -/
def fieldsToJson : List ResultType → List Json
  | [] => []
  | ty :: rest => ty.toJson :: fieldsToJson rest

end

end ResultType

/-- The document of an attribute. -/
def Attr.toJson : Attr → Json
  | .int i => .tagged "Int" (.int i)
  | .ints is => .tagged "Ints" (.ints is)
  | .float x => .tagged "Float" (.double x)
  | .text s => .tagged "Str" (.text s)

/-- The document of a position. -/
def NodeId.toJson (id : NodeId) : Json := .int id.index

/-- The document of a call. -/
def Call.toJson (c : Call) : Json :=
  .object
    [("op", .text c.op),
     ("args", .array (c.args.map NodeId.toJson)),
     ("attrs", .object (c.attrs.entries.map fun e => (e.1, e.2.toJson))),
     ("ty", c.result.toJson)]

/-- The document of a role. -/
def VarRole.toJson : VarRole → Json
  | .input => .text "Input"
  | .parameter => .text "Parameter"

/-- The document of an array of numbers, with the version of this form. -/
def Literal.toJson (l : Literal) : Json :=
  .object [("v", .int 1), ("dim", .sizes l.shape), ("data", .array (l.data.map .single))]

/-- The document of what a node is. -/
def NodeKind.toJson : NodeKind → Json
  | .call c => .tagged "Call" c.toJson
  | .var name role ty =>
    .tagged "Var" (.object [("name", .text name), ("role", role.toJson), ("ty", ty.toJson)])
  | .constant name value =>
    .tagged "Constant" (.object [("name", .text name), ("value", value.toJson)])

/-- The document of a node. -/
def Node.toJson (n : Node) : Json := .object [("id", n.id.toJson), ("kind", n.kind.toJson)]

/-- The document of a graph. -/
def Graph.toJson (g : Graph) : Json :=
  .object
    [("name", .text g.name),
     ("nodes", .array (g.nodes.toList.map Node.toJson)),
     ("outputs", .array (g.outputs.map NodeId.toJson))]

end GraphSurvey
