import GraphSurvey.Document.Decode
import GraphSurvey.Graph.Basic

/-!
# Reading graphs

Decoders of graphs and of their parts, for the documents that `GraphSurvey.Graph.toJson` writes and
for every other document of the same content. The labels of the nodes are taken as they are.

## Main definitions

* `GraphSurvey.ResultType.decode`, `GraphSurvey.Attr.decode`, `GraphSurvey.Literal.decode`,
  `GraphSurvey.NodeKind.decode`, `GraphSurvey.Graph.decode` — the decoders.
-/

namespace GraphSurvey

/-- A position. -/
def NodeId.decode : Decoder NodeId := Decoder.size.map NodeId.mk

/-- The extents of a tensor. -/
def Shape.decode : Decoder Shape := Decoder.list Decoder.size

namespace ResultType

mutual

/-- A type. -/
def decode : Decoder ResultType
  | depth + 1, .object (.member name t rest) => do
    match ← name.content with
    | "Tensor" => Decoder.endVariant (.tensor (← Shape.decode depth t)) rest
    | "Tuple" => Decoder.endVariant (.tuple (← decodeTuple depth t)) rest
    | "Opaque" => Decoder.endVariant (.named (← Decoder.text depth t)) rest
    | _ => .error .mismatch
  | depth, t => .error (Decoder.wrongVariant depth t)

/-- The fields of a tuple. -/
def decodeTuple : Decoder (List ResultType)
  | depth + 1, .array items => decodeFields depth items
  | 0, .array _ => .error .malformed
  | _, t => .error t.wrongKind

/-- The rest of the fields of a tuple. -/
def decodeFields (depth : Nat) : Items → Except Fault (List ResultType)
  | .close => .ok []
  | .stop f => .error f
  | .item t rest => do
    let ty ← decode depth t
    return ty :: (← decodeFields depth rest)

end

end ResultType

/-- An attribute. -/
def Attr.decode : Decoder Attr :=
  Decoder.variant fun
    | "Int" => some (Decoder.integer.map .int)
    | "Ints" => some ((Decoder.list Decoder.integer).map .ints)
    | "Float" => some (Decoder.double.map .float)
    | "Str" => some (Decoder.text.map .text)
    | _ => none

/-- The attributes of a call. -/
def Attr.decodeAll : Decoder (Dictionary Attr) := (Decoder.entries Attr.decode).map Dictionary.ofList

/-! ## Calls -/

/-- The parts of a call that were read. -/
structure CallDraft where
  op : Option String
  args : Option (List NodeId)
  attrs : Option (Dictionary Attr)
  result : Option ResultType

/-- The form of a call. A call without attributes may leave them out. -/
def Call.record : Record CallDraft Call where
  fields :=
    [.required "op" Decoder.text (·.op) fun a s => { s with op := some a },
     .required "args" (Decoder.list NodeId.decode) (·.args) fun a s => { s with args := some a },
     .optional "attrs" Attr.decodeAll (·.attrs) fun a s => { s with attrs := some a },
     .required "ty" ResultType.decode (·.result) fun a s => { s with result := some a }]
  isOpen := true
  start := ⟨none, none, none, none⟩
  finish s := do
    return ⟨← given s.op, ← given s.args, s.attrs.getD ∅, ← given s.result⟩

/-! ## Variables and constants -/

/-- A role. -/
def VarRole.decode : Decoder VarRole :=
  Decoder.symbol fun
    | "Input" => some .input
    | "Parameter" => some .parameter
    | _ => none

/-- The parts of a variable that were read. -/
structure VarDraft where
  name : Option String
  role : Option VarRole
  type : Option ResultType

/-- The form of a variable. -/
def NodeKind.varRecord : Record VarDraft NodeKind where
  fields :=
    [.required "name" Decoder.text (·.name) fun a s => { s with name := some a },
     .required "role" VarRole.decode (·.role) fun a s => { s with role := some a },
     .required "ty" ResultType.decode (·.type) fun a s => { s with type := some a }]
  isOpen := true
  start := ⟨none, none, none⟩
  finish s := do return .var (← given s.name) (← given s.role) (← given s.type)

/-- The parts of an array of numbers that were read. -/
structure LiteralDraft where
  version : Option Nat
  shape : Option Shape
  data : Option (List Binary32)

/-- The version of the form of an array of numbers. -/
def Literal.decodeVersion : Decoder Nat := fun depth t => do
  let v ← Decoder.size depth t
  if v = 1 then return v else .error .mismatch

/-- The array of numbers of the given shape, if there are as many numbers as it takes. -/
def Literal.ofParts (shape : Shape) (data : List Binary32) : Except Fault Literal :=
  if bounded : Shape.size (shape.filter (· ≠ 0)) < signedBound then
    if length_data : data.length = shape.size then .ok ⟨shape, data, length_data, bounded⟩
    else .error .mismatch
  else .error .mismatch

/-- The form of an array of numbers. It has no further members, and of repeated ones the last
counts. -/
def Literal.record : Record LiteralDraft Literal where
  fields :=
    [.repeatable "v" Literal.decodeVersion fun a s => { s with version := some a },
     .repeatable "dim" Shape.decode fun a s => { s with shape := some a },
     .repeatable "data" (Decoder.list Decoder.single) fun a s => { s with data := some a }]
  isOpen := false
  start := ⟨none, none, none⟩
  finish s := do
    let _ ← given s.version
    Literal.ofParts (← given s.shape) (← given s.data)

/-- An array of numbers. -/
def Literal.decode : Decoder Literal := Literal.record.decode

/-- The parts of a constant that were read. -/
structure ConstantDraft where
  name : Option String
  value : Option Literal

/-- The form of a constant. -/
def NodeKind.constantRecord : Record ConstantDraft NodeKind where
  fields :=
    [.required "name" Decoder.text (·.name) fun a s => { s with name := some a },
     .required "value" Literal.decode (·.value) fun a s => { s with value := some a }]
  isOpen := true
  start := ⟨none, none⟩
  finish s := do return .constant (← given s.name) (← given s.value)

/-! ## Nodes and graphs -/

/-- What a node is. -/
def NodeKind.decode : Decoder NodeKind :=
  Decoder.variant fun
    | "Call" => some (Call.record.decode.map .call)
    | "Var" => some NodeKind.varRecord.decode
    | "Constant" => some NodeKind.constantRecord.decode
    | _ => none

/-- The parts of a node that were read. -/
structure NodeDraft where
  id : Option NodeId
  kind : Option NodeKind

/-- The form of a node. -/
def Node.record : Record NodeDraft Node where
  fields :=
    [.required "id" NodeId.decode (·.id) fun a s => { s with id := some a },
     .required "kind" NodeKind.decode (·.kind) fun a s => { s with kind := some a }]
  isOpen := true
  start := ⟨none, none⟩
  finish s := do return ⟨← given s.id, ← given s.kind⟩

/-- The parts of a graph that were read. -/
structure GraphDraft where
  name : Option String
  nodes : Option (List Node)
  outputs : Option (List NodeId)

/-- The form of a graph. -/
def Graph.record : Record GraphDraft Graph where
  fields :=
    [.required "name" Decoder.text (·.name) fun a s => { s with name := some a },
     .required "nodes" (Decoder.list Node.record.decode) (·.nodes) fun a s =>
       { s with nodes := some a },
     .required "outputs" (Decoder.list NodeId.decode) (·.outputs) fun a s =>
       { s with outputs := some a }]
  isOpen := true
  start := ⟨none, none, none⟩
  finish s := do return ⟨← given s.name, (← given s.nodes).toArray, ← given s.outputs⟩

/-- A graph. -/
def Graph.decode : Decoder Graph := Graph.record.decode

end GraphSurvey
