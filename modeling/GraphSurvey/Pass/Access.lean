import GraphSurvey.Detail.Store
import GraphSurvey.Pass.Error

/-!
# What a pass may touch

A pass declares the fields that it writes, with the kinds of their values, and the fields of other
passes that it reads. What it does at a node is a `Hook`: a program whose steps set a field of the
visited node, get a field of any node, or report an anomaly. The only way to run such a program is
`GraphSurvey.Hook.run`, which refuses every step that the declarations do not cover. A refused step
changes nothing, and the program is told and may go on.

## Main definitions

* `GraphSurvey.Access` — the declarations of a pass.
* `GraphSurvey.Hook`, `GraphSurvey.Hook.run` — what a pass does at a node, and its effect.
-/

namespace GraphSurvey

/-- A field that a pass writes. -/
structure FieldDecl where
  name : String
  kind : ValueKind
  deriving DecidableEq, Repr

/-- The declarations of a pass. -/
structure Access where
  pass : String
  writes : List FieldDecl
  reads : List String
  deriving DecidableEq, Repr

namespace Access

/-- The first declaration of a field that the pass writes. -/
def owned? (a : Access) (field : String) : Option FieldDecl :=
  a.writes.find? fun decl => decl.name = field

/-- The error of writing a value of the given kind to a field. -/
def writeError? (a : Access) (field : String) (kind : ValueKind) : Option AnalysisError :=
  match a.owned? field with
  | none => some (.undeclaredWrite a.pass field)
  | some decl =>
    if decl.kind = kind then none else some (.kindMismatch a.pass field decl.kind kind)

/-- The error of reading a field. -/
def readError? (a : Access) (field : String) : Option AnalysisError :=
  if (a.owned? field).isSome ∨ field ∈ a.reads then none else some (.undeclaredRead a.pass field)

end Access

/-- A finding about a node that does not end a run. -/
structure Anomaly where
  node : NodeId
  pass : String
  message : String
  deriving DecidableEq, Repr

/-- The finding with the node and the pass. -/
def Anomaly.text (a : Anomaly) : String := a.node.text ++ " [" ++ a.pass ++ "]: " ++ a.message

/-- What passes have left so far. -/
structure Notes where
  store : DetailStore
  anomalies : List Anomaly

/-- What a pass does at a node, with a result in the end. -/
inductive Hook (α : Type) where
  | done (a : α)
  | fail (e : AnalysisError)
  /-- Sets a field of the visited node. -/
  | set (field : String) (v : Value) (next : Option AnalysisError → Hook α)
  /-- Gets a field of any node. -/
  | get (node : NodeId) (field : String) (next : Except AnalysisError (Option Value) → Hook α)
  | anomaly (message : String) (next : Hook α)

namespace Hook

variable {α β : Type}

/-- One program after the other. -/
def bind (h : Hook α) (f : α → Hook β) : Hook β :=
  match h with
  | .done a => f a
  | .fail e => .fail e
  | .set field v next => .set field v fun e => (next e).bind f
  | .get node field next => .get node field fun r => (next r).bind f
  | .anomaly message next => .anomaly message (next.bind f)

instance : Monad Hook where
  pure := .done
  bind := bind

/-- Sets a field and fails if that is refused. -/
def write (field : String) (v : Value) : Hook Unit :=
  .set field v fun
    | none => .done ()
    | some e => .fail e

/-- Gets a field and fails if that is refused. -/
def read (node : NodeId) (field : String) : Hook (Option Value) :=
  .get node field fun
    | .ok v => .done v
    | .error e => .fail e

/-- Reports an anomaly. -/
def report (message : String) : Hook Unit := .anomaly message (.done ())

/-- Runs a program at a node. -/
def run (a : Access) (node : NodeId) : Hook α → Notes → Notes × Except AnalysisError α
  | .done r, n => (n, .ok r)
  | .fail e, n => (n, .error e)
  | .set field v next, n =>
    match a.writeError? field v.kind with
    | none => (next none).run a node { n with store := n.store.record node field v }
    | some e => (next (some e)).run a node n
  | .get other field next, n =>
    match a.readError? field with
    | none => (next (.ok (n.store.field? other field))).run a node n
    | some e => (next (.error e)).run a node n
  | .anomaly message next, n =>
    next.run a node { n with anomalies := n.anomalies ++ [⟨node, a.pass, message⟩] }

end Hook

end GraphSurvey
