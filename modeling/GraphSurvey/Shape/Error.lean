import GraphSurvey.Graph.Basic

/-!
# Errors of building a graph

What may be wrong with the operands of an operation, and with the name of a model.

## Main definitions

* `GraphSurvey.BuildError`, `GraphSurvey.BuildError.message` — the errors and their wording.
-/

namespace GraphSurvey

/-- What is wrong with an operation on a graph under construction. -/
inductive BuildError where
  | graph (e : GraphError)
  | incompatibleShapes (op : String) (lhs rhs : Shape)
  | invalidRank (op : String) (expected actual : Nat)
  | notATensor (op : String) (ty : ResultType)
  /-- No window of the given extent fits into an axis of the given size. -/
  | windowTooLarge (op : String) (kernel size : Nat)
  | tupleIndex (index : Nat) (ty : ResultType)
  | emptyConcat
  | unknownModel (name : String)

namespace BuildError

/-- The error in words. -/
def message : BuildError → String
  | .graph e => "Graph error: " ++ e.message
  | .incompatibleShapes op lhs rhs =>
    "Incompatible shapes for operation '" ++ op ++ "': left operand " ++ Shape.text lhs ++
      ", right operand " ++ Shape.text rhs ++ "."
  | .invalidRank op expected actual =>
    "Invalid tensor rank for '" ++ op ++ "': expected " ++ toString expected ++ "D, got " ++
      toString actual ++ "D."
  | .notATensor op ty => "Operation '" ++ op ++ "' needs a tensor operand, got " ++ ty.text ++ "."
  | .windowTooLarge op kernel size =>
    "Window of size " ++ toString kernel ++ " does not fit extent " ++ toString size ++ " in '" ++
      op ++ "'."
  | .tupleIndex index ty =>
    "Tuple index " ++ toString index ++ " out of range for " ++ ty.text ++ "."
  | .emptyConcat => "concatenate needs at least one operand."
  | .unknownModel name => "Unknown model '" ++ name ++ "'."

end BuildError

end GraphSurvey
