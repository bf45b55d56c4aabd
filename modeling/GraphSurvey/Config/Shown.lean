import GraphSurvey.Config.Error
import GraphSurvey.Text.Quoted

/-!
# Errors with their parts

An error that ends the program is shown as the name of its kind with all that it tells: the parts of
a record by their names between braces, other parts between parentheses.

## Main definitions

* `GraphSurvey.ConfigError.shown` — an error with its parts.
-/

namespace GraphSurvey

/-- A kind with parts that have no names. -/
def shownParts (kind : String) (parts : List String) : String :=
  kind ++ "(" ++ ", ".intercalate parts ++ ")"

/-- A kind with named parts. -/
def shownFields (kind : String) (fields : List (String × String)) : String :=
  kind ++ " \x7b " ++ ", ".intercalate (fields.map fun e => e.1 ++ ": " ++ e.2) ++ " \x7d"

namespace ResultType

mutual

/-- A type with its parts. -/
def shown : ResultType → String
  | .tensor shape => shownParts "Tensor" [Shape.text shape]
  | .tuple fields => shownParts "Tuple" [bracketed (shownFields fields)]
  | .named name => shownParts "Opaque" [Text.quoted name]

/-- The types of a list with their parts. -/
def shownFields : List ResultType → List String
  | [] => []
  | ty :: rest => ty.shown :: shownFields rest

end

end ResultType

/-- A position with its kind. -/
def NodeId.shown (id : NodeId) : String := shownParts "NodeId" [toString id.index]

/-- The name of a kind of values where parts are shown. -/
def ValueKind.shown : ValueKind → String
  | .int => "Int"
  | .text => "Str"
  | .seq => "Seq"
  | .map => "Map"

/-- An error of a graph with its parts. -/
def GraphError.shown : GraphError → String
  | .nodeNotFound id => shownParts "NodeNotFound" [id.shown]
  | .cycle id => shownParts "Cycle" [id.shown]
  | .misplacedNode position id =>
    shownFields "MisplacedNode" [("position", toString position), ("id", id.shown)]

/-- An error of an analysis with its parts. -/
def AnalysisError.shown : AnalysisError → String
  | .graph e => shownParts "Asg" [e.shown]
  | .undeclaredWrite pass field =>
    shownFields "UndeclaredWrite" [("pass", Text.quoted pass), ("field", Text.quoted field)]
  | .undeclaredRead pass field =>
    shownFields "UndeclaredRead" [("pass", Text.quoted pass), ("field", Text.quoted field)]
  | .kindMismatch pass field expected actual =>
    shownFields "KindMismatch"
      [("pass", Text.quoted pass), ("field", Text.quoted field), ("expected", expected.shown),
       ("actual", actual.shown)]
  | .duplicateField field first second =>
    shownFields "DuplicateField"
      [("field", Text.quoted field), ("first", Text.quoted first), ("second", Text.quoted second)]
  | .unmetDependency pass field =>
    shownFields "UnmetDependency" [("pass", Text.quoted pass), ("field", Text.quoted field)]
  | .dependencyCycle pass => shownParts "DependencyCycle" [Text.quoted pass]
  | .summaryCollision field first second =>
    shownFields "SummaryCollision"
      [("field", Text.quoted field), ("first", Text.quoted first), ("second", Text.quoted second)]

/-- An error of building with its parts. -/
def BuildError.shown : BuildError → String
  | .graph e => shownParts "Asg" [e.shown]
  | .incompatibleShapes op lhs rhs =>
    shownFields "IncompatibleShapes"
      [("op", Text.quoted op), ("shape1", Shape.text lhs), ("shape2", Shape.text rhs)]
  | .invalidRank op expected actual =>
    shownFields "InvalidRank"
      [("op", Text.quoted op), ("expected", toString expected), ("actual", toString actual)]
  | .notATensor op ty => shownFields "NotATensor" [("op", Text.quoted op), ("ty", ty.shown)]
  | .windowTooLarge op kernel size =>
    shownFields "WindowTooLarge"
      [("op", Text.quoted op), ("kernel", toString kernel), ("size", toString size)]
  | .tupleIndex index ty =>
    shownFields "TupleIndex" [("index", toString index), ("ty", ty.shown)]
  | .emptyConcat => "EmptyConcat"
  | .unknownModel name => shownParts "UnknownModel" [Text.quoted name]

/-- An error of the system with its parts. -/
def shownSystemError (code : Nat) (kind message : String) : String :=
  shownFields "Os" [("code", toString code), ("kind", kind), ("message", Text.quoted message)]

/-- An error of a file with its parts. -/
def FileError.shown : FileError → String
  | .notFound => shownSystemError 2 "NotFound" "No such file or directory"
  | .notADirectory => shownSystemError 20 "NotADirectory" "Not a directory"
  | .isADirectory => shownSystemError 21 "IsADirectory" "Is a directory"
  | .notText =>
    shownFields "Error"
      [("kind", "InvalidData"), ("message", Text.quoted "stream did not contain valid UTF-8")]

/-- An error of a configuration with its parts. Of a document only the kind is told. -/
def ConfigError.shown : ConfigError → String
  | .file path e => shownFields "Io" [("path", Text.quoted path), ("source", e.shown)]
  | .document _ _ => "Json"
  | .graph path e => shownFields "Graph" [("path", Text.quoted path), ("source", e.shown)]
  | .build e => shownParts "Build" [e.shown]
  | .analysis e => shownParts "Analysis" [e.shown]

end GraphSurvey
