import GraphSurvey.Detail.Value

/-!
# Errors of an analysis

What may be wrong with a list of passes, and what may go wrong when they run over a graph.

## Main definitions

* `GraphSurvey.AnalysisError`, `GraphSurvey.AnalysisError.message` — the errors and their wording.
-/

namespace GraphSurvey

/-- What is wrong with a list of passes or with their run. -/
inductive AnalysisError where
  | graph (e : GraphError)
  /-- A pass writes a field that it does not declare. -/
  | undeclaredWrite (pass field : String)
  /-- A pass reads a field that it declares neither to write nor to read. -/
  | undeclaredRead (pass field : String)
  /-- A pass writes a value of another kind than it declares. -/
  | kindMismatch (pass field : String) (expected actual : ValueKind)
  /-- A field is declared twice. -/
  | duplicateField (field first second : String)
  /-- No pass writes a field that is read. -/
  | unmetDependency (pass field : String)
  /-- A pass depends on its own results. -/
  | dependencyCycle (pass : String)
  /-- Two passes summarise a graph under the same name. -/
  | summaryCollision (field first second : String)
  deriving DecidableEq, Repr

namespace AnalysisError

/-- A name between apostrophes. -/
def named (name : String) : String := "'" ++ name ++ "'"

/-- The error in words. -/
def message : AnalysisError → String
  | .graph e => "Graph error: " ++ e.message
  | .undeclaredWrite pass field =>
    "Pass " ++ named pass ++ " wrote field " ++ named field ++ " it does not declare."
  | .undeclaredRead pass field =>
    "Pass " ++ named pass ++ " read field " ++ named field ++
      " without declaring it as a dependency."
  | .kindMismatch pass field expected actual =>
    "Pass " ++ named pass ++ " declares field " ++ named field ++ " as " ++ expected.name ++
      " but wrote a " ++ actual.name ++ "."
  | .duplicateField field first second =>
    "Detail field " ++ named field ++ " is declared by both " ++ named first ++ " and " ++
      named second ++ "."
  | .unmetDependency pass field =>
    "Pass " ++ named pass ++ " reads field " ++ named field ++
      " but no pass in the pipeline writes it."
  | .dependencyCycle pass => "Pass dependencies form a cycle through " ++ named pass ++ "."
  | .summaryCollision field first second =>
    "Summary field " ++ named field ++ " is produced by both " ++ named first ++ " and " ++
      named second ++ "."

end AnalysisError

end GraphSurvey
