import GraphSurvey.Config.Files
import GraphSurvey.Document.Numeral
import GraphSurvey.Pass.Error
import GraphSurvey.Shape.Error

/-!
# Errors of a configuration

What may be wrong with the files of a configuration and with what it asks for.

## Main definitions

* `GraphSurvey.ConfigError`, `GraphSurvey.ConfigError.message` — the errors and their wording.
-/

namespace GraphSurvey

/-- What is wrong with a configuration or with a file that it names. -/
inductive ConfigError where
  | file (path : String) (e : FileError)
  | document (path : String) (f : Fault)
  | graph (path : String) (e : GraphError)
  | build (e : BuildError)
  | analysis (e : AnalysisError)

namespace ConfigError

/-- The error in words. Of a document only the file is told. -/
def message : ConfigError → String
  | .file path e => "I/O error on " ++ path ++ ": " ++ e.message
  | .document path _ => "Invalid JSON in " ++ path
  | .graph path e => "Malformed graph in " ++ path ++ ": " ++ e.message
  | .build e => "Model error: " ++ e.message
  | .analysis e => "Pipeline error: " ++ e.message

end ConfigError

end GraphSurvey
