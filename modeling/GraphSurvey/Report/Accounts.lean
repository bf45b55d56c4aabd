import GraphSurvey.Report.Overview

/-!
# Reports

A report tells of every graph either its analysis or why there is none. As a text it has the table
of summaries, the tables of details and the anomalies; the failures are told apart from it. As a
document it has all of them, with the names of all objects in increasing order.

## Main definitions

* `GraphSurvey.Report.ofGraphs` — the report of a list of graphs.
* `GraphSurvey.Report.text`, `GraphSurvey.Report.toJson` — a report as a text and as a document.
-/

namespace GraphSurvey

/-- A graph that could not be analysed. -/
structure Failure where
  model : String
  error : AnalysisError

/-- The analyses and failures of a list of graphs, with the tables of details that are shown. -/
structure Report where
  runs : List Analysis
  failures : List Failure
  details : List Table

namespace Report

/-- The outcomes of a pipeline over graphs. -/
def outcomes (p : Pipeline) (gs : List Graph) : List (Except Failure Analysis) :=
  gs.map fun g =>
    match p.run g with
    | .ok run => .ok run
    | .error e => .error ⟨g.name, e⟩

/-- The analyses among the outcomes. -/
def runsOf (os : List (Except Failure Analysis)) : List Analysis := os.filterMap Except.toOption

/-- The failures among the outcomes. -/
def failuresOf (os : List (Except Failure Analysis)) : List Failure :=
  os.filterMap fun
    | .error f => some f
    | .ok _ => none

/-- The report of a pipeline over graphs, with tables of details if there is a schema for them. -/
def ofGraphs (p : Pipeline) (schema : Option Schema) (gs : List Graph) : Report where
  runs := runsOf (outcomes p gs)
  failures := failuresOf (outcomes p gs)
  details :=
    match schema with
    | some s => (runsOf (outcomes p gs)).map fun run => detailTable run s
    | none => []

/-- The table of summaries. -/
def summary (r : Report) : Table := summaryTable r.runs

/-- The lines of the anomalies, each with the name of its graph. -/
def anomalyLines (r : Report) : List String :=
  r.runs.flatMap fun run => run.anomalies.map fun a => run.model ++ ": " ++ a.text ++ "\n"

/-- The lines of the failures. -/
def failureLines (r : Report) : List String :=
  r.failures.map fun f => f.model ++ ": " ++ f.error.message ++ "\n"

/-- The report as a text. Every table has an empty line after it. -/
def text (r : Report) : String :=
  String.join (((r.summary :: r.details).map fun t => t.text ++ "\n") ++ r.anomalyLines)

/-- The report as a document. Only graphs with anomalies are among them. -/
def toJson (r : Report) : Json :=
  (Json.object
    [("summary", r.summary.toJson),
     ("details", .array (r.details.map Table.toJson)),
     ("anomalies", .object
       ((r.runs.filter fun run => !run.anomalies.isEmpty).map fun run =>
         (run.model, .array (run.anomalies.map fun a => .text a.text)))),
     ("errors", .object (r.failures.map fun f => (f.model, .text f.error.message)))]).sorted

end Report

end GraphSurvey
