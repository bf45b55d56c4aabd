import GraphSurvey.Pipeline.Run
import GraphSurvey.Report.Schema
import GraphSurvey.Report.Table

/-!
# Tables of analyses

Two tables are made of analyses: one with a row for every analysed graph and a column for every
field of any summary, and for each graph one with a row for every call that was visited.

## Main definitions

* `GraphSurvey.summaryTable`, `GraphSurvey.detailTable` — the tables.
* `GraphSurvey.uncoveredFields` — the recorded fields that a table of details leaves out.
-/

namespace GraphSurvey

/-- The fields of any of the summaries, in increasing order. -/
def summaryFields (runs : List Analysis) : List String :=
  sortedNames (runs.flatMap fun run => run.summary.names)

/-- The row of an analysis in the table of summaries. -/
def summaryRow (columns : List String) (key : String) (run : Analysis) : Row :=
  ⟨key, columns.map fun column => .ofOption (run.summary.get? column)⟩

/-- The table of summaries. The key of a row is the name of the graph, with a number if an earlier
row has that key. -/
def summaryTable (runs : List Analysis) : Table where
  title := "summary"
  keyLabel := "model"
  columns := summaryFields runs
  rows := List.zipWith (summaryRow (summaryFields runs))
    (Text.uniqueLabels (runs.map Analysis.model)) runs

/-- The fields that are recorded for some node and shown by no column, in increasing order. -/
def uncoveredFields (details : DetailStore) (schema : Schema) : List String :=
  details.fieldNames.filter (· ∉ schema.coveredFields)

/-- The row of a node in the table of details. -/
def detailRow (schema : Schema) (id : NodeId) (d : Details) : Row :=
  ⟨id.text, schema.columns.map fun c => .ofOption (c.path.resolve d)⟩

/-- The table of the details of an analysis. -/
def detailTable (run : Analysis) (schema : Schema) : Table where
  title := run.model
  keyLabel := "node"
  columns := schema.labels
  rows := run.details.entries.map fun e => detailRow schema e.1 e.2

end GraphSurvey
