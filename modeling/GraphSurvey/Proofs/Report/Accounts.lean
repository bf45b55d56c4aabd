import GraphSurvey.Proofs.Document.Sorted
import GraphSurvey.Proofs.Report.Rows
import GraphSurvey.Proofs.Text.Label
import GraphSurvey.Report.Accounts
import Mathlib

/-!
# What a report tells of graphs

Every graph of a report is either analysed, and then has a row among the summaries and may have a
table of details, or has failed. Where the names of the graphs are distinct, the names of the rows
and of the failures are those of the graphs and no number is added to them, so that the objects of
a report as a document, which know graphs by their names only, lose none of them either.

## Main definitions

* `GraphSurvey.Pipeline.analysed`, `GraphSurvey.Pipeline.failed` — the graphs that can be analysed
  with their analyses, and those that cannot with what is wrong.
* `GraphSurvey.Report.Accounts` — a report tells of every graph exactly once.

## Main results

* `GraphSurvey.Pipeline.perm_names` — no graph is lost or doubled.
* `GraphSurvey.summaryTable_rows_of_nodup` — the rows of analyses of models with distinct names.
* `GraphSurvey.Report.accounts_ofGraphs` — the report of graphs with distinct names accounts for
  them.
* `GraphSurvey.Report.Accounts.anomalyLines`, `GraphSurvey.Report.Accounts.failureLines` — the lines
  of such a report.
-/

namespace GraphSurvey

/-! ## Analysed and failed graphs -/

namespace Pipeline

variable (p : Pipeline) (gs : List Graph)

/-- The graphs that can be analysed, with their analyses. -/
def analysed : List (Graph × Analysis) :=
  gs.filterMap fun g =>
    match p.run g with
    | .ok run => some (g, run)
    | .error _ => none

/-- The graphs that cannot be analysed, with what is wrong. -/
def failed : List (Graph × AnalysisError) :=
  gs.filterMap fun g =>
    match p.run g with
    | .ok _ => none
    | .error e => some (g, e)

/-- The names of the graphs that can be analysed. -/
def analysedNames : List String := (p.analysed gs).map fun e => e.1.name

/-- The names of the graphs that cannot be analysed. -/
def failedNames : List String := (p.failed gs).map fun e => e.1.name

variable {p gs} {g : Graph}

theorem analysed_cons_ok {run : Analysis} (h : p.run g = .ok run) :
    p.analysed (g :: gs) = (g, run) :: p.analysed gs := by
  rw [analysed, List.filterMap_cons, h]
  rfl

theorem analysed_cons_error {e : AnalysisError} (h : p.run g = .error e) :
    p.analysed (g :: gs) = p.analysed gs := by
  rw [analysed, List.filterMap_cons, h]
  rfl

theorem failed_cons_ok {run : Analysis} (h : p.run g = .ok run) :
    p.failed (g :: gs) = p.failed gs := by
  rw [failed, List.filterMap_cons, h]
  rfl

theorem failed_cons_error {e : AnalysisError} (h : p.run g = .error e) :
    p.failed (g :: gs) = (g, e) :: p.failed gs := by
  rw [failed, List.filterMap_cons, h]
  rfl

/-- An analysis bears the name of its graph. -/
theorem model_of_run {run : Analysis} (h : p.run g = .ok run) : run.model = g.name := by
  rw [Pipeline.run] at h
  split at h
  case h_1 => cases h
  case h_2 =>
    split at h
    case h_1 => cases h
    case h_2 => exact (Except.ok.inj h) ▸ rfl

theorem run_of_mem_analysed {e : Graph × Analysis} (h : e ∈ p.analysed gs) :
    p.run e.1 = .ok e.2 := by
  obtain ⟨g, -, hg⟩ := List.mem_filterMap.mp h
  split at hg
  case h_1 run hrun => exact (Option.some.inj hg) ▸ hrun
  case h_2 => cases hg

theorem model_of_mem_analysed {e : Graph × Analysis} (h : e ∈ p.analysed gs) :
    e.2.model = e.1.name :=
  model_of_run (run_of_mem_analysed h)

/-- Every graph is either analysed or has failed. -/
theorem perm_names (p : Pipeline) (gs : List Graph) :
    (p.analysedNames gs ++ p.failedNames gs).Perm (gs.map Graph.name) := by
  rw [analysedNames, failedNames]
  induction gs with
  | nil => exact .nil
  | cons g rest ih =>
    cases h : p.run g with
    | ok run =>
      rw [analysed_cons_ok h, failed_cons_ok h]
      exact ih.cons g.name
    | error e =>
      rw [analysed_cons_error h, failed_cons_error h]
      exact List.perm_middle.trans (ih.cons g.name)

/-- Among graphs with distinct names those that can be analysed have distinct names, and so have
those that cannot. -/
theorem nodup_names (h : (gs.map Graph.name).Nodup) :
    (p.analysedNames gs).Nodup ∧ (p.failedNames gs).Nodup := by
  have happend := List.nodup_append.mp ((perm_names p gs).nodup_iff.mpr h)
  exact ⟨happend.1, happend.2.1⟩

end Pipeline

/-! ## Rows of distinct models -/

/-- If the models have distinct names, the rows are those of the analyses in their order, each under
the name of its model. -/
theorem summaryTable_rows_of_nodup {runs : List Analysis} (h : (runs.map Analysis.model).Nodup) :
    (summaryTable runs).rows =
      runs.map fun run => summaryRow (summaryFields runs) run.model run := by
  rw [summaryTable, Text.uniqueLabels_of_nodup h, List.zipWith_map_left, List.zipWith_self]

/-! ## Reports -/

namespace Report

/-- The anomalies of an analysis as a document. -/
def anomalyTexts (run : Analysis) : Json := .array (run.anomalies.map fun a => .text a.text)

/-- A report tells of every graph exactly once, under its name and in the order of the graphs. -/
structure Accounts (p : Pipeline) (schema : Option Schema) (gs : List Graph) (r : Report) :
    Prop where
  runs : r.runs = (p.analysed gs).map Prod.snd
  /-- The rows of the summaries are those of the analysed graphs. -/
  rows : r.summary.rows =
    (p.analysed gs).map fun e => summaryRow r.summary.columns e.1.name e.2
  /-- The tables of details are those of the analysed graphs, if there is a schema for them. -/
  details : r.details =
    match schema with
    | some s => (p.analysed gs).map fun e => detailTable e.2 s
    | none => []
  /-- The tables of details have the keys of the rows for titles. -/
  titles : schema.isSome → r.details.map Table.title = r.summary.rows.map Row.key
  failures : r.failures = (p.failed gs).map fun e => ⟨e.1.name, e.2⟩
  /-- A graph has either one row or one failure. -/
  once : ∀ g ∈ gs,
    (r.summary.rows.map Row.key).count g.name + (r.failures.map Failure.model).count g.name = 1
  /-- As a document, the report has the tables, an entry for every analysis with anomalies and one
  for every failure. -/
  document : ∃ anomalies errors,
    r.toJson.ObjectOf
      [("summary", r.summary.toJson.sorted),
       ("details", .array (r.details.map fun t => t.toJson.sorted)),
       ("anomalies", anomalies), ("errors", errors)] ∧
    anomalies.ObjectOf (((p.analysed gs).filter fun e => !e.2.anomalies.isEmpty).map
      fun e => (e.1.name, anomalyTexts e.2)) ∧
    errors.ObjectOf ((p.failed gs).map fun e => (e.1.name, .text e.2.message))

variable {p : Pipeline} {schema : Option Schema} {gs : List Graph}

/-- The analyses of a report, in the order of their graphs. -/
theorem runs_ofGraphs : (ofGraphs p schema gs).runs = (p.analysed gs).map Prod.snd := by
  show runsOf (outcomes p gs) = _
  rw [runsOf, outcomes, Pipeline.analysed, List.filterMap_map, List.map_filterMap]
  refine List.filterMap_congr fun g _ => ?_
  cases h : p.run g <;> simp [h, Except.toOption]

/-- The failures of a report, in the order of their graphs. -/
theorem failures_ofGraphs :
    (ofGraphs p schema gs).failures = (p.failed gs).map fun e => ⟨e.1.name, e.2⟩ := by
  show failuresOf (outcomes p gs) = _
  rw [failuresOf, outcomes, Pipeline.failed, List.filterMap_map, List.map_filterMap]
  refine List.filterMap_congr fun g _ => ?_
  cases h : p.run g <;> simp [h]

/-- The models of a report are the analysed graphs. -/
theorem models_ofGraphs :
    (ofGraphs p schema gs).runs.map Analysis.model = p.analysedNames gs := by
  rw [runs_ofGraphs, List.map_map]
  exact List.map_congr_left fun e he => Pipeline.model_of_mem_analysed he

/-- The rows of the summaries are those of the analysed graphs, each under the name of its graph. -/
theorem rows_ofGraphs (h : (gs.map Graph.name).Nodup) :
    (ofGraphs p schema gs).summary.rows = (p.analysed gs).map
      fun e => summaryRow (ofGraphs p schema gs).summary.columns e.1.name e.2 := by
  have hmodels : ((ofGraphs p schema gs).runs.map Analysis.model).Nodup :=
    models_ofGraphs ▸ (Pipeline.nodup_names h).1
  rw [summary, summaryTable_rows_of_nodup hmodels, runs_ofGraphs, List.map_map]
  refine List.map_congr_left fun e he => ?_
  rw [← Pipeline.model_of_mem_analysed he]
  rfl

/-- The keys of the rows are the names of the analysed graphs. -/
theorem keys_ofGraphs (h : (gs.map Graph.name).Nodup) :
    (ofGraphs p schema gs).summary.rows.map Row.key = p.analysedNames gs := by
  rw [rows_ofGraphs h, List.map_map]
  rfl

/-- The tables of details are those of the analyses, if there is a schema for them. -/
theorem details_ofGraphs : (ofGraphs p schema gs).details =
    match schema with
    | some s => (p.analysed gs).map fun e => detailTable e.2 s
    | none => [] := by
  cases schema with
  | none => rfl
  | some s =>
    have hdetails : (ofGraphs p (some s) gs).details =
      (ofGraphs p (some s) gs).runs.map fun run => detailTable run s := rfl
    rw [hdetails, runs_ofGraphs, List.map_map]
    rfl

/-- With a schema there is a table of details for every analysed graph, under its name. -/
theorem titles_ofGraphs (s : Schema) :
    (ofGraphs p (some s) gs).details.map Table.title = p.analysedNames gs := by
  rw [details_ofGraphs, List.map_map]
  exact List.map_congr_left fun e he => Pipeline.model_of_mem_analysed he

/-- The failures are under the names of the graphs that cannot be analysed. -/
theorem failureModels_ofGraphs :
    (ofGraphs p schema gs).failures.map Failure.model = p.failedNames gs := by
  rw [failures_ofGraphs, List.map_map]
  rfl

/-! ### The document -/

/-- The anomalies of a report as a document. -/
def anomaliesJson (r : Report) : Json :=
  .object ((r.runs.filter fun run => !run.anomalies.isEmpty).map fun run =>
    (run.model, anomalyTexts run))

/-- The errors of a report as a document. -/
def errorsJson (r : Report) : Json :=
  .object (r.failures.map fun f => (f.model, .text f.error.message))

/-- The members of a report as a document. -/
def parts (r : Report) : List (String × Json) :=
  [("summary", r.summary.toJson), ("details", .array (r.details.map Table.toJson)),
   ("anomalies", r.anomaliesJson), ("errors", r.errorsJson)]

theorem nodup_parts (r : Report) : (r.parts.map Prod.fst).Nodup := by
  show ["summary", "details", "anomalies", "errors"].Nodup
  decide

/-- The document has all parts of the report. -/
theorem objectOf_toJson (r : Report) : r.toJson.ObjectOf
    [("summary", r.summary.toJson.sorted),
     ("details", .array (r.details.map fun t => t.toJson.sorted)),
     ("anomalies", r.anomaliesJson.sorted), ("errors", r.errorsJson.sorted)] := by
  have hobject : r.toJson.ObjectOf (Json.sortedEntries r.parts) :=
    Json.objectOf_sorted r.nodup_parts
  simp only [parts, Json.sortedEntries, Json.sorted_array, List.map_cons, List.map_nil,
    List.map_map] at hobject
  exact hobject

theorem sorted_anomalyTexts (run : Analysis) : (anomalyTexts run).sorted = anomalyTexts run := by
  have htexts := Json.sorted_texts (run.anomalies.map Anomaly.text)
  rwa [List.map_map] at htexts

/-- The anomalies of a report, under the names of their graphs. -/
theorem anomaliesJson_ofGraphs (h : (gs.map Graph.name).Nodup) :
    (ofGraphs p schema gs).anomaliesJson.sorted.ObjectOf
      (((p.analysed gs).filter fun e => !e.2.anomalies.isEmpty).map
        fun e => (e.1.name, anomalyTexts e.2)) := by
  let faulty := (p.analysed gs).filter fun e => !e.2.anomalies.isEmpty
  have hmembers : ((ofGraphs p schema gs).runs.filter fun run => !run.anomalies.isEmpty).map
      (fun run => (run.model, anomalyTexts run)) =
        faulty.map fun e => (e.1.name, anomalyTexts e.2) := by
    rw [runs_ofGraphs, List.filter_map, List.map_map]
    refine List.map_congr_left fun e he => ?_
    rw [← Pipeline.model_of_mem_analysed (List.mem_of_mem_filter he)]
    rfl
  have hnames : ((faulty.map fun e => (e.1.name, anomalyTexts e.2)).map Prod.fst).Nodup := by
    rw [List.map_map]
    exact (Pipeline.nodup_names h).1.sublist (List.filter_sublist.map _)
  rw [anomaliesJson, hmembers]
  refine Json.objectOf_sorted_of_sorted hnames fun _ he => ?_
  obtain ⟨e, -, rfl⟩ := List.mem_map.mp he
  exact sorted_anomalyTexts e.2

/-- The errors of a report, under the names of their graphs. -/
theorem errorsJson_ofGraphs (h : (gs.map Graph.name).Nodup) :
    (ofGraphs p schema gs).errorsJson.sorted.ObjectOf
      ((p.failed gs).map fun e => (e.1.name, .text e.2.message)) := by
  have hnames : (((p.failed gs).map fun e => (e.1.name, Json.text e.2.message)).map
      Prod.fst).Nodup := by
    rw [List.map_map]
    exact (Pipeline.nodup_names h).2
  rw [errorsJson, failures_ofGraphs, List.map_map]
  refine Json.objectOf_sorted_of_sorted hnames fun _ he => ?_
  obtain ⟨e, -, rfl⟩ := List.mem_map.mp he
  exact Json.sorted_text e.2.message

/-- The report of graphs with distinct names accounts for them. -/
theorem accounts_ofGraphs (p : Pipeline) (schema : Option Schema)
    (h : (gs.map Graph.name).Nodup) : (ofGraphs p schema gs).Accounts p schema gs where
  runs := runs_ofGraphs
  rows := rows_ofGraphs h
  details := details_ofGraphs
  titles hschema := by
    obtain ⟨s, rfl⟩ := Option.isSome_iff_exists.mp hschema
    rw [keys_ofGraphs h, ← titles_ofGraphs s]
  failures := failures_ofGraphs
  once g hg := by
    rw [keys_ofGraphs h, failureModels_ofGraphs, ← List.count_append,
      (Pipeline.perm_names p gs).count_eq]
    exact List.count_eq_one_of_mem h (List.mem_map_of_mem hg)
  document := ⟨_, _, objectOf_toJson _, anomaliesJson_ofGraphs h, errorsJson_ofGraphs h⟩

/-! ### The lines -/

namespace Accounts

variable {r : Report}

/-- The lines of the anomalies are under the names of the graphs. -/
theorem anomalyLines (h : r.Accounts p schema gs) : r.anomalyLines = (p.analysed gs).flatMap
    fun e => e.2.anomalies.map fun a => e.1.name ++ ": " ++ a.text ++ "\n" := by
  rw [Report.anomalyLines, h.runs, List.flatMap_map]
  exact List.flatMap_congr fun e he => by rw [Pipeline.model_of_mem_analysed he]

/-- The lines of the failures are under the names of the graphs. -/
theorem failureLines (h : r.Accounts p schema gs) : r.failureLines =
    (p.failed gs).map fun e => e.1.name ++ ": " ++ e.2.message ++ "\n" := by
  rw [Report.failureLines, h.failures, List.map_map]
  rfl

/-- The report has an analysis or a failure for every graph. -/
theorem length (h : r.Accounts p schema gs) : r.failures.length + r.runs.length = gs.length := by
  have hperm := (p.perm_names gs).length_eq
  rw [List.length_append, Pipeline.analysedNames, Pipeline.failedNames, List.length_map,
    List.length_map, List.length_map] at hperm
  rw [h.failures, h.runs, List.length_map, List.length_map]
  omega

end Accounts

end Report

end GraphSurvey
