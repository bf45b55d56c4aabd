import GraphSurvey.CommandLine.Program
import GraphSurvey.Proofs.Detail.Words
import GraphSurvey.Proofs.Document.Indented
import GraphSurvey.Proofs.Report.Accounts
import GraphSurvey.Proofs.Text.Quoted
import Mathlib

/-!
# Surveys

A survey has its graphs from the catalogue and from files, and gives them names that are all
different. It prints a report that accounts for each of them, as a text with the failures told apart
from it or as a document, and it fails exactly if one of them has failed.

Files are read in a state, so that reading one may change what is read later.

## Main definitions

* `GraphSurvey.NamedApart` — graphs are given ones under names that are all different.
* `GraphSurvey.Outcome.Reports` — what a run of the program prints of graphs, and its exit code.

## Main results

* `GraphSurvey.namedApart_renameGraphs` — renaming keeps everything of a graph but its name.
* `GraphSurvey.reported_reports` — a report that accounts for graphs is printed for them.
* `GraphSurvey.Config.graphs_run_ok` — where the graphs of a configuration come from.
* `GraphSurvey.Config.survey_accounts` — what a survey tells of its graphs.
-/

namespace GraphSurvey

/-! ## Names kept apart -/

/-- The graphs are the given ones in their order, except perhaps for the names, which are all
different. -/
structure NamedApart (sources gs : List Graph) : Prop where
  nodup : (gs.map Graph.name).Nodup
  same : List.Forall₂ (fun source g => g = { source with name := g.name }) sources gs

/-- As many graphs as there are names take these names. -/
theorem map_name_zipWith {names : List String} {gs : List Graph}
    (h : names.length = gs.length) :
    (List.zipWith (fun name g => { g with name := name : Graph }) names gs).map Graph.name =
      names := by
  rw [List.map_zipWith]
  induction names generalizing gs with
  | nil => rfl
  | cons name names ih =>
    cases gs with
    | nil => cases h
    | cons g gs => rw [List.zipWith_cons_cons, ih (Nat.succ.inj h)]

/-- A graph that takes another name keeps everything else. -/
theorem forall₂_zipWith_name {names : List String} {gs : List Graph}
    (h : names.length = gs.length) :
    List.Forall₂ (fun source g => g = { source with name := g.name : Graph }) gs
      (List.zipWith (fun name g => { g with name := name }) names gs) := by
  induction names generalizing gs with
  | nil =>
    obtain rfl := List.length_eq_zero_iff.mp h.symm
    exact .nil
  | cons name names ih =>
    cases gs with
    | nil => cases h
    | cons g gs => exact .cons rfl (ih (Nat.succ.inj h))

/-- Graphs that are renamed keep everything but their names, which become all different. -/
theorem namedApart_renameGraphs (sources : List Graph) :
    NamedApart sources (renameGraphs sources) := by
  have hlength : (Text.uniqueLabels (sources.map Graph.name)).length = sources.length := by simp
  refine ⟨?_, forall₂_zipWith_name hlength⟩
  rw [renameGraphs, map_name_zipWith hlength]
  exact Text.nodup_uniqueLabels _

/-! ## The outcome -/

/-- What stands last among the errors: how many of the graphs have failed, if one of them has. -/
def closingLine (failed graphs : Nat) : String :=
  if failed = 0 then ""
  else "Error: \"" ++ (toString failed ++ " of " ++ toString graphs ++ " runs failed") ++ "\"\n"

/-- A run of the program prints a report on graphs, and it fails if one of them has failed. -/
structure Outcome.Reports (format : OutputFormat) (p : Pipeline) (gs : List Graph) (r : Report)
    (o : Outcome) : Prop where
  /-- The text has every table, with an empty line after it, and then the anomalies. -/
  text : format = .text → o.stdout =
    String.join (((r.summary :: r.details).map fun t => t.text ++ "\n") ++
      (p.analysed gs).flatMap fun e => e.2.anomalies.map fun a =>
        e.1.name ++ ": " ++ a.text ++ "\n")
  /-- The failures are told apart from the text. -/
  textErrors : format = .text → o.stderr =
    String.join ((p.failed gs).map fun e => e.1.name ++ ": " ++ e.2.message ++ "\n") ++
      closingLine (p.failed gs).length gs.length
  /-- The document has everything, and it is read back. -/
  json : format = .json →
    o.stdout = r.toJson.indented ++ "\n" ∧ Tree.ofText o.stdout = (r.toJson.tree, false)
  jsonErrors : format = .json → o.stderr = closingLine (p.failed gs).length gs.length
  code : o.code = if (p.failed gs).isEmpty then 0 else 1

/-- The error that ends a run with failures has nothing to escape. -/
theorem shown_failed {failed graphs : Nat} (h : failed ≠ 0) :
    "Error: " ++ Text.quoted (toString failed ++ " of " ++ toString graphs ++ " runs failed") ++
      "\n" = closingLine failed graphs := by
  have hdigits (n : Nat) : (toString n).toList.all Text.isUnescaped :=
    List.all_eq_true.mpr fun c hc =>
      Text.isUnescaped_of_isDigit (Value.isDigit_of_mem_natChars hc)
  have hof : " of ".toList.all Text.isUnescaped := by decide
  have hruns : " runs failed".toList.all Text.isUnescaped := by decide
  have hunescaped : (toString failed ++ " of " ++ toString graphs ++ " runs failed").toList.all
      Text.isUnescaped := by
    simp only [String.toList_append, List.all_append, Bool.and_eq_true]
    exact ⟨⟨⟨hdigits failed, hof⟩, hdigits graphs⟩, hruns⟩
  have hopening : "Error: \"" = "Error: " ++ "\"" := rfl
  have hclosing : "\"\n" = "\"" ++ "\n" := rfl
  rw [Text.quoted_of_unescaped hunescaped, closingLine, if_neg h, hopening, hclosing]
  simp only [String.append_assoc]

/-- An error leaves what was printed, and the closing line is added. -/
theorem reported_eq (format : OutputFormat) (r : Report) : reported format r =
    ⟨if r.failures.isEmpty then 0 else 1, (printed format r).stdout,
      (printed format r).stderr ++
        closingLine r.failures.length (r.failures.length + r.runs.length)⟩ := by
  cases hfailures : r.failures with
  | nil =>
    have hclosing (graphs : Nat) : closingLine ([] : List Failure).length graphs = "" := rfl
    rw [reported, hfailures, hclosing, String.append_empty]
    cases format <;> rfl
  | cons f rest =>
    have hlength : (f :: rest).length ≠ 0 := Nat.succ_ne_zero _
    rw [reported, hfailures, ← shown_failed hlength, ← String.append_assoc, ← String.append_assoc]
    rfl

section

variable {format : OutputFormat} {p : Pipeline} {schema : Option Schema} {gs : List Graph}
  {r : Report} {o : Outcome}

/-- A report that accounts for graphs is printed for them. -/
theorem reported_reports (format : OutputFormat) (h : r.Accounts p schema gs) :
    (reported format r).Reports format p gs r := by
  have hfailed : r.failures.length = (p.failed gs).length := by rw [h.failures, List.length_map]
  have hcode : r.failures.isEmpty = (p.failed gs).isEmpty := by rw [h.failures, List.isEmpty_map]
  rw [reported_eq, h.length, hfailed, hcode]
  refine
    { text := ?text, textErrors := ?textErrors, json := ?json, jsonErrors := ?jsonErrors
      code := rfl }
  case text =>
    rintro rfl
    rw [← h.anomalyLines]
    rfl
  case textErrors =>
    rintro rfl
    rw [← h.failureLines]
    rfl
  case json =>
    rintro rfl
    exact ⟨rfl, Json.tree_ofText_line r.toJson⟩
  case jsonErrors =>
    rintro rfl
    exact String.empty_append

/-- The program fails exactly if there is a failure to report. -/
theorem Outcome.Reports.code_ne_zero (h : o.Reports format p gs r)
    (haccounts : r.Accounts p schema gs) : o.code ≠ 0 ↔ r.failures ≠ [] := by
  have hnone : r.failures = [] ↔ (p.failed gs).isEmpty := by
    rw [haccounts.failures, List.map_eq_nil_iff, List.isEmpty_iff]
  rw [h.code, ne_eq, ne_eq, hnone]
  split <;> simp [*]

end

/-! ## The survey -/

variable {σ : Type} {read : FileReader (StateM σ)} {c : Config} {p : Pipeline} {gs : List Graph}
  {before after : σ}

/-- The graphs of a configuration are those of its models and of its files, in this order. -/
theorem Config.graphs_run_ok (h : (c.graphs read).run before = (.ok gs, after)) :
    ∃ built loaded, c.modelGraphs = .ok built ∧
      (loadGraphs read c.graphFiles).run before = (.ok loaded, after) ∧
      gs = renameGraphs (built ++ loaded) := by
  rw [graphs] at h
  split at h
  case h_1 => cases h
  case h_2 built hbuilt =>
    rw [StateT.run_bind] at h
    rcases hread : (loadGraphs read c.graphFiles).run before with ⟨_ | loaded, middle⟩
    · rw [hread] at h
      cases h
    · rw [hread] at h
      cases h
      exact ⟨built, loaded, hbuilt, rfl, rfl⟩

/-- A survey that has its pipeline and its graphs reports on them. -/
theorem survey_run (hpipeline : c.pipeline = .ok p)
    (hgraphs : (c.graphs read).run before = (.ok gs, after)) (summaryOnly : Bool) :
    (survey read summaryOnly c).run before =
      (reported c.format
        (.ofGraphs p (if summaryOnly then none else some c.detailSchema) gs), after) := by
  rw [survey, hpipeline]
  simp only [StateT.run_bind, hgraphs]
  rfl

/-- Every graph of a survey is accounted for exactly once. The graphs of a configuration are its
models and those of its files, except perhaps for their names, which are all different. The report
has either a row and, unless only the summaries are asked for, a table of details for a graph, or a
failure, all in the order of the graphs and under their names; so it has as a document. The program
prints the report in the format of the configuration, and it fails exactly if there is a
failure. -/
theorem Config.survey_accounts (hpipeline : c.pipeline = .ok p)
    (hgraphs : (c.graphs read).run before = (.ok gs, after)) (summaryOnly : Bool) :
    (∃ built loaded, c.modelGraphs = .ok built ∧
      (loadGraphs read c.graphFiles).run before = (.ok loaded, after) ∧
      NamedApart (built ++ loaded) gs) ∧
    ∃ (r : Report) (outcome : Outcome),
      r.Accounts p (if summaryOnly then none else some c.detailSchema) gs ∧
      (survey read summaryOnly c).run before = (outcome, after) ∧
      outcome.Reports c.format p gs r ∧ (outcome.code ≠ 0 ↔ r.failures ≠ []) := by
  obtain ⟨built, loaded, hbuilt, hloaded, rfl⟩ := graphs_run_ok hgraphs
  have hnamed := namedApart_renameGraphs (built ++ loaded)
  have haccounts := Report.accounts_ofGraphs p
    (if summaryOnly then none else some c.detailSchema) hnamed.nodup
  have hreports := reported_reports c.format haccounts
  exact ⟨⟨built, loaded, hbuilt, hloaded, hnamed⟩, _, _, haccounts,
    survey_run hpipeline hgraphs summaryOnly, hreports, hreports.code_ne_zero haccounts⟩

/-! ### A survey of two files -/

/-- The texts of two graph files. Both graphs have one name; the first has a call of a type that is
known by its name only, its node and call being written as arrays of their parts, and the output of
the second is not there. -/
def netFile (path : String) : String :=
  if path = "whole.json" then
    "\x7b\"name\":\"net\",\"nodes\":[[0,\x7b\"Call\":[\"f\",[],\x7b\x7d,\x7b\"Opaque\":\"T\"\x7d]\x7d]]," ++
      "\"outputs\":[0]\x7d"
  else "\x7b\"name\":\"net\",\"nodes\":[],\"outputs\":[0]\x7d"

/-- Reads the two files. -/
def netReader : FileReader (StateM Unit) := fun path => return .ok (netFile path)

/-- The configuration of a survey of both files. -/
def netSurvey : Config :=
  { Config.standard with graphFiles := ["whole.json", "broken.json"], attributes := [] }

/-- The pipeline of the survey. -/
def netPipeline : Pipeline := ⟨Pass.configured [] FieldName.op⟩

/-- The graphs of the survey, the second with a number behind its name. -/
def nets : List Graph :=
  [⟨"net", #[⟨⟨0⟩, .call ⟨"f", [], ∅, .named "T"⟩⟩], [⟨0⟩]⟩, ⟨"net#2", #[], [⟨0⟩]⟩]

/-- The table of summaries. -/
def netSummary : Table := ⟨"summary", "model", ["f"], [⟨"net", [.value (.int 1)]⟩]⟩

/-- The table of details of the first graph. -/
def netDetails : Table :=
  ⟨"net", "node", ["#", "op", "output shape", "input 0", "input 1"],
    [⟨"%0", [.value (.int 0), .value (.text "f"), .absent, .absent, .absent]⟩]⟩

/-- What is wrong with the second graph. -/
def netError : AnalysisError := .graph (.nodeNotFound ⟨0⟩)

/-- The text of the survey. -/
def netText : String :=
  "summary\nmodel  f\n-----  -\nnet    1\n\n" ++
    "net\n" ++
    "node  #  op  output shape  input 0  input 1\n" ++
    "----  -  --  ------------  -------  -------\n" ++
    "%0    0  f   -             -        -\n\n" ++
    "net: %0 [output_shape]: unrecognized result type <T> for 'f'\n"

/-- The document of the survey, with summaries only. -/
def netDocument : Json :=
  .object
    [("anomalies", .object
       [("net", .array [.text "%0 [output_shape]: unrecognized result type <T> for 'f'"])]),
     ("details", .array []),
     ("errors", .object [("net#2", .text "Graph error: node %0 not found")]),
     ("summary", .object
       [("columns", .array [.text "f"]),
        ("rows", .array [.object [("f", .int 1), ("model", .text "net")]]),
        ("title", .text "summary")])]

theorem failed_nets :
    netPipeline.failed nets = [(⟨"net#2", #[], [⟨0⟩]⟩, netError)] := by cbv

theorem summaryTable_nets :
    summaryTable ((netPipeline.analysed nets).map Prod.snd) = netSummary := by cbv

theorem detailTable_nets : (netPipeline.analysed nets).map
    (fun e => detailTable e.2 netSurvey.detailSchema) = [netDetails] := by cbv

theorem anomalyLines_nets : (netPipeline.analysed nets).flatMap
    (fun e => e.2.anomalies.map fun a => e.1.name ++ ": " ++ a.text ++ "\n") =
      ["net: %0 [output_shape]: unrecognized result type <T> for 'f'\n"] := by cbv

theorem message_netError : netError.message = "Graph error: node %0 not found" := by decide

/-- The tables and the lines of the anomalies make the text. -/
theorem join_netText : String.join ([netSummary.text ++ "\n", netDetails.text ++ "\n"] ++
    ["net: %0 [output_shape]: unrecognized result type <T> for 'f'\n"]) = netText := by
  have hsummary : netSummary.text = "summary\nmodel  f\n-----  -\nnet    1\n" := by cbv
  have hdetails : netDetails.text =
      "net\nnode  #  op  output shape  input 0  input 1\n" ++
        "----  -  --  ------------  -------  -------\n" ++
        "%0    0  f   -             -        -\n" := by cbv
  rw [hsummary, hdetails]
  decide +kernel

theorem messages_nets : (netPipeline.failed nets).map (fun e => (e.1.name, Json.text e.2.message)) =
    [("net#2", .text "Graph error: node %0 not found")] := by
  rw [failed_nets, ← message_netError]
  rfl

section

variable {r : Report} {schema : Option Schema}

theorem summary_nets (h : r.Accounts netPipeline schema nets) : r.summary = netSummary := by
  rw [Report.summary, h.runs, summaryTable_nets]

theorem toJson_nets (h : r.Accounts netPipeline none nets) : r.toJson = netDocument := by
  have hanomalies : r.anomaliesJson = .object
      [("net", .array [.text "%0 [output_shape]: unrecognized result type <T> for 'f'"])] := by
    rw [Report.anomaliesJson, h.runs]
    cbv
  have herrors : r.errorsJson = .object [("net#2", .text "Graph error: node %0 not found")] := by
    rw [Report.errorsJson, h.failures, List.map_map]
    exact congrArg Json.object messages_nets
  have hparts : r.toJson = (Json.object r.parts).sorted := rfl
  rw [hparts, Report.parts, summary_nets h, h.details, hanomalies, herrors]
  cbv

end

theorem Config.survey_accounts_netSurvey :
    netSurvey.pipeline = .ok netPipeline ∧
    (netSurvey.graphs netReader).run () = (.ok nets, ()) ∧
    (∃ (r : Report) (outcome : Outcome),
      (survey netReader false netSurvey).run () = (outcome, ()) ∧
      r.summary = netSummary ∧ r.details = [netDetails] ∧
      r.failures.map Failure.model = ["net#2"] ∧
      (∃ anomalies errors,
        r.toJson.ObjectOf
          [("summary", netSummary.toJson.sorted), ("details", .array [netDetails.toJson.sorted]),
           ("anomalies", anomalies), ("errors", errors)] ∧
        anomalies.ObjectOf
          [("net", .array [.text "%0 [output_shape]: unrecognized result type <T> for 'f'"])] ∧
        errors.ObjectOf [("net#2", .text "Graph error: node %0 not found")]) ∧
      outcome.stdout = netText ∧
      outcome.stderr =
        "net#2: Graph error: node %0 not found\nError: \"1 of 2 runs failed\"\n" ∧
      outcome.code = 1) ∧
    ∃ outcome : Outcome,
      (survey netReader true { netSurvey with format := .json }).run () = (outcome, ()) ∧
      outcome.stdout = netDocument.indented ++ "\n" ∧
      outcome.stderr = "Error: \"1 of 2 runs failed\"\n" ∧ outcome.code = 1 := by
  have hpipeline : netSurvey.pipeline = .ok netPipeline := by cbv
  have hgraphs : (netSurvey.graphs netReader).run () = (.ok nets, ()) := by cbv
  have hanomalies : ((netPipeline.analysed nets).filter fun e => !e.2.anomalies.isEmpty).map
      (fun e => (e.1.name, Report.anomalyTexts e.2)) =
        [("net", .array [.text "%0 [output_shape]: unrecognized result type <T> for 'f'"])] := by
    cbv
  refine ⟨hpipeline, hgraphs, ?text, ?json⟩
  case text =>
    obtain ⟨-, r, outcome, haccounts, hsurvey, hreports, -⟩ :=
      survey_accounts hpipeline hgraphs false
    have hdetails : r.details = [netDetails] := haccounts.details.trans detailTable_nets
    have hfailures : r.failures.map Failure.model = ["net#2"] := by
      rw [haccounts.failures, failed_nets]
      rfl
    obtain ⟨anomalies, errors, hdocument, hmembers, hmessages⟩ := haccounts.document
    rw [summary_nets haccounts, hdetails] at hdocument
    rw [hanomalies] at hmembers
    rw [messages_nets] at hmessages
    refine ⟨r, outcome, hsurvey, summary_nets haccounts, hdetails, hfailures,
      ⟨anomalies, errors, hdocument, hmembers, hmessages⟩, ?stdout, ?stderr, ?code⟩
    case stdout =>
      rw [hreports.text rfl, summary_nets haccounts, hdetails, anomalyLines_nets]
      exact join_netText
    case stderr =>
      rw [hreports.textErrors rfl, failed_nets]
      decide +kernel
    case code =>
      rw [hreports.code, failed_nets]
      rfl
  case json =>
    have hpipelineJson : ({ netSurvey with format := .json } : Config).pipeline = .ok netPipeline :=
      hpipeline
    have hgraphsJson : (({ netSurvey with format := .json } : Config).graphs netReader).run () =
        (.ok nets, ()) := hgraphs
    obtain ⟨-, r, outcome, haccounts, hsurvey, hreports, -⟩ :=
      survey_accounts hpipelineJson hgraphsJson true
    refine ⟨outcome, hsurvey, ?stdout, ?stderr, ?code⟩
    case stdout => rw [(hreports.json rfl).1, toJson_nets haccounts]
    case stderr =>
      rw [hreports.jsonErrors rfl, failed_nets]
      decide +kernel
    case code =>
      rw [hreports.code, failed_nets]
      rfl

end GraphSurvey
