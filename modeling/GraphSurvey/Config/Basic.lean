import GraphSurvey.Builder.Catalog
import GraphSurvey.Config.Error
import GraphSurvey.Graph.Read
import GraphSurvey.Pipeline.Run
import GraphSurvey.Report.Overview

/-!
# Configurations

A configuration names the models and the graph files to be analysed, the passes that run over them
and the columns of the tables. A document of a configuration may leave out any part of it.

## Main definitions

* `GraphSurvey.Config` — a configuration, with `Config.decode`, `Config.toJson` and `Config.load`.
* `GraphSurvey.Config.pipeline`, `GraphSurvey.Config.detailSchema`, `GraphSurvey.Config.graphs` —
  what a configuration asks for.
* `GraphSurvey.loadGraph` — the graph in a file.
-/

namespace GraphSurvey

/-- The form of a report. -/
inductive OutputFormat where
  | text
  | json
  deriving DecidableEq, Repr

/-- The format of a name. -/
def OutputFormat.ofName? : String → Option OutputFormat
  | "text" => some .text
  | "json" => some .json
  | _ => none

/-- The name of a format. -/
def OutputFormat.name : OutputFormat → String
  | .text => "text"
  | .json => "json"

/-- A configuration of a report. -/
structure Config where
  /-- Models of the catalogue. Without models and graph files the whole catalogue is meant. -/
  models : List String
  /-- Paths of graph files. -/
  graphFiles : List String
  /-- Attributes that are extracted. -/
  attributes : List String
  /-- The field whose values are counted. -/
  histogramField : String
  /-- The number of arguments whose shapes the standard columns show. -/
  inputColumns : Nat
  /-- Columns in place of the standard ones. -/
  columns : Option Schema
  format : OutputFormat
  /-- The graphs may be analysed at the same time. -/
  parallel : Bool

namespace Config

/-- The configuration of a report that nothing was asked of. -/
def standard : Config where
  models := []
  graphFiles := []
  attributes := Pass.defaultAttributes
  histogramField := FieldName.op
  inputColumns := 2
  columns := none
  format := .text
  parallel := true

/-! ## Documents -/

/-- The parts of a configuration that were read. -/
structure Draft where
  models : Option (List String)
  graphFiles : Option (List String)
  attributes : Option (List String)
  histogramField : Option String
  inputColumns : Option Nat
  columns : Option (Option Schema)
  format : Option OutputFormat
  parallel : Option Bool

/-- The configuration of a draft, missing parts being those of the standard one. -/
def ofDraft (s : Draft) : Config where
  models := s.models.getD standard.models
  graphFiles := s.graphFiles.getD standard.graphFiles
  attributes := s.attributes.getD standard.attributes
  histogramField := s.histogramField.getD standard.histogramField
  inputColumns := s.inputColumns.getD standard.inputColumns
  columns := s.columns.getD standard.columns
  format := s.format.getD standard.format
  parallel := s.parallel.getD standard.parallel

/-- The form of a configuration. -/
def record : Record Draft Config where
  fields :=
    [.optional "models" (Decoder.list Decoder.text) (·.models) fun a s =>
       { s with models := some a },
     .optional "graphs" (Decoder.list Decoder.text) (·.graphFiles) fun a s =>
       { s with graphFiles := some a },
     .optional "attributes" (Decoder.list Decoder.text) (·.attributes) fun a s =>
       { s with attributes := some a },
     .optional "histogram_field" Decoder.text (·.histogramField) fun a s =>
       { s with histogramField := some a },
     .optional "input_columns" Decoder.size (·.inputColumns) fun a s =>
       { s with inputColumns := some a },
     .optional "columns" (Decoder.optional Schema.decode) (·.columns) fun a s =>
       { s with columns := some a },
     .optional "format" (Decoder.symbol OutputFormat.ofName?) (·.format) fun a s =>
       { s with format := some a },
     .optional "parallel" Decoder.bool (·.parallel) fun a s => { s with parallel := some a }]
  isOpen := true
  start := ⟨none, none, none, none, none, none, none, none⟩
  finish s := .ok (ofDraft s)

/-- A configuration. -/
def decode : Decoder Config := record.decode

/-- The document of a configuration. -/
def toJson (c : Config) : Json :=
  .object
    [("models", .array (c.models.map .text)),
     ("graphs", .array (c.graphFiles.map .text)),
     ("attributes", .array (c.attributes.map .text)),
     ("histogram_field", .text c.histogramField),
     ("input_columns", .int c.inputColumns),
     ("columns", match c.columns with
       | some s => s.toJson
       | none => .null),
     ("format", .text c.format.name),
     ("parallel", .bool c.parallel)]

end Config

/-! ## Files -/

variable {m : Type → Type} [Monad m] {α : Type}

/-- What a decoder makes of the text of a file. -/
def decodeFile (d : Decoder α) (path : String) : Except FileError String → Except ConfigError α
  | .error e => .error (.file path e)
  | .ok s =>
    match d.ofText s with
    | .error f => .error (.document path f)
    | .ok a => .ok a

/-- The graph of a decoded document, if its nodes are labelled by their positions. -/
def checkGraph (path : String) : Except ConfigError Graph → Except ConfigError Graph
  | .error e => .error e
  | .ok g =>
    match g.checkIds with
    | .error e => .error (.graph path e)
    | .ok () => .ok g

/-- The graph in a file. -/
def loadGraph (read : FileReader m) (path : String) : m (Except ConfigError Graph) := do
  return checkGraph path (decodeFile Graph.decode path (← read path))

/-- The graphs in files, up to the first one that cannot be had. -/
def loadGraphs (read : FileReader m) : List String → m (Except ConfigError (List Graph))
  | [] => return .ok []
  | path :: rest => do
    match ← loadGraph read path with
    | .error e => return .error e
    | .ok g =>
      match ← loadGraphs read rest with
      | .error e => return .error e
      | .ok gs => return .ok (g :: gs)

/-- Graphs with names that are all different: a name that repeats an earlier one gets a number. -/
def renameGraphs (gs : List Graph) : List Graph :=
  List.zipWith (fun name g => { g with name := name }) (Text.uniqueLabels (gs.map Graph.name)) gs

namespace Config

/-- The configuration in a file. -/
def load (read : FileReader m) (path : String) : m (Except ConfigError Config) := do
  return decodeFile decode path (← read path)

/-! ## What a configuration asks for -/

/-- The passes. -/
def pipeline (c : Config) : Except ConfigError Pipeline :=
  match Pipeline.ofPasses (Pass.configured c.attributes c.histogramField) with
  | .ok p => .ok p
  | .error e => .error (.analysis e)

/-- The columns of the tables of details. -/
def detailSchema (c : Config) : Schema :=
  match c.columns with
  | some s => s
  | none => Schema.standard c.inputColumns c.attributes

/-- The models of the catalogue that are asked for. -/
def modelGraphs (c : Config) : Except ConfigError (List Graph) :=
  let builds :=
    if c.models.isEmpty ∧ c.graphFiles.isEmpty then catalog.map Model.build
    else c.models.map buildModel
  match builds.mapM id with
  | .ok gs => .ok gs
  | .error e => .error (.build e)

/-- The graphs, first the models, then those in files, under names that are all different. -/
def graphs (c : Config) (read : FileReader m) : m (Except ConfigError (List Graph)) := do
  match c.modelGraphs with
  | .error e => return .error e
  | .ok built =>
    match ← loadGraphs read c.graphFiles with
    | .error e => return .error e
    | .ok loaded => return .ok (renameGraphs (built ++ loaded))

end Config

end GraphSurvey
