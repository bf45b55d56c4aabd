import GraphSurvey.Detail.Store
import GraphSurvey.Pass.Standard
import GraphSurvey.Text.Label

/-!
# Columns of a table of details

A column shows a field of the details of a node, or one element of a field that is a sequence or a
map. A schema is a row of columns without repetitions: a path that is there already is not added
again, and a label that is taken gets a number.

## Main definitions

* `GraphSurvey.ColumnPath`, `GraphSurvey.ColumnPath.resolve` — where the value of a column lives.
* `GraphSurvey.Schema`, `GraphSurvey.Schema.push`, `GraphSurvey.Schema.standard` — rows of columns.
-/

namespace GraphSurvey

/-- A field, or an element of a field. -/
structure ColumnPath where
  field : String
  index : Option Nat
  deriving DecidableEq, Repr

namespace ColumnPath

/-- The value at the path in the details of a node. -/
def resolve (p : ColumnPath) (d : Details) : Option Value :=
  match d.get? p.field with
  | none => none
  | some v =>
    match p.index with
    | none => some v
    | some i => v.at? i

/-- The field with the index between square brackets. -/
def text (p : ColumnPath) : String :=
  match p.index with
  | none => p.field
  | some i => p.field ++ "[" ++ toString i ++ "]"

/-- The document of a path. Without an index there is no member for it. -/
def toJson (p : ColumnPath) : Json :=
  match p.index with
  | none => .object [("field", .text p.field)]
  | some i => .object [("field", .text p.field), ("index", .int i)]

end ColumnPath

/-- A column with its label. -/
structure Column where
  path : ColumnPath
  label : String
  deriving DecidableEq, Repr

/-- The document of a column. -/
def Column.toJson (c : Column) : Json :=
  .object [("path", c.path.toJson), ("label", .text c.label)]

/-- The columns of a table. -/
structure Schema where
  columns : List Column
  deriving DecidableEq, Repr

namespace Schema

/-- The schema without columns. -/
def empty : Schema := ⟨[]⟩

/-- The paths of the columns. -/
def paths (s : Schema) : List ColumnPath := s.columns.map Column.path

/-- The labels of the columns. -/
def labels (s : Schema) : List String := s.columns.map Column.label

/-- Adds a column unless its path is there. -/
def push (s : Schema) (path : ColumnPath) (label : String) : Schema :=
  if path ∈ s.paths then s
  else ⟨s.columns ++ [⟨path, Text.uniqueLabel label s.labels⟩]⟩

/-- Adds the column of a field. -/
def withField (s : Schema) (field label : String) : Schema := s.push ⟨field, none⟩ label

/-- Adds the column of an element of a field. -/
def withElement (s : Schema) (field : String) (index : Nat) (label : String) : Schema :=
  s.push ⟨field, some index⟩ label

/-- The schema of a row of columns. -/
def ofList (columns : List Column) : Schema :=
  columns.foldl (fun s c => s.push c.path c.label) empty

/-- The columns of the standard passes: the place in the order of visits, the operator, the shape of
the result, the shapes of the first arguments, and the attributes. -/
def standard (arity : Nat) (attributes : List String) : Schema :=
  let fixed := ((empty.withField FieldName.index "#").withField FieldName.op "op").withField
    FieldName.outputShape "output shape"
  let withInputs := (List.range arity).foldl
    (fun s i => s.withElement FieldName.inputShapes i ("input " ++ toString i)) fixed
  attributes.foldl (fun s key => s.withField key key) withInputs

/-- The fields that some column shows, in increasing order. -/
def coveredFields (s : Schema) : List String := sortedNames (s.paths.map ColumnPath.field)

/-- The document of a schema is that of its columns. -/
def toJson (s : Schema) : Json := .array (s.columns.map Column.toJson)

end Schema

/-! ## Decoders -/

/-- The parts of a path that were read. -/
structure ColumnPathDraft where
  field : Option String
  index : Option (Option Nat)

/-- The form of a path. The index may be missing. -/
def ColumnPath.record : Record ColumnPathDraft ColumnPath where
  fields :=
    [.required "field" Decoder.text (·.field) fun a s => { s with field := some a },
     .optional "index" (Decoder.optional Decoder.size) (·.index) fun a s =>
       { s with index := some a }]
  isOpen := true
  start := ⟨none, none⟩
  finish s := do return ⟨← given s.field, s.index.getD none⟩

/-- A path. -/
def ColumnPath.decode : Decoder ColumnPath := ColumnPath.record.decode

/-- The parts of a column that were read. -/
structure ColumnDraft where
  path : Option ColumnPath
  label : Option String

/-- The form of a column. -/
def Column.record : Record ColumnDraft Column where
  fields :=
    [.required "path" ColumnPath.decode (·.path) fun a s => { s with path := some a },
     .required "label" Decoder.text (·.label) fun a s => { s with label := some a }]
  isOpen := true
  start := ⟨none, none⟩
  finish s := do return ⟨← given s.path, ← given s.label⟩

/-- A schema. -/
def Schema.decode : Decoder Schema := (Decoder.list Column.record.decode).map Schema.ofList

end GraphSurvey
