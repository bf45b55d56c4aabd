import GraphSurvey.Detail.Value
import GraphSurvey.Text.Blank
import GraphSurvey.Text.Quoted

/-!
# Tables

A table has a title, labelled columns and rows with a key each. A cell without a value is absent,
which is neither an empty value nor a zero. As a text, columns are as wide as their widest entry and
two spaces apart; as a document, a row is an object of its key and its cells by their labels.

## Main definitions

* `GraphSurvey.Cell`, `GraphSurvey.Row`, `GraphSurvey.Table` — tables and their parts.
* `GraphSurvey.Table.cell?` — the cell of a key and a label.
* `GraphSurvey.Table.text`, `GraphSurvey.Table.toJson` — a table as a text and as a document.
-/

namespace GraphSurvey

/-- What a row has in a column. -/
inductive Cell where
  | value (v : Value)
  | absent

namespace Cell

/-- The cell of a value that may be missing. -/
def ofOption : Option Value → Cell
  | some v => .value v
  | none => .absent

/-- The cell has no value. -/
def isAbsent : Cell → Bool
  | .value _ => false
  | .absent => true

/-- What is shown for an absent cell. -/
def marker : String := "-"

/-- What is shown for a cell. A recorded text that looks like the marker is quoted. -/
def text : Cell → String
  | .value (.text s) => if s = marker then Text.quoted s else s
  | .value v => v.words
  | .absent => marker

/-- The document of a cell. No value has the document `null`. -/
def toJson : Cell → Json
  | .value v => v.toJson
  | .absent => .null

end Cell

/-- A row with its key. -/
structure Row where
  key : String
  cells : List Cell

/-- A table. -/
structure Table where
  title : String
  keyLabel : String
  columns : List String
  rows : List Row

namespace Table

/-- The cell in the first row of the given key and the first column of the given label. -/
def cell? (t : Table) (key column : String) : Option Cell := do
  let i ← t.columns.findIdx? (· = column)
  let row ← t.rows.find? (·.key = key)
  row.cells[i]?

/-! ## As a text -/

/-- The entries of the head of a table. -/
def header (t : Table) : List String := t.keyLabel :: t.columns

/-- The entries of a row. -/
def entries (r : Row) : List String := r.key :: r.cells.map Cell.text

/-- Widths that also hold the entries of one more row. -/
def widen : List Nat → List String → List Nat
  | w :: ws, e :: es => max w e.length :: widen ws es
  | ws, _ => ws

/-- The widths of the columns. -/
def widths (t : Table) : List Nat :=
  (t.rows.map entries).foldl widen (t.header.map String.length)

/-- The line of some entries in columns of the given widths. -/
def line (widths : List Nat) (entries : List String) : List Char :=
  Text.trimEnd ([' ', ' '].intercalate
    (List.zipWith (fun w e => Text.padRight w e.toList) widths entries))

/-- The rule below the head. -/
def rule (widths : List Nat) : List String :=
  widths.map fun w => String.ofList (List.replicate w '-')

/-- The lines of the table. -/
def lines (t : Table) : List (List Char) :=
  t.title.toList :: line t.widths t.header :: line t.widths (rule t.widths) ::
    t.rows.map fun r => line t.widths (entries r)

/-- The table as a text, every line with a line feed at its end. -/
def text (t : Table) : String := String.ofList (t.lines.flatMap fun l => l ++ ['\n'])

/-! ## As a document -/

/-- The document of a row. -/
def rowToJson (t : Table) (r : Row) : Json :=
  .object ((t.keyLabel, .text r.key) ::
    List.zipWith (fun column cell => (column, cell.toJson)) t.columns r.cells)

/-- The document of a table. -/
def toJson (t : Table) : Json :=
  .object
    [("title", .text t.title),
     ("columns", .array (t.columns.map .text)),
     ("rows", .array (t.rows.map t.rowToJson))]

end Table

end GraphSurvey
