import GraphSurvey.Proofs.Dictionary
import GraphSurvey.Proofs.Text.Label
import GraphSurvey.Report.Overview
import Mathlib

/-!
# Rows as documents

The document of a row is an object of the key of the row and of its cells. Read back as a map it
always has every cell, since the labels of the columns are distinct. It has the key of the row too
unless a column bears the label of the keys: then two members have one name, and the later one, the
cell, takes the place of the key.

A column of a table of details bears that label if it is declared so, and a column of the table of
summaries if a summary has a field of that name.

## Main definitions

* `GraphSurvey.Schema.Built` — the schemas that are made by adding columns.
* `GraphSurvey.Table.readRow` — a row as it is read back from its document.
* `GraphSurvey.Table.KeepsCells`, `GraphSurvey.Table.KeepsKey` — the cells of a row, and its key,
  are read back.

## Main results

* `GraphSurvey.Schema.Built.nodup_labels` — the labels of a schema are distinct.
* `GraphSurvey.rows_keep_cells_and_key` — which rows are read back with all their cells and with
  their keys.
-/

namespace GraphSurvey

/-! ## Distinct labels -/

namespace Schema

/-- The schema was made by adding columns, one after the other. -/
inductive Built : Schema → Prop
  | empty : Built .empty
  | push {s : Schema} (h : Built s) (path : ColumnPath) (label : String) : Built (s.push path label)

/-- The labels of a schema are distinct, since a taken one is replaced by one that is free. -/
theorem Built.nodup_labels {s : Schema} (h : s.Built) : s.labels.Nodup := by
  induction h with
  | empty => exact List.nodup_nil
  | @push s _ path label ih =>
    rw [Schema.push]
    split
    case isTrue => exact ih
    case isFalse =>
      have hnew := Text.uniqueLabel_not_mem label s.labels
      rw [labels, List.map_append]
      exact List.nodup_append.mpr
        ⟨ih, List.nodup_singleton _, fun a ha b hb hab => hnew (by simp_all [labels])⟩

/-- A schema that is read is made by adding its columns. -/
theorem built_ofList (columns : List Column) : (ofList columns).Built :=
  List.foldlRecOn columns _ Built.empty fun _ h c _ => h.push c.path c.label

end Schema

/-! ## Reading a row back -/

/-- The members of an object. -/
def Json.members : Json → List (String × Json)
  | .object members => members
  | _ => []

namespace Table

/-- The members of the document of a row. -/
def rowMembers (t : Table) (r : Row) : List (String × Json) := (t.rowToJson r).members

/-- The cells of a row as members of its document. -/
def cellMembers (t : Table) (r : Row) : List (String × Json) :=
  List.zipWith (fun column cell => (column, cell.toJson)) t.columns r.cells

theorem rowMembers_eq (t : Table) (r : Row) :
    t.rowMembers r = (t.keyLabel, .text r.key) :: t.cellMembers r := rfl

/-- A row as it is read back from its document. Of several members of one name the last counts. -/
def readRow (t : Table) (r : Row) : Dictionary Json := Dictionary.ofList (t.rowMembers r)

/-- The key is read first, then the cells. -/
theorem readRow_eq (t : Table) (r : Row) : t.readRow r =
    Dictionary.insertAll ((∅ : Dictionary Json).insert t.keyLabel (.text r.key))
      (t.cellMembers r) := by
  rw [readRow, Dictionary.ofList_eq_insertAll, rowMembers_eq, Dictionary.insertAll_cons]

/-- The row has a cell for every column, and reading it back gives every cell under the label of its
column. -/
structure KeepsCells (t : Table) (r : Row) : Prop where
  width : r.cells.length = t.columns.length
  cell : ∀ (i : Nat) (column : String) (cell : Cell), t.columns[i]? = some column →
    r.cells[i]? = some cell → (t.readRow r).get? column = some cell.toJson

/-- The document of a row has distinct names and is read back with the key of the row. -/
structure KeepsKey (t : Table) (r : Row) : Prop where
  nodup : ((t.rowMembers r).map Prod.fst).Nodup
  key : (t.readRow r).get? t.keyLabel = some (.text r.key)

variable {t : Table} {r : Row}

/-- The cells are named by the labels of the columns. -/
theorem map_fst_cellMembers (h : r.cells.length = t.columns.length) :
    (t.cellMembers r).map Prod.fst = t.columns := by
  have hzip : t.cellMembers r = (t.columns.zip r.cells).map fun x => (x.1, x.2.toJson) :=
    List.map_uncurry_zip_eq_zipWith.symm
  rw [hzip, List.map_map]
  exact List.map_fst_zip h.ge

/-- Reading a row back gives every cell if the labels of the columns are distinct. -/
theorem keepsCells_of_nodup (hlabels : t.columns.Nodup)
    (hwidth : r.cells.length = t.columns.length) : t.KeepsCells r where
  width := hwidth
  cell i column cell hcolumn hcell := by
    rw [readRow_eq]
    refine Dictionary.get?_insertAll_of_mem (by rwa [map_fst_cellMembers hwidth])
      (List.mem_of_getElem? (i := i) ?_)
    rw [cellMembers, List.getElem?_zipWith, hcolumn, hcell]

/-- The key of a row is kept exactly if no column bears the label of the keys. -/
theorem keepsKey_iff (hlabels : t.columns.Nodup) (hwidth : r.cells.length = t.columns.length) :
    t.KeepsKey r ↔ t.keyLabel ∉ t.columns := by
  have hnames : (t.rowMembers r).map Prod.fst = t.keyLabel :: t.columns :=
    congrArg (t.keyLabel :: ·) (map_fst_cellMembers hwidth)
  constructor
  · rintro ⟨hnodup, -⟩
    rw [hnames] at hnodup
    exact (List.nodup_cons.mp hnodup).1
  · intro hlabel
    refine ⟨?_, ?_⟩
    · rw [hnames]
      exact List.nodup_cons.mpr ⟨hlabel, hlabels⟩
    · rw [readRow_eq, Dictionary.get?_insertAll_of_not_mem (by rwa [map_fst_cellMembers hwidth]),
        Dictionary.get?_insert_self]

end Table

/-! ## The tables of analyses -/

theorem mem_summaryFields_iff {runs : List Analysis} {field : String} :
    field ∈ summaryFields runs ↔ ∃ run ∈ runs, field ∈ run.summary.names := by
  rw [summaryFields, mem_sortedNames_iff, List.mem_flatMap]

/-- Every row of a table of summaries has a cell for every column. -/
theorem length_cells_summaryTable {runs : List Analysis} {r : Row}
    (h : r ∈ (summaryTable runs).rows) : r.cells.length = (summaryTable runs).columns.length := by
  obtain ⟨i, hlt, rfl⟩ := List.mem_iff_getElem.mp h
  simp only [summaryTable, List.getElem_zipWith, summaryRow, List.length_map]

/-- Reading a row of a table back from its document always gives every cell under the label of its
column. The names of the members are distinct, and the key of the row is among what is read, exactly
if no column bears the label of the keys: in a table of details, if no column is declared with the
label `node`, and in a table of summaries, if no summary has a field `model`. -/
theorem rows_keep_cells_and_key (run : Analysis) {schema : Schema} (hschema : schema.Built)
    (runs : List Analysis) :
    (∀ r ∈ (detailTable run schema).rows, (detailTable run schema).KeepsCells r ∧
      ((detailTable run schema).KeepsKey r ↔ "node" ∉ schema.labels)) ∧
    ∀ r ∈ (summaryTable runs).rows, (summaryTable runs).KeepsCells r ∧
      ((summaryTable runs).KeepsKey r ↔ ∀ run ∈ runs, "model" ∉ run.summary.names) := by
  constructor
  · intro r hr
    have hlabels : (detailTable run schema).columns.Nodup := hschema.nodup_labels
    have hwidth : r.cells.length = (detailTable run schema).columns.length := by
      obtain ⟨e, -, rfl⟩ := List.mem_map.mp hr
      simp [detailRow, detailTable, Schema.labels]
    exact ⟨Table.keepsCells_of_nodup hlabels hwidth, Table.keepsKey_iff hlabels hwidth⟩
  · intro r hr
    have hlabels : (summaryTable runs).columns.Nodup := nodup_sortedNames _
    have hwidth := length_cells_summaryTable hr
    refine ⟨Table.keepsCells_of_nodup hlabels hwidth, ?_⟩
    rw [Table.keepsKey_iff hlabels hwidth]
    show "model" ∉ summaryFields runs ↔ _
    rw [mem_summaryFields_iff]
    simp

/-- The analysis of a graph with one call, of an operator that is named as the keys of a table of
summaries are labelled. -/
def modelCall : Analysis where
  model := "net"
  details := (∅ : DetailStore).record ⟨0⟩ FieldName.op (.text "model")
  summary := (∅ : Summary).insert "model" (.int 1)
  anomalies := []

/-- Two columns, the first of which is declared with the label of the keys. -/
def nodeSchema : Schema :=
  (Schema.empty.withField FieldName.op "node").withField FieldName.index "place"

theorem nodeSchema_built : nodeSchema.Built :=
  (Schema.Built.empty.push ⟨FieldName.op, none⟩ "node").push ⟨FieldName.index, none⟩ "place"

theorem rows_keep_cells_and_key_nodeSchema :
    nodeSchema.Built ∧
    (∃ r ∈ (detailTable modelCall nodeSchema).rows, (detailTable modelCall nodeSchema).KeepsCells r ∧
      ((detailTable modelCall nodeSchema).KeepsKey r ↔ "node" ∉ nodeSchema.labels)) ∧
    ∃ r ∈ (summaryTable [modelCall]).rows, (summaryTable [modelCall]).KeepsCells r := by
  obtain ⟨hdetails, hsummary⟩ := rows_keep_cells_and_key modelCall nodeSchema_built [modelCall]
  exact ⟨nodeSchema_built, ⟨_, List.mem_cons_self, hdetails _ List.mem_cons_self⟩,
    ⟨_, List.mem_cons_self, (hsummary _ List.mem_cons_self).1⟩⟩

/-- Not all rows keep their keys. Under the label of the keys stands the cell of the column that
bears it, in a table of details and in a table of summaries. -/
theorem row_key_hidden :
    (∃ r ∈ (detailTable modelCall nodeSchema).rows,
      ((detailTable modelCall nodeSchema).rowMembers r).map Prod.fst = ["node", "node", "place"] ∧
        ((detailTable modelCall nodeSchema).readRow r).get? "node" = some (.text "model")) ∧
    ∃ r ∈ (summaryTable [modelCall]).rows,
      ((summaryTable [modelCall]).rowMembers r).map Prod.fst = ["model", "model"] ∧
        ((summaryTable [modelCall]).readRow r).get? "model" = some (.int 1) := by
  refine ⟨⟨_, List.mem_cons_self, rfl, ?_⟩, ⟨_, List.mem_cons_self, rfl, ?_⟩⟩
  · exact (Dictionary.get?_insert_of_ne (by decide)).trans (Dictionary.get?_insert_self _ _ _)
  · exact Dictionary.get?_insert_self _ _ _

end GraphSurvey
