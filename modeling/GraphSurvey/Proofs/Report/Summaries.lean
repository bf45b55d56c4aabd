import GraphSurvey.Proofs.Report.Accounts
import GraphSurvey.Proofs.Report.Lookup
import Mathlib

/-!
# Summaries read off their table

The table of summaries has a column for every field of any summary and a row for every analysis. A
field that an analysis does not have is absent from its row, so the summary can be read off the row
again, with no field more and none less. The columns do not depend on the order of the analyses, and
where the names of the graphs are distinct, the rows follow that order.

## Main definitions

* `GraphSurvey.Table.rowFields` — the fields that a row has values for.
* `GraphSurvey.Table.Tells` — a row has the fields of a summary and no others.

## Main results

* `GraphSurvey.tells_summaryRow` — the row of an analysis tells its summary.
* `GraphSurvey.summaryFields_congr` — the columns depend on the analyses alone, not on their order.
* `GraphSurvey.summaryTable_complete` — what the table of summaries tells of a list of analyses.
-/

namespace GraphSurvey

/-! ## Rows -/

/-- The value of a cell. -/
def Cell.value? : Cell → Option Value
  | .value v => some v
  | .absent => none

@[simp] theorem Cell.value?_ofOption (v : Option Value) : (Cell.ofOption v).value? = v := by
  cases v <;> rfl

theorem Cell.isAbsent_iff {c : Cell} : c.isAbsent ↔ c.value? = none := by
  cases c <;> simp [isAbsent, value?]

namespace Table

/-- The fields that a row has values for, by the labels of their columns. -/
def rowFields (t : Table) (r : Row) : Summary :=
  Dictionary.ofList
    ((t.columns.zip r.cells).filterMap fun e => e.2.value?.map fun v => (e.1, v))

/-- The row has the value of every field of the summary under the label of a column, and for the
other columns its cells are absent. -/
structure Tells (t : Table) (r : Row) (summary : Summary) : Prop where
  width : r.cells.length = t.columns.length
  cell : ∀ (j : Nat) (column : String), t.columns[j]? = some column →
    ∃ c, r.cells[j]? = some c ∧ (∀ v, c.value? = some v → summary.get? column = some v) ∧
      (c.isAbsent ↔ summary.get? column = none)
  rowFields : t.rowFields r = summary

end Table

/-- The row of an analysis tells its summary if every field has a column. -/
theorem tells_summaryRow {t : Table} (key : String) {run : Analysis} (hcolumns : t.columns.Nodup)
    (hall : run.summary.names ⊆ t.columns) :
    t.Tells (summaryRow t.columns key run) run.summary where
  width := List.length_map _
  cell j column hcolumn := by
    refine ⟨.ofOption (run.summary.get? column), ?_, fun v hv => ?_, ?_⟩
    · rw [summaryRow, List.getElem?_map, hcolumn]
      rfl
    · rwa [Cell.value?_ofOption] at hv
    · rw [Cell.isAbsent_iff, Cell.value?_ofOption]
  rowFields := by
    have hzip : t.columns.zip (summaryRow t.columns key run).cells =
        t.columns.map fun column => (column, Cell.ofOption (run.summary.get? column)) := by
      have hmap := List.zip_map' (f := id)
        (g := fun column => Cell.ofOption (run.summary.get? column)) (l := t.columns)
      rwa [List.map_id] at hmap
    rw [Table.rowFields, hzip, List.filterMap_map]
    simp only [Function.comp_def, Cell.value?_ofOption]
    exact Dictionary.ofList_filterMap_get? hcolumns hall

/-! ## The table -/

variable {runs runs' : List Analysis} {run : Analysis} {i : Nat}

theorem names_subset_summaryFields (hrun : run ∈ runs) : run.summary.names ⊆ summaryFields runs :=
  fun _ hfield => mem_summaryFields_iff.mpr ⟨run, hrun, hfield⟩

/-- The same analyses in another order have the same columns. -/
theorem summaryFields_congr (h : ∀ run, run ∈ runs ↔ run ∈ runs') :
    summaryFields runs = summaryFields runs' :=
  sortedNames_congr fun field => by simp only [List.mem_flatMap, h]

@[simp] theorem length_rows_summaryTable (runs : List Analysis) :
    (summaryTable runs).rows.length = runs.length := by
  rw [← List.length_map Row.key, map_key_summaryTable, summaryKeys, Text.length_uniqueLabels,
    List.length_map]

/-- The analyses in another order. -/
def reordered (runs : List Analysis) (σ : Equiv.Perm (Fin runs.length)) : List Analysis :=
  List.ofFn fun i => runs.get (σ i)

theorem getElem?_reordered (runs : List Analysis) (σ : Equiv.Perm (Fin runs.length))
    (i : Fin runs.length) : (reordered runs σ)[i.val]? = runs[(σ i).val]? := by
  rw [reordered, List.getElem?_ofFn, dif_pos i.isLt, List.getElem?_eq_getElem (σ i).isLt]
  rfl

theorem perm_reordered (runs : List Analysis) (σ : Equiv.Perm (Fin runs.length)) :
    (reordered runs σ).Perm runs := by
  have hperm := Equiv.Perm.ofFn_comp_perm σ runs.get
  rwa [List.ofFn_get] at hperm

/-- The table of summaries tells everything of a list of analyses. Its columns increase and are the
fields of all summaries. It has a row for every analysis, in their order, under the name of its
graph or a numbered form of it, and the row tells the summary. The analyses in another order have
the same columns, and where the names of their graphs are distinct, the same rows in that order. -/
theorem summaryTable_complete (runs : List Analysis) :
    (summaryTable runs).columns.Pairwise (· < ·) ∧
    (∀ field, field ∈ (summaryTable runs).columns ↔ ∃ run ∈ runs, field ∈ run.summary.names) ∧
    (summaryTable runs).rows.length = runs.length ∧
    (∀ (i : Nat) (run : Analysis), runs[i]? = some run →
      ∃ r, (summaryTable runs).rows[i]? = some r ∧
        (r.key = run.model ∨ ∃ n, 2 ≤ n ∧ r.key = Text.numberedLabel run.model n) ∧
        (summaryTable runs).Tells r run.summary) ∧
    ∀ σ : Equiv.Perm (Fin runs.length),
      (summaryTable (reordered runs σ)).columns = (summaryTable runs).columns ∧
      ((runs.map Analysis.model).Nodup → ∀ i : Fin runs.length,
        (summaryTable (reordered runs σ)).rows[i.val]? = (summaryTable runs).rows[(σ i).val]?) := by
  refine ⟨pairwise_sortedNames _, fun field => mem_summaryFields_iff, length_rows_summaryTable runs,
    fun i run hrun => ?_, fun σ => ?_⟩
  · refine ⟨_, getElem?_rows_summaryTable hrun, ?_, ?_⟩
    · rcases Text.uniqueLabel_cases run.model ((summaryKeys runs).take i) with
        ⟨-, hkept⟩ | ⟨-, n, hn, hnumbered⟩
      · exact .inl hkept
      · exact .inr ⟨n, hn, hnumbered⟩
    · exact tells_summaryRow _ (nodup_sortedNames _)
        (names_subset_summaryFields (List.mem_of_getElem? hrun))
  · have hperm := perm_reordered runs σ
    have hfields : summaryFields (reordered runs σ) = summaryFields runs :=
      summaryFields_congr fun run => hperm.mem_iff
    refine ⟨hfields, fun hmodels i => ?_⟩
    have hmodels' : ((reordered runs σ).map Analysis.model).Nodup :=
      (hperm.map Analysis.model).nodup_iff.mpr hmodels
    rw [summaryTable_rows_of_nodup hmodels, summaryTable_rows_of_nodup hmodels', hfields,
      List.getElem?_map, List.getElem?_map, getElem?_reordered]

/-- Two analyses whose summaries have different fields, in the other order. -/
theorem summaryTable_complete_swapped :
    ∃ r, (summaryTable [modelCall, countedCalls "other" 3]).rows[1]? = some r ∧
      (summaryTable [modelCall, countedCalls "other" 3]).Tells r (countedCalls "other" 3).summary ∧
      (summaryTable (reordered [modelCall, countedCalls "other" 3] (Equiv.swap 0 1))).columns =
        (summaryTable [modelCall, countedCalls "other" 3]).columns ∧
      (summaryTable (reordered [modelCall, countedCalls "other" 3] (Equiv.swap 0 1))).rows[0]? =
        some r := by
  obtain ⟨-, -, -, hrows, hreordered⟩ :=
    summaryTable_complete [modelCall, countedCalls "other" 3]
  obtain ⟨r, hr, -, htells⟩ := hrows 1 (countedCalls "other" 3) rfl
  obtain ⟨hcolumns, hfollow⟩ := hreordered (Equiv.swap 0 1)
  exact ⟨r, hr, htells, hcolumns, (hfollow (by decide) 0).trans hr⟩

end GraphSurvey
