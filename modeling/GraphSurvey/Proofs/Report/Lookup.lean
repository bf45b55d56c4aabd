import GraphSurvey.Proofs.Report.Rows
import Mathlib

/-!
# Looking cells up

A cell of a table is looked up by the key of its row and the label of its column, and the first row
and the first column of these names count. Where keys and labels are distinct, every cell is found
in its place, and so it is in all tables that are made of analyses.

The key of a row in the table of summaries is the name of its graph unless an earlier row has that
key, be it that its graph has the same name or that a number behind another name made it so. In the
second case the name leads to the earlier row although no two graphs share it.

## Main definitions

* `GraphSurvey.Table.Exact` — keys and labels are distinct, and every cell is found in its place.
* `GraphSurvey.summaryKeys` — the keys of the table of summaries.
* `GraphSurvey.LeadsTo` — a name leads to the row of an analysis.

## Main results

* `GraphSurvey.tables_exact` — every cell of a table of analyses is found in its place.
* `GraphSurvey.summary_found_or_hidden` — a name that no other graph has leads to the row of its
  graph, or to an earlier row whose key was given a number.
-/

namespace GraphSurvey

/-! ## Keys and labels that are distinct -/

namespace Table

/-- The keys of the rows are distinct and so are the labels of the columns, every row has a cell for
every column, and looking it up by its key and its label gives the cell. -/
structure Exact (t : Table) : Prop where
  keys : (t.rows.map Row.key).Nodup
  columns : t.columns.Nodup
  width : ∀ r ∈ t.rows, r.cells.length = t.columns.length
  cell : ∀ r ∈ t.rows, ∀ (j : Nat) (column : String), t.columns[j]? = some column →
    ∃ cell, r.cells[j]? = some cell ∧ t.cell? r.key column = some cell

variable {t : Table} {r : Row} {key column : String} {j : Nat}

/-- A cell is in the first row of its key and in the only column of its label. -/
theorem cell?_of_find (hcolumns : t.columns.Nodup) (hcolumn : t.columns[j]? = some column)
    (hrow : t.rows.find? (·.key = key) = some r) : t.cell? key column = r.cells[j]? := by
  obtain ⟨hlt, rfl⟩ := List.getElem?_eq_some_iff.mp hcolumn
  have hfirst : t.columns.findIdx? (· = t.columns[j]) = some j := by
    refine List.findIdx?_eq_some_iff_getElem.mpr ⟨hlt, decide_eq_true rfl, fun k hk heq => ?_⟩
    exact hk.ne (hcolumns.getElem_inj_iff.mp (of_decide_eq_true heq))
  rw [cell?, hfirst, Option.bind_eq_bind, Option.bind_some, hrow, Option.bind_eq_bind,
    Option.bind_some]

/-- A row is the first one of its key if no row before it has that key. -/
theorem find?_of_not_mem {i : Nat} (hrow : t.rows[i]? = some r)
    (hnew : r.key ∉ (t.rows.map Row.key).take i) : t.rows.find? (·.key = r.key) = some r := by
  obtain ⟨hlt, rfl⟩ := List.getElem?_eq_some_iff.mp hrow
  refine List.find?_eq_some_iff_getElem.mpr ⟨decide_eq_true rfl, i, hlt, rfl, fun k hk => ?_⟩
  rw [Bool.not_eq_true', decide_eq_false_iff_not]
  intro heq
  refine hnew (List.mem_of_getElem? (i := k) ?_)
  rw [List.getElem?_take_of_lt hk, List.getElem?_map, List.getElem?_eq_getElem (hk.trans hlt),
    ← heq]
  rfl

/-- A key of a list without repetitions is not among those before it. -/
theorem not_mem_take_of_nodup {keys : List String} {i : Nat} (hkeys : keys.Nodup)
    (hkey : keys[i]? = some key) : key ∉ keys.take i := by
  obtain ⟨hlt, rfl⟩ := List.getElem?_eq_some_iff.mp hkey
  intro hmem
  obtain ⟨k, hk, heq⟩ := List.mem_take_iff_getElem.mp hmem
  have hki := hkeys.getElem_inj_iff.mp heq
  omega

/-- Where keys and labels are distinct, every cell is found in its place. -/
theorem exact_of_nodup (hkeys : (t.rows.map Row.key).Nodup) (hcolumns : t.columns.Nodup)
    (hwidth : ∀ r ∈ t.rows, r.cells.length = t.columns.length) : t.Exact where
  keys := hkeys
  columns := hcolumns
  width := hwidth
  cell r hr j column hcolumn := by
    obtain ⟨hlt, -⟩ := List.getElem?_eq_some_iff.mp hcolumn
    obtain ⟨i, hi⟩ := List.mem_iff_getElem?.mp hr
    have hkey : (t.rows.map Row.key)[i]? = some r.key := by rw [List.getElem?_map, hi]; rfl
    obtain ⟨cell, hcell⟩ : ∃ cell, r.cells[j]? = some cell :=
      ⟨_, List.getElem?_eq_getElem ((hwidth r hr).symm ▸ hlt)⟩
    refine ⟨cell, hcell, ?_⟩
    rw [cell?_of_find hcolumns hcolumn (find?_of_not_mem hi (not_mem_take_of_nodup hkeys hkey)),
      hcell]

end Table

/-! ## The keys of the tables -/

/-- Nodes are told by their texts. -/
theorem NodeId.text_injective : Function.Injective NodeId.text := by
  rintro ⟨a⟩ ⟨b⟩ h
  have hchars := congrArg String.toList h
  simp only [text, String.toList_append, List.append_cancel_left_eq] at hchars
  exact congrArg NodeId.mk (Nat.repr_injective (String.toList_injective hchars))

/-- The keys of the rows in the table of summaries. -/
def summaryKeys (runs : List Analysis) : List String :=
  Text.uniqueLabels (runs.map Analysis.model)

variable {runs : List Analysis} {run other : Analysis} {i j : Nat}

theorem map_key_summaryTable (runs : List Analysis) :
    (summaryTable runs).rows.map Row.key = summaryKeys runs := by
  have hlength : (summaryKeys runs).length = runs.length := by
    rw [summaryKeys, Text.length_uniqueLabels, List.length_map]
  rw [summaryTable, List.map_zipWith, ← summaryKeys]
  show List.zipWith (fun key _ => key) (summaryKeys runs) runs = summaryKeys runs
  rw [← List.map_uncurry_zip_eq_zipWith]
  exact List.map_fst_zip hlength.le

/-- The row of an analysis, under the key that is free for its name. -/
theorem getElem?_summaryKeys (hrun : runs[i]? = some run) :
    (summaryKeys runs)[i]? =
      some (Text.uniqueLabel run.model ((summaryKeys runs).take i)) := by
  refine Text.getElem?_uniqueLabels ?_
  rw [List.getElem?_map, hrun]
  rfl

theorem getElem?_rows_summaryTable (hrun : runs[i]? = some run) :
    (summaryTable runs).rows[i]? = some (summaryRow (summaryTable runs).columns
      (Text.uniqueLabel run.model ((summaryKeys runs).take i)) run) := by
  show (List.zipWith _ (summaryKeys runs) runs)[i]? = _
  rw [List.getElem?_zipWith, getElem?_summaryKeys hrun, hrun]
  rfl

/-- Looking a cell up by the key of its row and the label of its column gives that cell, in every
table of details and in every table of summaries. -/
theorem tables_exact (run : Analysis) {schema : Schema} (hschema : schema.Built)
    (runs : List Analysis) : (detailTable run schema).Exact ∧ (summaryTable runs).Exact := by
  constructor
  · refine Table.exact_of_nodup ?_ hschema.nodup_labels fun r hr => ?_
    · have hkeys : (detailTable run schema).rows.map Row.key =
          (run.details.entries.map Prod.fst).map NodeId.text := by
        rw [detailTable, List.map_map, List.map_map]
        rfl
      rw [hkeys]
      exact run.details.nodup.map NodeId.text_injective
    · obtain ⟨e, -, rfl⟩ := List.mem_map.mp hr
      rw [detailRow, List.length_map, detailTable, Schema.labels, List.length_map]
  · refine Table.exact_of_nodup ?_ (nodup_sortedNames _) fun r hr => length_cells_summaryTable hr
    rw [map_key_summaryTable]
    exact Text.nodup_uniqueLabels _

/-- The operator of a call in its table of details, and a field of the second of two graphs with one
name in their table of summaries. -/
theorem tables_exact_nodeSchema :
    nodeSchema.Built ∧
    (detailTable modelCall nodeSchema).cell? "%0" "node" = some (.value (.text "model")) ∧
    (summaryTable [modelCall, modelCall]).cell? "net#2" "model" = some (.value (.int 1)) := by
  obtain ⟨hdetails, hsummary⟩ := tables_exact modelCall nodeSchema_built [modelCall, modelCall]
  refine ⟨nodeSchema_built, ?_, ?_⟩
  · obtain ⟨cell, hcell, hfound⟩ := hdetails.cell _ List.mem_cons_self 0 "node" rfl
    rw [← Option.some.inj hcell] at hfound
    exact hfound
  · obtain ⟨cell, hcell, hfound⟩ :=
      hsummary.cell _ (List.mem_cons_of_mem _ List.mem_cons_self) 0 "model" rfl
    rw [← Option.some.inj hcell] at hfound
    exact hfound

/-! ## Summaries by the names of their graphs -/

/-- In the table of summaries a name leads to the row of an analysis: there the cells of the name
are those of the analysis. -/
def LeadsTo (runs : List Analysis) (name : String) (run : Analysis) : Prop :=
  ∀ column ∈ (summaryTable runs).columns,
    (summaryTable runs).cell? name column = some (.ofOption (run.summary.get? column))

/-- The analysis in a place is the only one with the name of its graph. -/
def Unshared (runs : List Analysis) (i : Nat) (name : String) : Prop :=
  ∀ (j : Nat) (other : Analysis), runs[j]? = some other → other.model = name → j = i

/-- A key leads to the row of the analysis that bears it. -/
theorem leadsTo_of_key {key : String} (hrun : runs[i]? = some run)
    (hkey : (summaryKeys runs)[i]? = some key) : LeadsTo runs key run := by
  intro column hcolumn
  obtain ⟨j, hj⟩ := List.mem_iff_getElem?.mp hcolumn
  rw [getElem?_summaryKeys hrun, Option.some.injEq] at hkey
  have hrow := getElem?_rows_summaryTable hrun
  rw [hkey] at hrow
  have hnew : key ∉ ((summaryTable runs).rows.map Row.key).take i := by
    rw [map_key_summaryTable, ← hkey]
    exact Text.uniqueLabel_not_mem _ _
  have hfound : (summaryTable runs).cell? key column = _ :=
    Table.cell?_of_find (nodup_sortedNames _) hj (Table.find?_of_not_mem hrow hnew)
  rw [hfound, summaryRow, List.getElem?_map, hj]
  rfl

/-- An analysis has its row under the name of its graph exactly if no earlier row has that key, and
then the name leads to that row. If it is hidden although no other graph has its name, the name
leads to the row of an earlier graph, the name of which was taken as well and got a number. -/
theorem summary_found_or_hidden (hrun : runs[i]? = some run) :
    ((summaryKeys runs)[i]? = some run.model ↔ run.model ∉ (summaryKeys runs).take i) ∧
    (run.model ∉ (summaryKeys runs).take i → LeadsTo runs run.model run) ∧
    (run.model ∈ (summaryKeys runs).take i → Unshared runs i run.model →
      ∃ j other n, j < i ∧ runs[j]? = some other ∧ other.model ∈ (summaryKeys runs).take j ∧
        2 ≤ n ∧ run.model = Text.numberedLabel other.model n ∧
        LeadsTo runs run.model other) := by
  have hkey := getElem?_summaryKeys hrun
  have hkept : (summaryKeys runs)[i]? = some run.model ↔ run.model ∉ (summaryKeys runs).take i := by
    rw [hkey, Option.some.injEq]
    refine ⟨fun heq => ?_, Text.uniqueLabel_of_not_mem⟩
    have hfree := Text.uniqueLabel_not_mem run.model ((summaryKeys runs).take i)
    rwa [heq] at hfree
  refine ⟨hkept, fun hnew => leadsTo_of_key hrun (hkept.mpr hnew), fun htaken hunshared => ?_⟩
  obtain ⟨j, hj, hkeyj⟩ := List.mem_take_iff_getElem.mp htaken
  have hji : j < i := lt_of_lt_of_le hj (min_le_left _ _)
  obtain ⟨hlt, -⟩ := List.getElem?_eq_some_iff.mp hrun
  have hother : runs[j]? = some runs[j] := List.getElem?_eq_getElem (hji.trans hlt)
  have hkeyj' : (summaryKeys runs)[j]? = some run.model := List.getElem?_eq_some_iff.mpr ⟨_, hkeyj⟩
  -- the earlier row has a number, since its graph has another name than the hidden one
  have hnumber := getElem?_summaryKeys hother
  rw [hkeyj', Option.some.injEq] at hnumber
  rcases Text.uniqueLabel_cases runs[j].model ((summaryKeys runs).take j) with
    ⟨-, hsame⟩ | ⟨hshared, n, hn, hnumbered⟩
  · exact absurd (hunshared j _ hother (hnumber.trans hsame).symm) hji.ne
  · exact ⟨j, runs[j], n, hji, hother, hshared, hn, hnumber.trans hnumbered,
      leadsTo_of_key hother hkeyj'⟩

/-- The analysis of a graph with as many calls of one operator. -/
def countedCalls (model : String) (count : Int) : Analysis where
  model := model
  details := ∅
  summary := (∅ : Summary).insert "add" (.int count)
  anomalies := []

/-- Two graphs of one name, and one that is named as the second of them is numbered. -/
def crowdedRuns : List Analysis :=
  [countedCalls "net" 1, countedCalls "net" 2, countedCalls "net#2" 3]

theorem unshared_crowdedRuns : Unshared crowdedRuns 2 "net#2" := by
  intro j other hj hname
  match j with
  | 0 | 1 =>
    obtain rfl := Option.some.inj hj
    exact absurd hname (by decide)
  | 2 => rfl
  | j + 3 => cases hj

theorem summary_found_or_hidden_crowdedRuns :
    crowdedRuns[0]? = some (countedCalls "net" 1) ∧
    LeadsTo crowdedRuns "net" (countedCalls "net" 1) ∧
    crowdedRuns[2]? = some (countedCalls "net#2" 3) ∧
    ∃ j other n, j < 2 ∧ crowdedRuns[j]? = some other ∧ 2 ≤ n ∧
      "net#2" = Text.numberedLabel other.model n ∧ LeadsTo crowdedRuns "net#2" other := by
  have hfirst : crowdedRuns[0]? = some (countedCalls "net" 1) := rfl
  have hthird : crowdedRuns[2]? = some (countedCalls "net#2" 3) := rfl
  obtain ⟨-, hfound, -⟩ := summary_found_or_hidden hfirst
  obtain ⟨-, -, hhidden⟩ := summary_found_or_hidden hthird
  obtain ⟨j, other, n, hj, hother, -, hn, hname, hleads⟩ :=
    hhidden (by decide +kernel) unshared_crowdedRuns
  exact ⟨hfirst, hfound List.not_mem_nil, hthird, j, other, n, hj, hother, hn, hname, hleads⟩

/-- A name that no other graph has does not always lead to the row of its graph. Here it leads to
the second row, whose graph has another name, and the row of the third has yet another key. -/
theorem unshared_name_misleads :
    crowdedRuns[2]? = some (countedCalls "net#2" 3) ∧ Unshared crowdedRuns 2 "net#2" ∧
    summaryKeys crowdedRuns = ["net", "net#2", "net#2#2"] ∧
    (summaryTable crowdedRuns).cell? "net#2" "add" = some (.value (.int 2)) ∧
    ¬ LeadsTo crowdedRuns "net#2" (countedCalls "net#2" 3) := by
  have hkeys : summaryKeys crowdedRuns = ["net", "net#2", "net#2#2"] := by decide +kernel
  have hsecond : LeadsTo crowdedRuns "net#2" (countedCalls "net" 2) :=
    leadsTo_of_key (i := 1) rfl (by rw [hkeys]; rfl)
  have hcell := hsecond "add" (by decide +kernel)
  refine ⟨rfl, unshared_crowdedRuns, hkeys, hcell, fun hthird => ?_⟩
  have hcell' := hthird "add" (by decide +kernel)
  rw [hcell] at hcell'
  cases hcell'

end GraphSurvey
