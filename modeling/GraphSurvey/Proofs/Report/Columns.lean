import GraphSurvey.Proofs.Report.Rows
import Mathlib

/-!
# What becomes of a row of columns

Columns are added to a schema one after the other. Of the columns of one path the first stays, and
it gets the label that it asks for, or a numbered form of it if an earlier column of the schema
bears that label. So the paths and the labels of a schema are distinct. Adding the columns of a
schema once more neither drops nor renames one: the schema is what it was.

## Main definitions

* `GraphSurvey.Schema.SettledFrom` — a schema is what stays of a row of columns.

## Main results

* `GraphSurvey.Schema.SettledFrom.concat_of_mem`,
  `GraphSurvey.Schema.SettledFrom.concat_of_not_mem` — what becomes of one more column.
* `GraphSurvey.Schema.settledFrom_ofList` — what becomes of a row of columns.
* `GraphSurvey.Schema.Built.ofList_columns` — the columns of a schema make the schema again.
-/

namespace GraphSurvey

/-! ## First occurrences -/

section EraseDups

variable {α : Type} [BEq α] [LawfulBEq α] {a : α} {as : List α}

theorem eraseDups_concat_of_mem (h : a ∈ as) : (as ++ [a]).eraseDups = as.eraseDups := by
  simp [List.eraseDups_append, List.removeAll, h]

theorem eraseDups_concat_of_not_mem (h : a ∉ as) :
    (as ++ [a]).eraseDups = as.eraseDups ++ [a] := by
  simp [List.eraseDups_append, List.removeAll, h, List.eraseDups_cons]

end EraseDups

namespace Schema

variable {s : Schema} {cs : List Column} {c : Column} {path : ColumnPath} {label : String} {i : Nat}

/-! ## One more column -/

theorem push_of_mem (h : path ∈ s.paths) (label : String) : s.push path label = s := by
  rw [push, if_pos h]

theorem columns_push_of_not_mem (h : path ∉ s.paths) (label : String) :
    (s.push path label).columns = s.columns ++ [⟨path, Text.uniqueLabel label s.labels⟩] := by
  rw [push, if_neg h]

theorem paths_push_of_not_mem (h : path ∉ s.paths) (label : String) :
    (s.push path label).paths = s.paths ++ [path] := by
  rw [paths, columns_push_of_not_mem h, List.map_append, List.map_singleton, paths]

theorem labels_push_of_not_mem (h : path ∉ s.paths) (label : String) :
    (s.push path label).labels = s.labels ++ [Text.uniqueLabel label s.labels] := by
  rw [labels, columns_push_of_not_mem h, List.map_append, List.map_singleton, labels]

theorem ofList_concat (cs : List Column) (c : Column) :
    ofList (cs ++ [c]) = (ofList cs).push c.path c.label := by
  rw [ofList, List.foldl_append]
  rfl

/-! ## Rows of columns -/

/-- The label that is given where one is asked for and some are taken: the label itself if it is
free, and otherwise a numbered form of it. -/
def IsLabelFor (asked : String) (taken : List String) (label : String) : Prop :=
  asked ∉ taken ∧ label = asked ∨
    asked ∈ taken ∧ ∃ n, 2 ≤ n ∧ label = Text.numberedLabel asked n

/-- The schema is what stays of a row of columns: a column for every path of the row, in the order
in which the paths first occur, with the label that the first column of the path asks for, or a
numbered form of it if an earlier column of the schema bears that label. -/
structure SettledFrom (cs : List Column) (s : Schema) : Prop where
  nodup_paths : s.paths.Nodup
  nodup_labels : s.labels.Nodup
  paths : s.paths = (cs.map Column.path).eraseDups
  label : ∀ (i : Nat) (c : Column), s.columns[i]? = some c →
    ∃ first, cs.find? (·.path = c.path) = some first ∧
      IsLabelFor first.label (s.labels.take i) c.label

theorem SettledFrom.mem_paths_iff (h : SettledFrom cs s) :
    path ∈ s.paths ↔ path ∈ cs.map Column.path := by
  rw [h.paths, List.mem_eraseDups]

/-- A column whose path is there changes nothing. -/
theorem SettledFrom.concat_of_mem (h : SettledFrom cs s) (hmem : c.path ∈ s.paths) :
    SettledFrom (cs ++ [c]) s where
  nodup_paths := h.nodup_paths
  nodup_labels := h.nodup_labels
  paths := by
    rw [List.map_append, List.map_singleton, eraseDups_concat_of_mem (h.mem_paths_iff.mp hmem),
      h.paths]
  label i kept hkept := by
    obtain ⟨first, hfirst, hlabel⟩ := h.label i kept hkept
    exact ⟨first, by rw [List.find?_append, hfirst, Option.some_or], hlabel⟩

/-- A column with a new path is the last one, under a label that is free. -/
theorem SettledFrom.concat_of_not_mem (h : SettledFrom cs s) (hmem : c.path ∉ s.paths) :
    SettledFrom (cs ++ [c]) (s.push c.path c.label) where
  nodup_paths := by
    rw [paths_push_of_not_mem hmem, ← List.concat_eq_append]
    exact h.nodup_paths.concat hmem
  nodup_labels := by
    rw [labels_push_of_not_mem hmem, ← List.concat_eq_append]
    exact h.nodup_labels.concat (Text.uniqueLabel_not_mem c.label s.labels)
  paths := by
    have hnew : c.path ∉ cs.map Column.path := fun hold => hmem (h.mem_paths_iff.mpr hold)
    rw [List.map_append, List.map_singleton, eraseDups_concat_of_not_mem hnew,
      paths_push_of_not_mem hmem, h.paths]
  label i kept hkept := by
    rw [labels_push_of_not_mem hmem]
    rw [columns_push_of_not_mem hmem] at hkept
    rcases Nat.lt_or_ge i s.columns.length with hlt | hge
    · rw [List.getElem?_append_left hlt] at hkept
      obtain ⟨first, hfirst, hlabel⟩ := h.label i kept hkept
      refine ⟨first, by rw [List.find?_append, hfirst, Option.some_or], ?_⟩
      rwa [List.take_append_of_le_length (by rw [labels, List.length_map]; exact hlt.le)]
    · rw [List.getElem?_append_right hge, List.getElem?_singleton] at hkept
      split at hkept
      case isFalse => cases hkept
      case isTrue hi =>
        obtain rfl : i = s.labels.length := by
          rw [labels, List.length_map]
          omega
        obtain rfl := Option.some.inj hkept
        have hnone : cs.find? (·.path = c.path) = none := by
          refine List.find?_eq_none.mpr fun old hold hpath => hmem (h.mem_paths_iff.mpr ?_)
          exact of_decide_eq_true hpath ▸ List.mem_map_of_mem hold
        refine ⟨c, by rw [List.find?_append, hnone]; simp, ?_⟩
        rw [List.take_left]
        exact Text.uniqueLabel_cases c.label s.labels

/-- What stays of a row of columns. -/
theorem settledFrom_ofList (cs : List Column) : SettledFrom cs (ofList cs) := by
  induction cs using List.reverseRecOn with
  | nil => exact ⟨List.nodup_nil, List.nodup_nil, rfl, nofun⟩
  | append_singleton cs c ih =>
    rw [ofList_concat]
    by_cases hmem : c.path ∈ (ofList cs).paths
    · rw [push_of_mem hmem]
      exact ih.concat_of_mem hmem
    · exact ih.concat_of_not_mem hmem

/-! ## Once more -/

/-- Columns with distinct paths and distinct labels all stay as they are. -/
theorem ofList_of_nodup (hpaths : (cs.map Column.path).Nodup)
    (hlabels : (cs.map Column.label).Nodup) : ofList cs = ⟨cs⟩ := by
  induction cs using List.reverseRecOn with
  | nil => rfl
  | append_singleton cs c ih =>
    rw [List.map_append, List.map_singleton, ← List.concat_eq_append, List.nodup_concat]
      at hpaths hlabels
    obtain ⟨hnew, hpaths⟩ := hpaths
    obtain ⟨hfree, hlabels⟩ := hlabels
    replace hnew : c.path ∉ (Schema.mk cs).paths := hnew
    replace hfree : c.label ∉ (Schema.mk cs).labels := hfree
    rw [ofList_concat, ih hpaths hlabels, push, if_neg hnew, Text.uniqueLabel_of_not_mem hfree]

theorem Built.exists_ofList (h : s.Built) : ∃ cs, s = ofList cs := by
  induction h with
  | empty => exact ⟨[], rfl⟩
  | push _ path label ih =>
    obtain ⟨cs, rfl⟩ := ih
    exact ⟨cs ++ [⟨path, label⟩], (ofList_concat cs ⟨path, label⟩).symm⟩

/-- The columns of a schema make the schema again. -/
theorem Built.ofList_columns (h : s.Built) : ofList s.columns = s := by
  obtain ⟨cs, rfl⟩ := h.exists_ofList
  have hsettled := settledFrom_ofList cs
  exact ofList_of_nodup hsettled.nodup_paths hsettled.nodup_labels

end Schema

end GraphSurvey
