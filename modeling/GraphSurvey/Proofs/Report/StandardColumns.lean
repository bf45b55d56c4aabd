import GraphSurvey.Proofs.Report.Columns
import Mathlib

/-!
# The standard columns

The standard columns are made of a row of columns like those of any schema, so what becomes of that
row tells which paths they have: those of the three fields that every table shows, of the first
arguments, and of the attributes. A field is left out by a schema if none of its paths lies in it.

## Main definitions

* `GraphSurvey.Schema.standardColumns` — the row of columns that the standard schema is made of.
* `GraphSurvey.Schema.cellAt?` — the cell of a row in the column of a path.

## Main results

* `GraphSurvey.Schema.mem_paths_standard_iff` — the paths of the standard columns.
* `GraphSurvey.Schema.mem_coveredFields_standard_iff` — the fields that they show.
* `GraphSurvey.Schema.cellAt?_field`, `GraphSurvey.Schema.cellAt?_element` — what the cells of a
  node show.
-/

namespace GraphSurvey

/-! ## Where a path leads -/

namespace ColumnPath

variable {d : Details} {field : String}

@[simp] theorem resolve_field (d : Details) (field : String) :
    (ColumnPath.mk field none).resolve d = d.get? field := by
  rw [resolve]
  cases d.get? field <;> rfl

/-- An element of a map is found under its index in decimal. -/
theorem resolve_element {shapes : Dictionary Value}
    (h : d.get? field = some (.map shapes.entries)) (i : Nat) :
    (ColumnPath.mk field (some i)).resolve d = shapes.get? (toString i) := by
  simp only [resolve, h]
  rfl

end ColumnPath

namespace Schema

variable {s : Schema} {arity : Nat} {attributes : List String} {path : ColumnPath} {field : String}

/-! ## Cells -/

/-- The cell of a row in the column of a path. -/
def cellAt? (s : Schema) (row : Row) (path : ColumnPath) : Option Cell :=
  (s.paths.findIdx? (· = path)).bind fun j => row.cells[j]?

/-- The cell of a node in the column of a path is what the path leads to in its details. -/
theorem cellAt?_detailRow (id : NodeId) (d : Details) (h : path ∈ s.paths) :
    s.cellAt? (detailRow s id d) path = some (.ofOption (path.resolve d)) := by
  have hcells : (detailRow s id d).cells = s.paths.map fun p => .ofOption (p.resolve d) := by
    rw [detailRow, paths, List.map_map]
    rfl
  obtain ⟨j, hj⟩ : ∃ j, s.paths.findIdx? (· = path) = some j :=
    Option.isSome_iff_exists.mp (List.findIdx?_isSome.trans (by simpa using h))
  obtain ⟨hlt, hpath, -⟩ := List.findIdx?_eq_some_iff_getElem.mp hj
  rw [cellAt?, hj, Option.bind_some, hcells, List.getElem?_map, List.getElem?_eq_getElem hlt,
    of_decide_eq_true hpath]
  rfl

theorem cellAt?_field (id : NodeId) (d : Details) (h : ⟨field, none⟩ ∈ s.paths) :
    s.cellAt? (detailRow s id d) ⟨field, none⟩ = some (.ofOption (d.get? field)) := by
  rw [cellAt?_detailRow id d h, ColumnPath.resolve_field]

theorem cellAt?_element (id : NodeId) {d : Details} {shapes : Dictionary Value} {i : Nat}
    (hd : d.get? field = some (.map shapes.entries)) (h : ⟨field, some i⟩ ∈ s.paths) :
    s.cellAt? (detailRow s id d) ⟨field, some i⟩ = some (.ofOption (shapes.get? (toString i))) := by
  rw [cellAt?_detailRow id d h, ColumnPath.resolve_element hd]

/-! ## Fields that are shown -/

theorem mem_coveredFields_iff : field ∈ s.coveredFields ↔ ∃ path ∈ s.paths, path.field = field := by
  rw [coveredFields, mem_sortedNames_iff, List.mem_map]

/-! ## The row of the standard columns -/

/-- The columns that the standard schema is made of. -/
def standardColumns (arity : Nat) (attributes : List String) : List Column :=
  [⟨⟨FieldName.index, none⟩, "#"⟩, ⟨⟨FieldName.op, none⟩, "op"⟩,
    ⟨⟨FieldName.outputShape, none⟩, "output shape"⟩] ++
  (List.range arity).map (fun i => ⟨⟨FieldName.inputShapes, some i⟩, "input " ++ toString i⟩) ++
  attributes.map fun key => ⟨⟨key, none⟩, key⟩

theorem standard_eq_ofList (arity : Nat) (attributes : List String) :
    standard arity attributes = ofList (standardColumns arity attributes) := by
  rw [ofList, standardColumns, List.foldl_append, List.foldl_append, List.foldl_map, List.foldl_map]
  rfl

theorem mem_paths_standard_iff :
    path ∈ (standard arity attributes).paths ↔
      path = ⟨FieldName.index, none⟩ ∨ path = ⟨FieldName.op, none⟩ ∨
        path = ⟨FieldName.outputShape, none⟩ ∨
        (∃ i < arity, path = ⟨FieldName.inputShapes, some i⟩) ∨
        ∃ key ∈ attributes, path = ⟨key, none⟩ := by
  rw [standard_eq_ofList, (settledFrom_ofList _).mem_paths_iff, standardColumns]
  simp only [List.map_append, List.map_cons, List.map_nil, List.map_map, List.mem_append,
    List.mem_cons, List.not_mem_nil, or_false, List.mem_map, List.mem_range, Function.comp_apply,
    or_assoc, eq_comm]

/-- The standard columns show the fields that every table shows and those of the attributes, and the
shapes of arguments if there is a column for any. -/
theorem mem_coveredFields_standard_iff :
    field ∈ (standard arity attributes).coveredFields ↔
      field = FieldName.index ∨ field = FieldName.op ∨ field = FieldName.outputShape ∨
        (0 < arity ∧ field = FieldName.inputShapes) ∨ field ∈ attributes := by
  rw [mem_coveredFields_iff]
  constructor
  · rintro ⟨path, hpath, rfl⟩
    rcases mem_paths_standard_iff.mp hpath with rfl | rfl | rfl | ⟨i, hi, rfl⟩ | ⟨key, hkey, rfl⟩
    · exact .inl rfl
    · exact .inr (.inl rfl)
    · exact .inr (.inr (.inl rfl))
    · exact .inr (.inr (.inr (.inl ⟨Nat.zero_lt_of_lt hi, rfl⟩)))
    · exact .inr (.inr (.inr (.inr hkey)))
  · intro h
    rcases h with rfl | rfl | rfl | ⟨hpos, rfl⟩ | hkey
    · exact ⟨⟨FieldName.index, none⟩, mem_paths_standard_iff.mpr (by simp), rfl⟩
    · exact ⟨⟨FieldName.op, none⟩, mem_paths_standard_iff.mpr (by simp), rfl⟩
    · exact ⟨⟨FieldName.outputShape, none⟩, mem_paths_standard_iff.mpr (by simp), rfl⟩
    · exact ⟨⟨FieldName.inputShapes, some 0⟩, mem_paths_standard_iff.mpr (by simp [hpos]), rfl⟩
    · exact ⟨⟨field, none⟩, mem_paths_standard_iff.mpr (by simp [hkey]), rfl⟩

end Schema

/-! ## Fields that are left out -/

theorem mem_uncoveredFields_iff {details : DetailStore} {schema : Schema} {field : String} :
    field ∈ uncoveredFields details schema ↔
      (∃ e ∈ details.entries, (e.2.get? field).isSome) ∧ field ∉ schema.coveredFields := by
  rw [uncoveredFields, List.mem_filter, decide_eq_true_eq, DetailStore.fieldNames,
    mem_sortedNames_iff, List.mem_flatMap]
  simp only [Dictionary.mem_names_iff]

theorem nodup_uncoveredFields (details : DetailStore) (schema : Schema) :
    (uncoveredFields details schema).Nodup :=
  (nodup_sortedNames _).filter _

end GraphSurvey
