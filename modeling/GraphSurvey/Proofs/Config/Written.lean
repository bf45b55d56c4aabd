import GraphSurvey.Config.Basic
import GraphSurvey.Proofs.Document.Accepted
import GraphSurvey.Proofs.Report.Columns
import Mathlib

/-!
# Schemas and configurations are read back

The document of a schema is that of its columns, and reading it adds them one after the other. Since
adding the columns of a schema once more changes nothing, every schema is read back, and so is every
configuration with its columns: what is read of a file stays the same however often it is written
and read again.

## Main definitions

* `GraphSurvey.ColumnPath.Fits`, `GraphSurvey.Schema.Fits`, `GraphSurvey.Config.Fits` — indices and
  counts are words.

## Main results

* `GraphSurvey.Schema.decode_columns` — what is read of the document of a row of columns.
* `GraphSurvey.Config.decode_tree` — a configuration is read back.
* `GraphSurvey.Schema.decode_yields`, `GraphSurvey.Config.decode_yields` — what is read has its
  indices and counts in range, and its schema was made by adding columns.
* `GraphSurvey.columns_settled` — columns are settled when they are first put together.
-/

namespace GraphSurvey

open Decoder

variable {depth : Nat}

/-! ## Paths -/

namespace ColumnPath

/-- The index is a word. -/
def Fits (p : ColumnPath) : Prop := ∀ i ∈ p.index, i < wordBound

instance : DecidablePred Fits := fun p =>
  inferInstanceAs (Decidable (∀ i ∈ p.index, i < wordBound))

/-- A path is read back, with or without an index. -/
theorem decode_tree {p : ColumnPath} (h : p.Fits) (hnesting : p.toJson.nesting ≤ depth) :
    ColumnPath.decode depth p.toJson.tree = .ok p := by
  obtain ⟨field, index⟩ := p
  cases index with
  | none =>
    exact Record.decode_object_kept (s := ⟨some field, none⟩) hnesting
      (fun n _ => Record.readMembers_cons_ok rfl rfl rfl (text_text field n) <|
        Record.readMembers_nil _ _ _) rfl
  | some i =>
    have hindex (n : Nat) : optional size n (Json.int i).tree = .ok (some i) :=
      congrArg (some <$> ·) (size_int (h i rfl) n)
    exact Record.decode_object_kept (s := ⟨some field, some (some i)⟩) hnesting
      (fun n _ => Record.readMembers_cons_ok rfl rfl rfl (text_text field n) <|
        Record.readMembers_cons_ok rfl rfl rfl (hindex n) <|
        Record.readMembers_nil _ _ _) rfl

/-- The index of a path that is read is a word. -/
theorem decode_yields : ColumnPath.decode.Yields fun _ p => p.Fits := by
  have hfields : ∀ field ∈ ColumnPath.record.fields,
      field.Keeps fun _ s => ∀ o ∈ s.index, ∀ i ∈ o, i < wordBound := by
    simp only [ColumnPath.record, List.forall_mem_cons]
    refine ⟨?_, ?_, List.forall_mem_nil _⟩
    · exact RecordField.keeps_of_yields rfl (yields_true Decoder.text) fun _ _ _ _ h => h
    · exact RecordField.keeps_of_yields rfl (optional_yields size_yields) fun _ _ _ ha _ =>
        forall_mem_some ha
  refine Yields.of_nested (Record.decode_yields (fun _ => nofun) hfields fun n s p h hs => ?_)
  obtain ⟨field, -, h⟩ := bind_ok h
  cases h
  intro i hi
  cases hindex : s.index with
  | none => simp [hindex] at hi
  | some o => exact hs o hindex i (by simpa [hindex] using hi)

end ColumnPath

/-! ## Columns -/

namespace Column

/-- A column is read back. -/
theorem decode_tree {c : Column} (h : c.path.Fits) (hnesting : c.toJson.nesting ≤ depth) :
    Column.record.decode depth c.toJson.tree = .ok c := by
  refine Record.decode_object_kept (s := ⟨some c.path, some c.label⟩) hnesting
    (fun n hmembers => ?_) rfl
  simp only [List.forall_mem_cons] at hmembers
  obtain ⟨hpath, -⟩ := hmembers
  exact Record.readMembers_cons_ok rfl rfl rfl (ColumnPath.decode_tree h hpath) <|
    Record.readMembers_cons_ok rfl rfl rfl (text_text c.label n) <|
    Record.readMembers_nil _ _ _

/-- The document of a column is nested twice. -/
theorem nesting_toJson (c : Column) : c.toJson.nesting ≤ 2 := by
  obtain ⟨⟨field, _ | i⟩, label⟩ := c <;> exact le_rfl

theorem decode_yields : Column.record.decode.Yields fun _ c => c.path.Fits := by
  have hfields : ∀ field ∈ Column.record.fields,
      field.Keeps fun _ s => ∀ p ∈ s.path, ColumnPath.Fits p := by
    simp only [Column.record, List.forall_mem_cons]
    refine ⟨?_, ?_, List.forall_mem_nil _⟩
    · exact RecordField.keeps_of_yields rfl ColumnPath.decode_yields fun _ _ _ ha _ =>
        forall_mem_some ha
    · exact RecordField.keeps_of_yields rfl (yields_true text) fun _ _ _ _ h => h
  refine Yields.of_nested (Record.decode_yields (fun _ => nofun) hfields fun n s c h hs => ?_)
  obtain ⟨path, hpath, h⟩ := bind_ok h
  obtain ⟨label, -, h⟩ := bind_ok h
  cases h
  exact hs path (given_ok hpath)

end Column

/-! ## Schemas -/

namespace Schema

/-- The indices of the paths are words. -/
def Fits (s : Schema) : Prop := ∀ p ∈ s.paths, p.Fits

instance : DecidablePred Fits := fun s => inferInstanceAs (Decidable (∀ p ∈ s.paths, p.Fits))

/-- The document of a row of columns is nested three times. -/
theorem nesting_columns (cs : List Column) : (Json.array (cs.map Column.toJson)).nesting ≤ 3 :=
  Json.nesting_array_map_le fun c _ => c.nesting_toJson

/-- What is read of the document of a row of columns is the schema of the row. -/
theorem decode_columns {cs : List Column} (h : ∀ c ∈ cs, c.path.Fits)
    (hnesting : (Json.array (cs.map Column.toJson)).nesting ≤ depth) :
    Schema.decode depth (Json.array (cs.map Column.toJson)).tree = .ok (ofList cs) := by
  rw [decode, Decoder.map, list_map_ok hnesting fun c hc n hn => Column.decode_tree (h c hc) hn]
  rfl

/-- A schema is read back. -/
theorem decode_tree {s : Schema} (hs : s.Built) (h : s.Fits) (hnesting : s.toJson.nesting ≤ depth) :
    Schema.decode depth s.toJson.tree = .ok s := by
  rw [toJson, decode_columns (List.forall_mem_map.mp h) hnesting, hs.ofList_columns]

theorem fits_ofList {cs : List Column} (h : ∀ c ∈ cs, c.path.Fits) : (ofList cs).Fits := by
  intro p hp
  obtain ⟨c, hc, rfl⟩ := List.mem_map.mp ((settledFrom_ofList cs).mem_paths_iff.mp hp)
  exact h c hc

/-- A schema that is read was made by adding columns whose indices are words. -/
theorem decode_yields : Schema.decode.Yields fun _ s => s.Built ∧ s.Fits := by
  refine (list_yields Column.decode_yields).map fun depth cs h => ?_
  obtain ⟨n, -, hcs⟩ := h
  exact ⟨built_ofList cs, fits_ofList hcs⟩

/-- A schema that is read is that of the columns that are read. -/
theorem exists_of_ofText {text : String} {s : Schema} (h : Schema.decode.ofText text = .ok s) :
    ∃ cs, (list Column.record.decode).ofText text = .ok cs ∧ ofList cs = s ∧ s.Built ∧ s.Fits := by
  obtain ⟨cs, hcs, heq⟩ := map_ok ((Decoder.ofText_map _ _ _).symm.trans h)
  exact ⟨cs, hcs, heq, decode_yields.of_ofText h⟩

end Schema

/-! ## Configurations -/

namespace Config

/-- The number of columns and the indices of the columns are words, and the schema was made by
adding columns. -/
structure Fits (c : Config) : Prop where
  inputColumns : c.inputColumns < wordBound
  columns : ∀ s ∈ c.columns, s.Built ∧ s.Fits

/-- The columns are read back, be they given or not. -/
theorem decode_optional_columns {o : Option Schema} (h : ∀ s ∈ o, s.Built ∧ s.Fits)
    (hnesting : (match o with | some s => s.toJson | none => Json.null).nesting ≤ depth) :
    optional Schema.decode depth (match o with | some s => s.toJson | none => Json.null).tree =
      .ok o := by
  cases o with
  | none => rfl
  | some s =>
    obtain ⟨hbuilt, hfits⟩ := h s rfl
    exact congrArg (some <$> ·) (Schema.decode_tree hbuilt hfits hnesting)

theorem decode_texts {ss : List String} (hnesting : (Json.array (ss.map .text)).nesting ≤ depth) :
    list text depth (Json.array (ss.map .text)).tree = .ok ss :=
  list_map_ok hnesting fun s _ n _ => text_text s n

theorem decode_format (format : OutputFormat) (depth : Nat) :
    symbol OutputFormat.ofName? depth (Json.text format.name).tree = .ok format := by
  rw [symbol_text]
  cases format <;> rfl

/-- A configuration is read back. -/
theorem decode_tree {c : Config} (h : c.Fits) (hnesting : c.toJson.nesting ≤ depth) :
    Config.decode depth c.toJson.tree = .ok c := by
  refine Record.decode_object_kept (s := ⟨some c.models, some c.graphFiles, some c.attributes,
    some c.histogramField, some c.inputColumns, some c.columns, some c.format, some c.parallel⟩)
    hnesting (fun n hmembers => ?_) rfl
  simp only [List.forall_mem_cons] at hmembers
  obtain ⟨hmodels, hgraphs, hattributes, -, -, hcolumns, -⟩ := hmembers
  exact Record.readMembers_cons_ok rfl rfl rfl (decode_texts hmodels) <|
    Record.readMembers_cons_ok rfl rfl rfl (decode_texts hgraphs) <|
    Record.readMembers_cons_ok rfl rfl rfl (decode_texts hattributes) <|
    Record.readMembers_cons_ok rfl rfl rfl (text_text c.histogramField n) <|
    Record.readMembers_cons_ok rfl rfl rfl (size_int h.inputColumns n) <|
    Record.readMembers_cons_ok rfl rfl rfl (decode_optional_columns h.columns hcolumns) <|
    Record.readMembers_cons_ok rfl rfl rfl (decode_format c.format n) <|
    Record.readMembers_cons_ok (d := bool) rfl rfl rfl rfl <|
    Record.readMembers_nil _ _ _

/-- The document of a configuration is nested four times. -/
theorem nesting_toJson (c : Config) : c.toJson.nesting ≤ 4 := by
  have htexts (ss : List String) : (Json.array (ss.map .text)).nesting ≤ 3 :=
    Json.nesting_array_map_le fun _ _ => Nat.zero_le _
  refine Json.nesting_object_le ?_
  simp only [List.forall_mem_cons]
  refine ⟨htexts _, htexts _, htexts _, Nat.zero_le _, Nat.zero_le _, ?_, Nat.zero_le _,
    Nat.zero_le _, List.forall_mem_nil _⟩
  cases c.columns with
  | none => exact Nat.zero_le _
  | some s => exact Schema.nesting_columns s.columns

/-- What holds of the parts of a configuration that were read. -/
structure Draft.Fits (s : Draft) : Prop where
  inputColumns : ∀ n ∈ s.inputColumns, n < wordBound
  columns : ∀ o ∈ s.columns, ∀ schema ∈ o, Schema.Built schema ∧ schema.Fits

theorem fits_ofDraft {s : Draft} (h : s.Fits) : (ofDraft s).Fits where
  inputColumns := by
    show s.inputColumns.getD 2 < wordBound
    cases hgiven : s.inputColumns with
    | none => decide
    | some n => exact h.inputColumns n hgiven
  columns := by
    show ∀ schema ∈ s.columns.getD none, schema.Built ∧ schema.Fits
    cases hgiven : s.columns with
    | none => exact nofun
    | some o => exact h.columns o hgiven

/-- A configuration that is read has its counts and indices in range. -/
theorem decode_yields : Config.decode.Yields fun _ c => c.Fits := by
  have hfields : ∀ field ∈ Config.record.fields, field.Keeps fun _ s => s.Fits := by
    simp only [Config.record, List.forall_mem_cons]
    refine ⟨?_, ?_, ?_, ?_, ?_, ?_, ?_, ?_, List.forall_mem_nil _⟩
    · exact RecordField.keeps_of_yields rfl (yields_true (list text)) fun _ _ _ _ h => ⟨h.1, h.2⟩
    · exact RecordField.keeps_of_yields rfl (yields_true (list text)) fun _ _ _ _ h => ⟨h.1, h.2⟩
    · exact RecordField.keeps_of_yields rfl (yields_true (list text)) fun _ _ _ _ h => ⟨h.1, h.2⟩
    · exact RecordField.keeps_of_yields rfl (yields_true text) fun _ _ _ _ h => ⟨h.1, h.2⟩
    · exact RecordField.keeps_of_yields rfl size_yields fun _ _ _ ha h =>
        ⟨forall_mem_some ha, h.columns⟩
    · exact RecordField.keeps_of_yields rfl (optional_yields Schema.decode_yields)
        fun _ _ _ ha h => ⟨h.inputColumns, forall_mem_some ha⟩
    · exact RecordField.keeps_of_yields rfl (yields_true (symbol OutputFormat.ofName?))
        fun _ _ _ _ h => ⟨h.1, h.2⟩
    · exact RecordField.keeps_of_yields rfl (yields_true bool) fun _ _ _ _ h => ⟨h.1, h.2⟩
  refine Yields.of_nested (Record.decode_yields (fun _ => ⟨nofun, nofun⟩) hfields
    fun n s c h hs => ?_)
  obtain rfl := Except.ok.inj h
  exact fits_ofDraft hs

end Config

/-! ## Settled once and for all -/

/-- The columns of a schema are settled when they are put together. Whether columns are added one by
one or read from a text, the schema has their paths, each once and in the order of their first
occurrences, and distinct labels, each the one that was asked for or a numbered form of it if an
earlier column bears that. The columns of a schema make the schema again, and a schema and a
configuration are read back from every text that is written for them. All that is read is of this
kind. -/
theorem columns_settled :
    (∀ cs : List Column, (Schema.ofList cs).SettledFrom cs ∧
      ((∀ c ∈ cs, c.path.Fits) →
        ∀ text : String, (Json.array (cs.map Column.toJson)).Writes text.toList →
          Schema.decode.ofText text = .ok (Schema.ofList cs))) ∧
    (∀ s : Schema, s.Built → Schema.ofList s.columns = s ∧
      (s.Fits → ∀ text : String, s.toJson.Writes text.toList →
        Schema.decode.ofText text = .ok s)) ∧
    (∀ (text : String) (s : Schema), Schema.decode.ofText text = .ok s →
      ∃ cs, (list Column.record.decode).ofText text = .ok cs ∧ Schema.ofList cs = s ∧
        s.Built ∧ s.Fits) ∧
    (∀ c : Config, c.Fits → ∀ text : String, c.toJson.Writes text.toList →
      Config.decode.ofText text = .ok c) ∧
    ∀ (text : String) (c : Config), Config.decode.ofText text = .ok c → c.Fits := by
  refine ⟨fun cs => ⟨Schema.settledFrom_ofList cs, fun hfits text htext => ?_⟩,
    fun s hs => ⟨hs.ofList_columns, fun hfits text htext => ?_⟩,
    fun text s => Schema.exists_of_ofText, fun c hfits text htext => ?_,
    fun text c => Config.decode_yields.of_ofText⟩
  · rw [ofText_of_writes _ htext]
    exact Schema.decode_columns hfits ((Schema.nesting_columns cs).trans (by decide))
  · rw [ofText_of_writes _ htext]
    exact Schema.decode_tree hs hfits ((Schema.nesting_columns s.columns).trans (by decide))
  · rw [ofText_of_writes _ htext]
    exact Config.decode_tree hfits (c.nesting_toJson.trans (by decide))

/-- Columns one of which repeats a path, and one of which asks for a label that is given to an
earlier one in place of its own. -/
def crowdedColumns : List Column :=
  [⟨⟨FieldName.op, none⟩, "x"⟩, ⟨⟨FieldName.op, none⟩, "y"⟩, ⟨⟨FieldName.index, none⟩, "x"⟩,
    ⟨⟨FieldName.inputShapes, some 18446744073709551615⟩, "x#2"⟩,
    ⟨⟨FieldName.inputShapes, some 0⟩, "x"⟩]

theorem columns_settled_crowdedColumns :
    (Schema.ofList crowdedColumns).labels = ["x", "x#2", "x#2#2", "x#3"] ∧
    Schema.decode.ofText (Json.array (crowdedColumns.map Column.toJson)).indented =
      .ok (Schema.ofList crowdedColumns) ∧
    Schema.ofList (Schema.ofList crowdedColumns).columns = Schema.ofList crowdedColumns ∧
    Schema.decode.ofText (Schema.ofList crowdedColumns).toJson.compact =
      .ok (Schema.ofList crowdedColumns) ∧
    Config.decode.ofText
        { Config.standard with columns := some (Schema.ofList crowdedColumns) }.toJson.compact =
      .ok { Config.standard with columns := some (Schema.ofList crowdedColumns) } := by
  obtain ⟨hrows, hschemas, hread, hconfigs, -⟩ := columns_settled
  have hrow := (hrows crowdedColumns).2 (by decide) _ (Json.writes_indented _)
  obtain ⟨cs, -, -, hbuilt, hfits⟩ := hread _ _ hrow
  obtain ⟨hagain, hback⟩ := hschemas _ hbuilt
  refine ⟨by decide, hrow, hagain, hback hfits _ (Json.writes_compact _), ?_⟩
  exact hconfigs _ ⟨by decide, forall_mem_some ⟨hbuilt, hfits⟩⟩ _ (Json.writes_compact _)

end GraphSurvey
