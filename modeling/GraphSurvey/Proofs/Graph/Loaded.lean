import GraphSurvey.Config.Basic
import GraphSurvey.Proofs.Document.Accepted
import GraphSurvey.Proofs.Graph.Recovered
import Mathlib

/-!
# Loaded graphs are written and loaded again

What is loaded is nested no deeper than what was read, and its labels, extents and integers are
words, however it was spelled. So a loaded graph is loaded again from the text that is written for
it exactly if its numbers are recovered. Those of attributes are finite. Those of constants need not
be, since they are rounded from double precision after they were read; a graph with such a number
cannot be loaded again.

## Main definitions

* `GraphSurvey.Loaded` — what holds of a part of a graph that was read.

## Main results

* `GraphSurvey.Graph.decode_yields` — what holds of every graph that was read.
* `GraphSurvey.loadGraph_written` — what is loaded from the text of a loaded graph.
* `GraphSurvey.loadGraph_written_differs` — texts of loaded graphs that are refused, or that are
  those of other graphs.
-/

namespace GraphSurvey

open Decoder

/-- What holds of a part of a graph that was read where this many containers could be opened: its
labels, extents and integers are words, its document is nested no deeper, and its numbers of double
precision are finite. -/
structure Loaded (Fits : Prop) (j : Json) (numbers : List StoredNumber) (depth : Nat) : Prop where
  fits : Fits
  nesting : j.nesting ≤ depth
  finite : ∀ x, .double x ∈ numbers → x.isFinite = true

/-! ## Positions, types and attributes -/

theorem NodeId.decode_yields : NodeId.decode.Yields fun _ id => id.Fits :=
  size_yields.map fun _ _ h => h

namespace ResultType

mutual

/-- A type that was read is nested no deeper than its tree, and its extents are words. -/
theorem fits_of_decode {depth : Nat} {t : Tree} {ty : ResultType} (h : decode depth t = .ok ty) :
    ty.Fits ∧ ty.toJson.nesting ≤ depth := by
  match depth, t with
  | n + 1, .object (.member name t rest) =>
    rw [decode] at h
    obtain ⟨key, -, h⟩ := bind_ok h
    split at h
    · obtain ⟨shape, hshape, h⟩ := bind_ok h
      obtain rfl := endVariant_ok h
      obtain ⟨m, rfl, hfits⟩ := list_yields size_yields hshape
      exact ⟨hfits, by simp [toJson]⟩
    · obtain ⟨fields, hfields, h⟩ := bind_ok h
      obtain rfl := endVariant_ok h
      obtain ⟨hfits, hnesting⟩ := fits_of_decodeTuple hfields
      exact ⟨hfits, by simpa [toJson] using hnesting⟩
    · obtain ⟨text, -, h⟩ := bind_ok h
      obtain rfl := endVariant_ok h
      exact ⟨trivial, by simp [toJson, Json.nesting]⟩
    · cases h
  | n + 1, .object .close | n + 1, .object (.stop _) | n + 1, .object (.unnamed _) => cases h
  | n + 1, .null | n + 1, .bool _ | n + 1, .number _ | n + 1, .text _ | n + 1, .array _
  | n + 1, .garbled _ _ | n + 1, .missing _ => cases h
  | 0, t => cases t <;> cases h

/-- The fields of a tuple that was read. -/
theorem fits_of_decodeTuple {depth : Nat} {t : Tree} {fields : List ResultType}
    (h : decodeTuple depth t = .ok fields) :
    FieldsFit fields ∧ (Json.array (fieldsToJson fields)).nesting ≤ depth := by
  match depth, t with
  | n + 1, .array is =>
    obtain ⟨hfits, hnesting⟩ := fits_of_decodeFields h
    exact ⟨hfits, Nat.succ_le_succ hnesting⟩
  | n + 1, .null | n + 1, .bool _ | n + 1, .number _ | n + 1, .text _ | n + 1, .object _
  | n + 1, .garbled _ _ | n + 1, .missing _ => cases h
  | 0, t => cases t <;> cases h

/-- The fields of a tuple that were read. -/
theorem fits_of_decodeFields {depth : Nat} {is : Items} {fields : List ResultType}
    (h : decodeFields depth is = .ok fields) :
    FieldsFit fields ∧ Json.itemsNesting (fieldsToJson fields) ≤ depth := by
  match is with
  | .close =>
    cases h
    exact ⟨trivial, Nat.zero_le _⟩
  | .stop f => cases h
  | .item t rest =>
    obtain ⟨ty, hty, h⟩ := bind_ok h
    obtain ⟨types, htypes, h⟩ := bind_ok h
    cases h
    obtain ⟨hfits, hnesting⟩ := fits_of_decode hty
    obtain ⟨hfitsRest, hnestingRest⟩ := fits_of_decodeFields htypes
    exact ⟨⟨hfits, hfitsRest⟩, max_le hnesting hnestingRest⟩

end

end ResultType

namespace Attr

/-- What holds of an attribute. -/
abbrev Loaded (depth : Nat) (a : Attr) : Prop :=
  GraphSurvey.Loaded a.Fits a.toJson a.numbers depth

theorem decode_yields : Attr.decode.Yields fun n a => a.Loaded n := by
  refine Yields.of_nested (variant_yields fun name d hd => ?_)
  split at hd <;> cases hd
  · refine integer_yields.map fun n i hi => ⟨hi, ?_, by simp [numbers]⟩
    simp [toJson, Json.nesting]
  · refine (list_yields integer_yields).map fun n is h => ?_
    obtain ⟨m, rfl, hi⟩ := h
    exact ⟨hi, by simp [toJson], by simp [numbers]⟩
  · refine double_yields.map fun n x hx => ⟨trivial, ?_, by simpa [numbers] using hx⟩
    simp [toJson, Json.nesting]
  · refine (yields_true Decoder.text).map fun n s _ => ⟨trivial, ?_, by simp [numbers]⟩
    simp [toJson, Json.nesting]

/-- What holds of the dictionaries of attributes that were read. -/
theorem decodeAll_yields : Attr.decodeAll.Yields
    (Nested fun n attrs => ∀ e ∈ attrs.entries, e.2.Loaded n) := by
  refine (entries_yields decode_yields).map fun depth entries h => ?_
  obtain ⟨n, rfl, hentries⟩ := h
  refine ⟨n, rfl, fun e he => ?_⟩
  rcases Dictionary.mem_of_mem_insertAll he with hempty | hmem
  · cases hempty
  · exact hentries e hmem

end Attr

/-! ## Calls -/

/-- What holds of the parts of a call that were read. -/
structure CallDraft.Loaded (depth : Nat) (s : CallDraft) : Prop where
  args : ∀ ids ∈ s.args, Nested (fun _ ids => ∀ id ∈ ids, NodeId.Fits id) depth ids
  attrs : ∀ attrs ∈ s.attrs, ∀ e ∈ attrs.entries, e.2.Loaded (depth - 1)
  result : ∀ ty ∈ s.result, ty.Fits ∧ ty.toJson.nesting ≤ depth

/-- What holds of a call. -/
abbrev Call.Loaded (depth : Nat) (c : Call) : Prop :=
  GraphSurvey.Loaded c.Fits c.toJson c.numbers depth

theorem Call.loaded_of_finish {depth : Nat} {s : CallDraft} {c : Call}
    (h : Call.record.finish s = .ok c) (hs : s.Loaded depth) : c.Loaded (depth + 1) := by
  obtain ⟨op, -, h⟩ := bind_ok h
  obtain ⟨args, hargs, h⟩ := bind_ok h
  obtain ⟨result, hresult, h⟩ := bind_ok h
  cases h
  obtain ⟨n, rfl, hids⟩ := hs.args args (given_ok hargs)
  obtain ⟨hfits, hnesting⟩ := hs.result result (given_ok hresult)
  -- The attributes may be missing, but there is room for them, since the arguments are a list.
  have hattrs : ∀ e ∈ (s.attrs.getD ∅).entries, e.2.Loaded n := by
    cases hgiven : s.attrs with
    | none => exact List.forall_mem_nil _
    | some attrs => exact hs.attrs attrs hgiven
  refine ⟨⟨hids, fun e he => (hattrs e he).fits, hfits⟩, Json.nesting_object_le ?_, ?_⟩
  · simp only [List.forall_mem_cons]
    refine ⟨Nat.zero_le _, Json.nesting_array_map_le fun _ _ => Nat.zero_le _,
      Json.nesting_object_le ?_, hnesting, List.forall_mem_nil _⟩
    exact List.forall_mem_map.mpr fun e he => (hattrs e he).nesting
  · intro x hx
    obtain ⟨e, he, hx⟩ := List.mem_flatMap.mp hx
    exact (hattrs e he).finite x hx

theorem Call.decode_yields : Call.record.decode.Yields fun n c => c.Loaded n := by
  have hfields : ∀ field ∈ Call.record.fields, field.Keeps CallDraft.Loaded := by
    simp only [Call.record, List.forall_mem_cons]
    refine ⟨?_, ?_, ?_, ?_, List.forall_mem_nil _⟩
    · exact RecordField.keeps_of_yields rfl (yields_true Decoder.text) fun _ _ _ _ h =>
        ⟨h.args, h.attrs, h.result⟩
    · exact RecordField.keeps_of_yields rfl (list_yields NodeId.decode_yields) fun _ _ _ ha h =>
        ⟨forall_mem_some ha, h.attrs, h.result⟩
    · refine RecordField.keeps_of_yields rfl Attr.decodeAll_yields fun _ attrs _ ha h =>
        ⟨h.args, ?_, h.result⟩
      obtain ⟨n, rfl, ha⟩ := ha
      exact forall_mem_some ha
    · exact RecordField.keeps_of_yields rfl (fun _ _ _ => ResultType.fits_of_decode)
        fun _ _ _ ha h => ⟨h.args, h.attrs, forall_mem_some ha⟩
  exact Yields.of_nested (Record.decode_yields (fun _ => ⟨nofun, nofun, nofun⟩) hfields
    fun _ _ _ => Call.loaded_of_finish)

/-! ## Variables and constants -/

/-- What holds of the parts of a variable that were read. -/
def VarDraft.Loaded (depth : Nat) (s : VarDraft) : Prop :=
  ∀ ty ∈ s.type, ty.Fits ∧ ty.toJson.nesting ≤ depth

/-- What holds of what a node is. -/
abbrev NodeKind.Loaded (depth : Nat) (k : NodeKind) : Prop :=
  GraphSurvey.Loaded k.Fits k.toJson k.numbers depth

theorem NodeKind.varRecord_yields :
    NodeKind.varRecord.decode.Yields fun n k => k.Loaded (n + 1) := by
  have hfields : ∀ field ∈ NodeKind.varRecord.fields, field.Keeps VarDraft.Loaded := by
    simp only [NodeKind.varRecord, List.forall_mem_cons]
    refine ⟨?_, ?_, ?_, List.forall_mem_nil _⟩
    · exact RecordField.keeps_of_yields rfl (yields_true Decoder.text) fun _ _ _ _ h => h
    · exact RecordField.keeps_of_yields rfl (yields_true VarRole.decode) fun _ _ _ _ h => h
    · exact RecordField.keeps_of_yields rfl (fun _ _ _ => ResultType.fits_of_decode)
        fun _ _ _ ha _ => forall_mem_some ha
  refine Yields.of_nested (Record.decode_yields (fun _ => nofun) hfields fun n s k h hs => ?_)
  obtain ⟨name, -, h⟩ := bind_ok h
  obtain ⟨role, -, h⟩ := bind_ok h
  obtain ⟨ty, hty, h⟩ := bind_ok h
  cases h
  obtain ⟨hfits, hnesting⟩ := hs ty (given_ok hty)
  refine ⟨hfits, ?_, nofun⟩
  rw [toJson, Json.nesting_tagged]
  refine Nat.succ_le_succ (Json.nesting_object_le ?_)
  simp only [List.forall_mem_cons]
  refine ⟨Nat.zero_le _, ?_, hnesting, List.forall_mem_nil _⟩
  cases role <;> exact Nat.zero_le _

/-- The document of an array of numbers is nested twice. -/
theorem Literal.nesting_toJson (l : Literal) : l.toJson.nesting ≤ 2 := by
  refine Json.nesting_object_le ?_
  simp only [List.forall_mem_cons]
  exact ⟨Nat.zero_le _, (Json.nesting_sizes l.shape).le,
    Json.nesting_array_map_le fun _ _ => Nat.zero_le _, List.forall_mem_nil _⟩

/-- What holds of the parts of an array of numbers that were read. -/
def LiteralDraft.Loaded (depth : Nat) (s : LiteralDraft) : Prop := s.shape.isSome → 1 ≤ depth

theorem Literal.decode_yields : Literal.decode.Yields fun n l => l.toJson.nesting ≤ n := by
  have hfields : ∀ field ∈ Literal.record.fields, field.Keeps LiteralDraft.Loaded := by
    simp only [Literal.record, List.forall_mem_cons]
    refine ⟨?_, ?_, ?_, List.forall_mem_nil _⟩
    · exact RecordField.keeps_of_yields rfl (yields_true Literal.decodeVersion) fun _ _ _ _ h => h
    · refine RecordField.keeps_of_yields rfl (list_yields size_yields) fun _ _ _ ha _ _ => ?_
      obtain ⟨n, rfl, -⟩ := ha
      exact Nat.le_add_left 1 n
    · exact RecordField.keeps_of_yields rfl (yields_true (list single)) fun _ _ _ _ h => h
  refine Yields.of_nested (Record.decode_yields (fun _ => nofun) hfields fun n s l h hs => ?_)
  obtain ⟨version, -, h⟩ := bind_ok h
  obtain ⟨shape, hshape, -⟩ := bind_ok h
  have hn : 1 ≤ n := hs (by rw [given_ok hshape]; rfl)
  exact l.nesting_toJson.trans (Nat.succ_le_succ hn)

/-- What holds of the parts of a constant that were read. -/
def ConstantDraft.Loaded (depth : Nat) (s : ConstantDraft) : Prop :=
  ∀ l ∈ s.value, l.toJson.nesting ≤ depth

theorem NodeKind.constantRecord_yields :
    NodeKind.constantRecord.decode.Yields fun n k => k.Loaded (n + 1) := by
  have hfields : ∀ field ∈ NodeKind.constantRecord.fields, field.Keeps ConstantDraft.Loaded := by
    simp only [NodeKind.constantRecord, List.forall_mem_cons]
    refine ⟨?_, ?_, List.forall_mem_nil _⟩
    · exact RecordField.keeps_of_yields rfl (yields_true Decoder.text) fun _ _ _ _ h => h
    · exact RecordField.keeps_of_yields rfl Literal.decode_yields fun _ _ _ ha _ =>
        forall_mem_some ha
  refine Yields.of_nested (Record.decode_yields (fun _ => nofun) hfields fun n s k h hs => ?_)
  obtain ⟨name, -, h⟩ := bind_ok h
  obtain ⟨l, hl, h⟩ := bind_ok h
  cases h
  refine ⟨trivial, ?_, by simp [numbers, Literal.numbers]⟩
  rw [toJson, Json.nesting_tagged]
  refine Nat.succ_le_succ (Json.nesting_object_le ?_)
  simp only [List.forall_mem_cons]
  exact ⟨Nat.zero_le _, hs l (given_ok hl), List.forall_mem_nil _⟩

/-! ## Nodes and graphs -/

theorem NodeKind.decode_yields : NodeKind.decode.Yields fun n k => k.Loaded n := by
  refine Yields.of_nested (variant_yields fun name d hd => ?_)
  split at hd <;> cases hd
  · refine Call.decode_yields.map fun n c hc => ⟨hc.fits, ?_, hc.finite⟩
    rw [toJson, Json.nesting_tagged]
    exact Nat.succ_le_succ hc.nesting
  · exact NodeKind.varRecord_yields
  · exact NodeKind.constantRecord_yields

/-- What holds of a node. -/
abbrev Node.Loaded (depth : Nat) (n : Node) : Prop :=
  GraphSurvey.Loaded n.Fits n.toJson n.kind.numbers depth

/-- What holds of the parts of a node that were read. -/
structure NodeDraft.Loaded (depth : Nat) (s : NodeDraft) : Prop where
  id : ∀ id ∈ s.id, id.Fits
  kind : ∀ k ∈ s.kind, k.Loaded depth

theorem Node.decode_yields : Node.record.decode.Yields fun depth n => n.Loaded depth := by
  have hfields : ∀ field ∈ Node.record.fields, field.Keeps NodeDraft.Loaded := by
    simp only [Node.record, List.forall_mem_cons]
    refine ⟨?_, ?_, List.forall_mem_nil _⟩
    · exact RecordField.keeps_of_yields rfl NodeId.decode_yields fun _ _ _ ha h =>
        ⟨forall_mem_some ha, h.kind⟩
    · exact RecordField.keeps_of_yields rfl NodeKind.decode_yields fun _ _ _ ha h =>
        ⟨h.id, forall_mem_some ha⟩
  refine Yields.of_nested (Record.decode_yields (fun _ => ⟨nofun, nofun⟩) hfields
    fun depth s n h hs => ?_)
  obtain ⟨id, hid, h⟩ := bind_ok h
  obtain ⟨kind, hkind, h⟩ := bind_ok h
  cases h
  have hloaded := hs.kind kind (given_ok hkind)
  refine ⟨⟨hs.id id (given_ok hid), hloaded.fits⟩, Json.nesting_object_le ?_, hloaded.finite⟩
  simp only [List.forall_mem_cons]
  exact ⟨Nat.zero_le _, hloaded.nesting, List.forall_mem_nil _⟩

/-- What holds of the parts of a graph that were read. -/
structure GraphDraft.Loaded (depth : Nat) (s : GraphDraft) : Prop where
  nodes : ∀ ns ∈ s.nodes, Nested (fun m ns => ∀ n ∈ ns, Node.Loaded m n) depth ns
  outputs : ∀ ids ∈ s.outputs, ∀ id ∈ ids, NodeId.Fits id

/-- What holds of a graph. -/
abbrev Graph.Loaded (depth : Nat) (g : Graph) : Prop :=
  GraphSurvey.Loaded g.Fits g.toJson g.numbers depth

/-- A graph that was read has its labels, extents and integers in range, is nested no deeper than
what was read, and has finite numbers in its attributes. -/
theorem Graph.decode_yields : Graph.decode.Yields fun n g => g.Loaded n := by
  have hfields : ∀ field ∈ Graph.record.fields, field.Keeps GraphDraft.Loaded := by
    simp only [Graph.record, List.forall_mem_cons]
    refine ⟨?_, ?_, ?_, List.forall_mem_nil _⟩
    · exact RecordField.keeps_of_yields rfl (yields_true Decoder.text) fun _ _ _ _ h =>
        ⟨h.nodes, h.outputs⟩
    · exact RecordField.keeps_of_yields rfl (list_yields Node.decode_yields) fun _ _ _ ha h =>
        ⟨forall_mem_some ha, h.outputs⟩
    · refine RecordField.keeps_of_yields rfl (list_yields NodeId.decode_yields) fun _ _ _ ha h =>
        ⟨h.nodes, ?_⟩
      obtain ⟨_, -, ha⟩ := ha
      exact forall_mem_some ha
  refine Yields.of_nested (Record.decode_yields (fun _ => ⟨nofun, nofun⟩) hfields
    fun n s g h hs => ?_)
  obtain ⟨name, -, h⟩ := bind_ok h
  obtain ⟨nodes, hnodes, h⟩ := bind_ok h
  obtain ⟨outputs, houtputs, h⟩ := bind_ok h
  cases h
  obtain ⟨m, rfl, hloaded⟩ := hs.nodes nodes (given_ok hnodes)
  refine ⟨⟨fun n hn => (hloaded n hn).fits, hs.outputs outputs (given_ok houtputs)⟩,
    Json.nesting_object_le ?_, ?_⟩
  · simp only [List.forall_mem_cons]
    exact ⟨Nat.zero_le _, Json.nesting_array_map_le fun n hn => (hloaded n hn).nesting,
      Json.nesting_array_map_le fun _ _ => Nat.zero_le _, List.forall_mem_nil _⟩
  · intro x hx
    obtain ⟨n, hn, hx⟩ := List.mem_flatMap.mp hx
    exact (hloaded n hn).finite x hx

/-! ## Files -/

variable {σ : Type} {read : FileReader (StateM σ)} {path : String} {before after : σ} {g : Graph}

/-- What is loaded is what is made of what is read. -/
theorem loadGraph_run {r : Except FileError String} (h : (read path).run before = (r, after)) :
    (loadGraph read path).run before =
      (checkGraph path (decodeFile Graph.decode path r), after) := by
  rw [loadGraph, StateT.run_bind, h]
  rfl

/-- A graph is loaded if it is in the text of the file and its nodes are labelled by their
positions. -/
theorem loadGraph_run_eq_ok_iff : (loadGraph read path).run before = (.ok g, after) ↔
    ∃ s, (read path).run before = (.ok s, after) ∧ Graph.decode.ofText s = .ok g ∧
      g.checkIds = .ok () := by
  constructor
  · intro h
    rcases hread : (read path).run before with ⟨_ | s, middle⟩
    · cases (loadGraph_run hread).symm.trans h
    obtain ⟨hgraph, rfl⟩ := Prod.mk.inj ((loadGraph_run hread).symm.trans h)
    cases hdecode : Graph.decode.ofText s with
    | error f =>
      rw [decodeFile, hdecode] at hgraph
      cases hgraph
    | ok found =>
      rw [decodeFile, hdecode] at hgraph
      cases hids : found.checkIds with
      | error e =>
        simp only [checkGraph, hids] at hgraph
        cases hgraph
      | ok =>
        simp only [checkGraph, hids] at hgraph
        cases hgraph
        exact ⟨s, rfl, hdecode, hids⟩
  · rintro ⟨s, hread, hdecode, hids⟩
    rw [loadGraph_run hread, decodeFile, hdecode]
    simp only [checkGraph, hids]

/-- A graph that was loaded from one file is written to another and loaded again. Its attributes
are finite numbers. The graph is the same again exactly if the digits of all its numbers are read as
the numbers. If they are for all that are finite, but an element of a constant is not finite, then
the other file is refused as a document of another form. -/
theorem loadGraph_written {read' : FileReader (StateM σ)} {path' : String} {later last : σ}
    (hload : (loadGraph read path).run before = (.ok g, after))
    (hwritten : (read' path').run later = (.ok g.toJson.compact, last)) :
    (∀ x, .double x ∈ g.numbers → x.isFinite = true) ∧
      ((loadGraph read' path').run later = (.ok g, last) ↔ ∀ x ∈ g.numbers, x.Recovered) ∧
      ((∀ x ∈ g.numbers, x.isFinite = true → x.ReadsBack) →
        (∃ x, .single x ∈ g.numbers ∧ x.isFinite = false) →
        (loadGraph read' path').run later = (.error (.document path' .mismatch), last)) := by
  obtain ⟨s, -, hs, hids⟩ := loadGraph_run_eq_ok_iff.mp hload
  have hloaded := Graph.decode_yields.of_ofText hs
  have hiff := Graph.decode_tree_eq_ok_iff hloaded.fits hloaded.nesting
  rw [← ofText_compact Graph.decode] at hiff
  refine ⟨hloaded.finite, ⟨fun h => ?_, fun h => ?_⟩, fun hback hsingle => ?_⟩
  · obtain ⟨s', hread, hdecode, -⟩ := loadGraph_run_eq_ok_iff.mp h
    obtain rfl : g.toJson.compact = s' :=
      Except.ok.inj (Prod.mk.inj (hwritten.symm.trans hread)).1
    exact hiff.mp hdecode
  · exact loadGraph_run_eq_ok_iff.mpr ⟨_, hwritten, hiff.mpr h, hids⟩
  · obtain ⟨x, hx, hinfinite⟩ := hsingle
    have hall : g.numbers.all StoredNumber.isFinite = false :=
      List.all_eq_false.mpr ⟨_, hx, by simpa [StoredNumber.isFinite] using hinfinite⟩
    rw [loadGraph_run hwritten, decodeFile, ofText_compact,
      Graph.decode_tree hloaded.fits hloaded.nesting hback, hall]
    rfl

/-- Reads the same text from every file. -/
def fixedReader (s : String) : FileReader (StateM Unit) := fun _ => return .ok s

theorem loadGraph_fixedReader {s : String} (h : Graph.decode.ofText s = .ok g)
    (hids : g.checkIds = .ok ()) (path : String) :
    (loadGraph (fixedReader s) path).run () = (.ok g, ()) :=
  loadGraph_run_eq_ok_iff.mpr ⟨s, rfl, h, hids⟩

/-- A graph with a decidable property is in a text if it is found there. -/
theorem exists_of_decode {s : String} {P : Graph → Prop} [DecidablePred P]
    (h : (fun g => decide (P g)) <$> Graph.decode.ofText s = .ok true) :
    ∃ g, Graph.decode.ofText s = .ok g ∧ P g := by
  obtain ⟨g, hg, hP⟩ := map_ok h
  exact ⟨g, hg, of_decide_eq_true hP⟩

/-- The text of a graph with a call and a constant, most records being arrays of their parts. An
attribute is given twice, and there is a member of another name. -/
def arraysText (element : String) : String :=
  "[\"g\", [[0, \x7b\"Call\": [\"f\", [], \x7b\"a\": \x7b\"Int\": 7\x7d, " ++
    "\"a\": \x7b\"Float\": 25E-2\x7d\x7d, \x7b\"Tuple\": []\x7d]\x7d], \x7b\"x\": 0, " ++
    "\"kind\": \x7b\"Constant\": [\"c\", [1, [1], [" ++ element ++ "]]]\x7d, \"id\": 1\x7d], []]"

theorem loadGraph_written_arraysText :
    (∃ g, (loadGraph (fixedReader (arraysText "1.5e0")) "g.json").run () = (.ok g, ()) ∧
      (loadGraph (fixedReader g.toJson.compact) "h.json").run () = (.ok g, ())) ∧
    ∃ g, (loadGraph (fixedReader (arraysText "1e39")) "g.json").run () = (.ok g, ()) ∧
      (loadGraph (fixedReader g.toJson.compact) "h.json").run () =
        (.error (.document "h.json" .mismatch), ()) := by
  constructor
  · obtain ⟨g, hg, hids, hrecovered⟩ :
        ∃ g, Graph.decode.ofText (arraysText "1.5e0") = .ok g ∧ g.checkIds = .ok () ∧
          ∀ x ∈ g.numbers, x.Recovered :=
      exists_of_decode (by decide +kernel)
    have hload := loadGraph_fixedReader hg hids "g.json"
    exact ⟨g, hload, (loadGraph_written hload rfl).2.1.mpr hrecovered⟩
  · obtain ⟨g, hg, hids, hmem, hback⟩ :
        ∃ g, Graph.decode.ofText (arraysText "1e39") = .ok g ∧ g.checkIds = .ok () ∧
          .single (.infinite false) ∈ g.numbers ∧
          ∀ x ∈ g.numbers, x.isFinite = true → x.ReadsBack :=
      exists_of_decode (by decide +kernel)
    have hload := loadGraph_fixedReader hg hids "g.json"
    exact ⟨g, hload, (loadGraph_written hload rfl).2.2 hback ⟨_, hmem, rfl⟩⟩

/-- The text of a graph that is a constant of one element. -/
def constantText (element : String) : String :=
  "\x7b\"name\":\"g\",\"nodes\":[\x7b\"id\":0,\"kind\":\x7b\"Constant\":\x7b\"name\":\"c\"," ++
    "\"value\":\x7b\"v\":1,\"dim\":[1],\"data\":[" ++ element ++ "]\x7d\x7d\x7d\x7d],\"outputs\":[]\x7d"

/-- The text of a graph that is a call with an attribute. -/
def attributeText (factor : String) : String :=
  "\x7b\"name\":\"g\",\"nodes\":[\x7b\"id\":0,\"kind\":\x7b\"Call\":\x7b\"op\":\"f\"," ++
    "\"args\":[],\"attrs\":\x7b\"a\":\x7b\"Float\":" ++ factor ++
    "\x7d\x7d,\"ty\":\x7b\"Tensor\":[]\x7d\x7d\x7d\x7d],\"outputs\":[]\x7d"

/-- Texts of loaded graphs do not always stand for them. An element that is too great for single
precision is loaded as infinite, and the text of the graph is refused. The digits of an attribute
may be read as the number before it, and the text is that of another graph. -/
theorem loadGraph_written_differs :
    (∃ g, (loadGraph (fixedReader (constantText "1e39")) "g.json").run () = (.ok g, ()) ∧
      g.toJson.compact = constantText "null" ∧
      (loadGraph (fixedReader (constantText "null")) "g.json").run () =
        (.error (.document "g.json" .mismatch), ())) ∧
    ∃ g h, (loadGraph (fixedReader (attributeText "0.90094022041523214")) "g.json").run () =
        (.ok g, ()) ∧
      g.toJson.compact = attributeText "0.9009402204152321" ∧
      (loadGraph (fixedReader (attributeText "0.9009402204152321")) "g.json").run () =
        (.ok h, ()) ∧
      h.toJson.compact = attributeText "0.900940220415232" ∧ g ≠ h := by
  constructor
  · obtain ⟨g, hg, hids, htext⟩ :
        ∃ g, Graph.decode.ofText (constantText "1e39") = .ok g ∧ g.checkIds = .ok () ∧
          g.toJson.compact = constantText "null" := exists_of_decode (by decide +kernel)
    have hnull : (fun _ => ()) <$> Graph.decode.ofText (constantText "null") =
        .error .mismatch := by
      decide +kernel
    refine ⟨g, loadGraph_fixedReader hg hids "g.json", htext, ?_⟩
    rw [loadGraph_run rfl, decodeFile, map_error hnull]
    rfl
  · obtain ⟨g, hg, hids, htext⟩ :
        ∃ g, Graph.decode.ofText (attributeText "0.90094022041523214") = .ok g ∧
          g.checkIds = .ok () ∧ g.toJson.compact = attributeText "0.9009402204152321" :=
      exists_of_decode (by decide +kernel)
    obtain ⟨h, hh, hids', htext'⟩ :
        ∃ h, Graph.decode.ofText (attributeText "0.9009402204152321") = .ok h ∧
          h.checkIds = .ok () ∧ h.toJson.compact = attributeText "0.900940220415232" :=
      exists_of_decode (by decide +kernel)
    refine ⟨g, h, loadGraph_fixedReader hg hids _, htext, loadGraph_fixedReader hh hids' _, htext',
      fun heq => ?_⟩
    have hsame : attributeText "0.9009402204152321" = attributeText "0.900940220415232" := by
      rw [← htext, ← htext', heq]
    exact absurd hsame (by decide +kernel)

end GraphSurvey
