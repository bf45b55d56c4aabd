import GraphSurvey.Config.Basic
import GraphSurvey.Proofs.Pipeline.Histogram
import GraphSurvey.Proofs.Report.StandardColumns
import Mathlib

/-!
# Tables of details of configured runs

A configuration without columns of its own asks for the standard passes and the standard columns.
They fit each other. The table of details has a row for every call, in the order of the visits, and
every cell of it is what the graph tells of the call: the passes write the shapes of arguments under
their positions in decimal, and the columns look them up there. The columns leave out no field that
the passes record, except for the shapes of the arguments if no column is asked for them.

## Main definitions

* `GraphSurvey.Cell.ShowsType`, `GraphSurvey.Cell.ShowsAttr`, `GraphSurvey.Schema.ShowsCall` — what
  a cell shows of a type and of an attribute, and a row of a call.
* `GraphSurvey.Graph.HasCall` — the outputs reach a call.

## Main results

* `GraphSurvey.Pass.IsEntry.showsCall` — the row of an entry in the standard columns.
* `GraphSurvey.Pipeline.Recorded.mem_uncoveredFields_iff` — which fields the standard columns leave
  out.
* `GraphSurvey.details_configured` — the table of details of a run.
* `GraphSurvey.uncovered_configured` — the fields that the table leaves out.
-/

namespace GraphSurvey

/-! ## What is shown of a call -/

namespace Cell

/-- The cell shows a type as nested sequences, or nothing exactly if a type that is known by its
name only occurs in it. -/
structure ShowsType (cell : Cell) (ty : ResultType) : Prop where
  eq : cell = .ofOption (Value.ofType ty)
  absent_iff : cell = .absent ↔ ty.HasNamed

/-- The cell shows an attribute of a call as a sequence of integers, or nothing if the call does not
have the attribute as an integer or as a row of integers. -/
structure ShowsAttr (cell : Cell) (key : String) (call : Call) : Prop where
  int : ∀ i, call.attrs.get? key = some (.int i) → cell = .value (.ofInts [i])
  ints : ∀ is, call.attrs.get? key = some (.ints is) → cell = .value (.ofInts is)
  otherwise : (∀ i, call.attrs.get? key ≠ some (.int i)) →
    (∀ is, call.attrs.get? key ≠ some (.ints is)) → cell = .absent

theorem ofOption_eq_absent_iff {o : Option Value} : ofOption o = .absent ↔ o = none := by
  cases o <;> simp [ofOption]

theorem showsType_ofType (ty : ResultType) : (ofOption (Value.ofType ty)).ShowsType ty where
  eq := rfl
  absent_iff := ofOption_eq_absent_iff.trans (Value.ofType_eq_none_iff ty)

theorem showsAttr_intsAttr? (key : String) (call : Call) :
    (ofOption (Pass.intsAttr? key call)).ShowsAttr key call where
  int i h := by
    rw [Pass.intsAttr?, h]
    rfl
  ints is h := by
    rw [Pass.intsAttr?, h]
    rfl
  otherwise hint hints := by
    rw [Pass.intsAttr?]
    cases hattr : call.attrs.get? key with
    | none => rfl
    | some a =>
      cases a with
      | int i => exact absurd hattr (hint i)
      | ints is => exact absurd hattr (hints is)
      | float x => rfl
      | text t => rfl

end Cell

/-- The row shows a call of a graph that has a place among the calls: the place, the operator, the
type of the result, the types that the first arguments tell, and attributes. -/
structure Schema.ShowsCall (s : Schema) (g : Graph) (arity : Nat) (attributes : List String)
    (k : Nat) (call : Call) (row : Row) : Prop where
  width : row.cells.length = s.columns.length
  index : s.cellAt? row ⟨FieldName.index, none⟩ = some (.value (.int k))
  op : s.cellAt? row ⟨FieldName.op, none⟩ = some (.value (.text call.op))
  outputShape : ∃ cell, s.cellAt? row ⟨FieldName.outputShape, none⟩ = some cell ∧
    cell.ShowsType call.result
  inputShape : ∀ i < arity, ∀ arg, call.args[i]? = some arg → ∃ n cell, g.node? arg = some n ∧
    s.cellAt? row ⟨FieldName.inputShapes, some i⟩ = some cell ∧ cell.ShowsType n.declaredType
  /-- The cell of an argument that the call does not have is absent. -/
  noArgument : ∀ i < arity, call.args.length ≤ i →
    s.cellAt? row ⟨FieldName.inputShapes, some i⟩ = some .absent
  attr : ∀ key ∈ attributes, ∃ cell, s.cellAt? row ⟨key, none⟩ = some cell ∧
    cell.ShowsAttr key call

/-- The standard columns show a call if the details are its entry and its arguments are nodes. -/
theorem Pass.IsEntry.showsCall {g : Graph} {attributes : List String} {k : Nat} {call : Call}
    {d : Details} (h : IsEntry g attributes k call d)
    (hargs : ∀ arg ∈ call.args, ∃ n, g.node? arg = some n) (id : NodeId) (arity : Nat) :
    (Schema.standard arity attributes).ShowsCall g arity attributes k call
      (detailRow (Schema.standard arity attributes) id d) where
  width := List.length_map ..
  index := by
    rw [Schema.cellAt?_field id d (Schema.mem_paths_standard_iff.mpr (by simp)), h.index]
    rfl
  op := by
    rw [Schema.cellAt?_field id d (Schema.mem_paths_standard_iff.mpr (by simp)), h.op]
    rfl
  outputShape := by
    refine ⟨_, Schema.cellAt?_field id d (Schema.mem_paths_standard_iff.mpr (by simp)), ?_⟩
    rw [h.outputShape]
    exact Cell.showsType_ofType call.result
  inputShape i hi arg harg := by
    obtain ⟨shapes, hshapes, hmap⟩ := h.inputShapes
    obtain ⟨n, hn⟩ := hargs arg (List.mem_of_getElem? harg)
    have hpath : ⟨FieldName.inputShapes, some i⟩ ∈ (Schema.standard arity attributes).paths :=
      Schema.mem_paths_standard_iff.mpr (by simp [hi])
    refine ⟨n, _, hn, Schema.cellAt?_element id hshapes hpath, ?_⟩
    rw [hmap.shape, harg, Option.bind_some, Graph.declaredShape?, hn]
    exact Cell.showsType_ofType n.declaredType
  noArgument i hi hlen := by
    obtain ⟨shapes, hshapes, hmap⟩ := h.inputShapes
    have hpath : ⟨FieldName.inputShapes, some i⟩ ∈ (Schema.standard arity attributes).paths :=
      Schema.mem_paths_standard_iff.mpr (by simp [hi])
    rw [Schema.cellAt?_element id hshapes hpath, hmap.shape, List.getElem?_eq_none hlen]
    rfl
  attr key hkey := by
    have hpath : ⟨key, none⟩ ∈ (Schema.standard arity attributes).paths :=
      Schema.mem_paths_standard_iff.mpr (by simp [hkey])
    refine ⟨_, Schema.cellAt?_field id d hpath, ?_⟩
    rw [h.attr key hkey]
    exact Cell.showsAttr_intsAttr? key call

/-! ## What a run has recorded -/

theorem Node.args_of_call? {n : Node} {call : Call} (h : n.call? = some call) :
    n.args = call.args := by
  obtain ⟨id, kind⟩ := n
  cases kind with
  | call c =>
    obtain rfl := Option.some.inj h
    rfl
  | var => cases h
  | constant => cases h

namespace Graph

/-- The outputs reach a call. -/
def HasCall (g : Graph) : Prop := ∃ id call, g.Reachable id ∧ g.call? id = some call

variable {g : Graph} {order : List NodeId} {id : NodeId} {call : Call}

theorem mem_callsIn_order_iff (horder : g.order = .ok order) :
    (id, call) ∈ g.callsIn order ↔ g.Reachable id ∧ g.call? id = some call := by
  rw [Pipeline.mem_callsIn_iff, mem_order_iff horder]

theorem callsIn_ne_nil_iff (horder : g.order = .ok order) : g.callsIn order ≠ [] ↔ g.HasCall := by
  constructor
  · intro hne
    obtain ⟨⟨id, call⟩, hmem⟩ := List.exists_mem_of_ne_nil _ hne
    exact ⟨id, call, (mem_callsIn_order_iff horder).mp hmem⟩
  · rintro ⟨id, call, hcall⟩
    exact List.ne_nil_of_mem ((mem_callsIn_order_iff horder).mpr hcall)

/-- The arguments of a call that is visited are nodes. -/
theorem exists_node_of_arg (horder : g.order = .ok order) (hid : g.Reachable id)
    (hcall : g.call? id = some call) {arg : NodeId} (harg : arg ∈ call.args) :
    ∃ n, g.node? arg = some n := by
  obtain ⟨n, hn, hn'⟩ := Option.bind_eq_some_iff.mp hcall
  have hedge : g.HasArg id arg := ⟨n, hn, by rwa [Node.args_of_call? hn']⟩
  have hmem := (mem_order_iff horder arg).mpr (hid.arg hedge)
  have hlt := (argsFirst_of_order horder).lt_size (List.mem_reverse.mpr hmem)
  exact ⟨_, Array.getElem?_eq_getElem hlt⟩

end Graph

namespace Pipeline

open Pass

variable {g : Graph} {attributes : List String} {histogramField field : String}
  {done : List NodeId} {s : Progress} {k arity : Nat} {id : NodeId} {call : Call}

/-- The entry at a place is that of the call at this place. -/
theorem Recorded.getElem?_entries (h : Recorded g attributes histogramField done s)
    (hk : (g.callsIn done)[k]? = some (id, call)) :
    ∃ d, s.notes.store.entries[k]? = some (id, d) ∧
      ∀ field, d.get? field = entryField g attributes k call field := by
  have hnode : s.notes.store.nodes[k]? = some id := by
    rw [h.nodes, List.getElem?_map, hk]
    rfl
  rw [DetailStore.nodes, List.getElem?_map] at hnode
  obtain ⟨⟨other, d⟩, hd, hother⟩ := Option.map_eq_some_iff.mp hnode
  obtain rfl : other = id := hother
  refine ⟨d, hd, fun field => ?_⟩
  rw [← h.entries k other call hk field, DetailStore.field?,
    DetailStore.get?_of_mem (List.mem_of_getElem? hd)]
  rfl

/-- Of the fields that are recorded the standard columns leave out the shapes of arguments, which
are recorded of every call, if no column is asked for them, and no others. -/
theorem Recorded.mem_uncoveredFields_iff (h : Recorded g attributes histogramField done s)
    (hreserved : ∀ key ∈ attributes, key ∉ reserved) :
    field ∈ uncoveredFields s.notes.store (Schema.standard arity attributes) ↔
      field = FieldName.inputShapes ∧ arity = 0 ∧ g.callsIn done ≠ [] := by
  rw [GraphSurvey.mem_uncoveredFields_iff, Schema.mem_coveredFields_standard_iff]
  constructor
  · rintro ⟨⟨e, he, hsome⟩, hfree⟩
    obtain ⟨k, call, hk, hentry⟩ := h.exists_entryField he field
    have hmem : field ∈ reserved ++ attributes := by
      by_contra hmem
      rw [hentry, entryField_of_not_mem hmem] at hsome
      cases hsome
    simp only [not_or, not_and] at hfree
    obtain ⟨hindex, hop, houtput, hinput, hattr⟩ := hfree
    obtain rfl : field = FieldName.inputShapes := by
      simpa only [reserved, List.mem_append, List.mem_cons, List.not_mem_nil, or_false, hop,
        hindex, houtput, hattr, false_or] using hmem
    exact ⟨rfl, Nat.eq_zero_of_not_pos fun hpos => hinput hpos rfl,
      List.ne_nil_of_mem (List.mem_of_getElem? hk)⟩
  · rintro ⟨rfl, rfl, hcalls⟩
    obtain ⟨⟨id, call⟩, hfirst⟩ := List.exists_mem_of_ne_nil _ hcalls
    obtain ⟨k, hk⟩ := List.mem_iff_getElem?.mp hfirst
    obtain ⟨d, hd, hfields⟩ := h.getElem?_entries hk
    refine ⟨⟨(id, d), List.mem_of_getElem? hd, ?_⟩, ?_⟩
    · rw [hfields]
      rfl
    · rintro (heq | heq | heq | ⟨hpos, -⟩ | hkey)
      · exact absurd heq (by decide)
      · exact absurd heq (by decide)
      · exact absurd heq (by decide)
      · exact Nat.lt_irrefl 0 hpos
      · exact hreserved _ hkey (by simp [reserved])

end Pipeline

/-! ## Configured runs -/

namespace Config

variable {c : Config} {p : Pipeline} {g : Graph} {order : List NodeId}

theorem ofPasses_of_pipeline (h : c.pipeline = .ok p) :
    Pipeline.ofPasses (Pass.configured c.attributes c.histogramField) = .ok p := by
  rw [pipeline] at h
  split at h
  case h_1 q hq =>
    obtain rfl := Except.ok.inj h
    exact hq
  case h_2 => cases h

theorem detailSchema_of_none (h : c.columns = none) :
    c.detailSchema = Schema.standard c.inputColumns c.attributes := by
  rw [detailSchema, h]

/-- A configured run of a graph whose nodes have an order succeeds, and its details are what is
recorded in this order. -/
theorem exists_run (hp : c.pipeline = .ok p) (horder : g.order = .ok order) :
    ∃ s r, Pipeline.Recorded g c.attributes c.histogramField order s ∧ p.run g = .ok r ∧
      r.details = s.notes.store := by
  obtain ⟨s, hvisits, hrecorded⟩ := Pipeline.exists_recorded (ofPasses_of_pipeline hp) g
  obtain ⟨-, rfl⟩ := Graph.order_eq_ok_iff.mp horder
  obtain ⟨r, hr, -, hdetails, -⟩ := hrecorded.exists_conclude
  exact ⟨s, r, hrecorded, (Pipeline.run_of_order horder hvisits).trans hr, hdetails⟩

end Config

/-- What the table of details shows of a run that is configured without columns. If the passes are
accepted and the nodes of the graph have an order, the run succeeds, and the table has one row for
every call that the outputs reach, in the order of the visits. The row is keyed by the position of
the call. Its cells show the place among the rows, the operator, the types of the result and of the
first arguments, as far as they have shapes and the call has these arguments, and the attributes, as
far as the call has them as integers. -/
theorem details_configured {c : Config} {p : Pipeline} {g : Graph} {order : List NodeId}
    (hcolumns : c.columns = none) (hp : c.pipeline = .ok p) (horder : g.order = .ok order) :
    ∃ r, p.run g = .ok r ∧
      ((g.callsIn order).map Prod.fst).Nodup ∧
      (∀ id call, (id, call) ∈ g.callsIn order ↔ g.Reachable id ∧ g.call? id = some call) ∧
      (detailTable r c.detailSchema).rows.length = (g.callsIn order).length ∧
      ∀ k id call, (g.callsIn order)[k]? = some (id, call) →
        ∃ row, (detailTable r c.detailSchema).rows[k]? = some row ∧
          row.key = "%" ++ toString id.index ∧
          c.detailSchema.ShowsCall g c.inputColumns c.attributes k call row := by
  obtain ⟨s, r, hrecorded, hr, hdetails⟩ := Config.exists_run hp horder
  have hreserved := Pipeline.not_mem_reserved (Config.ofPasses_of_pipeline hp)
  refine ⟨r, hr, ?_, fun id call => Graph.mem_callsIn_order_iff horder, ?_, ?_⟩
  · rw [← hrecorded.nodes]
    exact s.notes.store.nodup
  · have hlength := congrArg List.length hrecorded.nodes
    rw [DetailStore.nodes, List.length_map, List.length_map] at hlength
    rw [detailTable, List.length_map, hdetails, hlength]
  · intro k id call hk
    obtain ⟨hreach, hcall⟩ := (Graph.mem_callsIn_order_iff horder).mp (List.mem_of_getElem? hk)
    obtain ⟨d, hd, hfields⟩ := hrecorded.getElem?_entries hk
    refine ⟨detailRow c.detailSchema id d, ?_, rfl, ?_⟩
    · rw [detailTable, List.getElem?_map, hdetails, hd]
      rfl
    · rw [Config.detailSchema_of_none hcolumns]
      exact (Pass.isEntry_of_get? hfields hreserved).showsCall
        (fun arg harg => Graph.exists_node_of_arg horder hreach hcall harg) id c.inputColumns

/-- A graph with a call of a closure: the closure is the result of another call, and its type is
known by its name only. -/
def closureCall : Graph where
  name := "closure"
  nodes := #[⟨⟨0⟩, .var "x" .input (.tensor [1, 3])⟩,
    ⟨⟨1⟩, .call (Call.plain "make_closure" [⟨0⟩] (.named "Closure"))⟩,
    ⟨⟨2⟩, .call ((Call.plain "apply" [⟨0⟩, ⟨1⟩] (.tensor [1, 3])).withAttr "strides"
      (.ints [2, 2]))⟩]
  outputs := [⟨2⟩]

/-- A configuration that differs from the standard one in how many arguments are shown. -/
def showingInputs (arity : Nat) : Config := { Config.standard with inputColumns := arity }

theorem details_configured_closureCall :
    ∃ (p : Pipeline) (r : Analysis) (row : Row), (showingInputs 3).pipeline = .ok p ∧
      p.run closureCall = .ok r ∧
      (detailTable r (showingInputs 3).detailSchema).rows[1]? = some row ∧ row.key = "%2" ∧
      (showingInputs 3).detailSchema.cellAt? row ⟨"op", none⟩ = some (.value (.text "apply")) ∧
      (showingInputs 3).detailSchema.cellAt? row ⟨"input_shapes", some 0⟩ =
        some (.value (.ofInts [1, 3])) ∧
      (showingInputs 3).detailSchema.cellAt? row ⟨"input_shapes", some 1⟩ = some .absent ∧
      (showingInputs 3).detailSchema.cellAt? row ⟨"input_shapes", some 2⟩ = some .absent ∧
      (showingInputs 3).detailSchema.cellAt? row ⟨"strides", none⟩ =
        some (.value (.ofInts [2, 2])) ∧
      (showingInputs 3).detailSchema.cellAt? row ⟨"padding", none⟩ = some .absent := by
  have hp : (showingInputs 3).pipeline = .ok ⟨Pass.standard⟩ := by cbv
  have horder : closureCall.order = .ok [⟨0⟩, ⟨1⟩, ⟨2⟩] := by cbv
  obtain ⟨r, hr, -, -, -, hrows⟩ := details_configured rfl hp horder
  obtain ⟨row, hrow, hkey, hshows⟩ := hrows 1 ⟨2⟩ _ rfl
  obtain ⟨n, input, hn, hinput, htype⟩ := hshows.inputShape 0 (by decide) ⟨0⟩ rfl
  obtain rfl := Option.some.inj hn
  obtain ⟨n, closure, hn, hclosure, hnamed⟩ := hshows.inputShape 1 (by decide) ⟨1⟩ rfl
  obtain rfl := Option.some.inj hn
  obtain ⟨strides, hstrides, hints⟩ := hshows.attr "strides" (by decide)
  obtain ⟨padding, hpadding, hnone⟩ := hshows.attr "padding" (by decide)
  refine ⟨_, r, row, hp, hr, hrow, hkey, hshows.op, ?_, ?_,
    hshows.noArgument 2 (by decide) (by decide), ?_, ?_⟩
  · exact hinput.trans (congrArg some htype.eq)
  · exact hclosure.trans (congrArg some (hnamed.absent_iff.mpr (.named _)))
  · exact hstrides.trans (congrArg some (hints.ints _ rfl))
  · have habsent := hnone.otherwise (fun _ h => by cases h) fun _ h => by cases h
    exact hpadding.trans (congrArg some habsent)

/-- Which recorded fields the standard columns leave out of a run that is configured without
columns. They leave out none if there is a column for an argument or no call is reached, and
otherwise the shapes of the arguments and nothing else. -/
theorem uncovered_configured {c : Config} {p : Pipeline} {g : Graph} {r : Analysis}
    (hcolumns : c.columns = none) (hp : c.pipeline = .ok p) (hr : p.run g = .ok r) :
    (1 ≤ c.inputColumns ∨ ¬ g.HasCall → uncoveredFields r.details c.detailSchema = []) ∧
    (c.inputColumns = 0 → g.HasCall →
      uncoveredFields r.details c.detailSchema = [FieldName.inputShapes]) ∧
    ∀ field ∈ uncoveredFields r.details c.detailSchema, field = FieldName.inputShapes := by
  obtain ⟨order, -, horder, -⟩ := Pipeline.exists_order_of_run hr
  obtain ⟨s, r', hrecorded, hr', hdetails⟩ := Config.exists_run hp horder
  obtain rfl : r' = r := Except.ok.inj (hr'.symm.trans hr)
  have hmem (field : String) : field ∈ uncoveredFields r'.details c.detailSchema ↔
      field = FieldName.inputShapes ∧ c.inputColumns = 0 ∧ g.HasCall := by
    rw [hdetails, Config.detailSchema_of_none hcolumns, ← Graph.callsIn_ne_nil_iff horder]
    exact hrecorded.mem_uncoveredFields_iff
      (Pipeline.not_mem_reserved (Config.ofPasses_of_pipeline hp))
  refine ⟨fun h => ?_, fun hzero hcall => ?_, fun field hfield => ((hmem field).mp hfield).1⟩
  · refine List.eq_nil_iff_forall_not_mem.mpr fun field hfield => ?_
    obtain ⟨-, hzero, hcall⟩ := (hmem field).mp hfield
    rcases h with hpos | hnone
    · omega
    · exact hnone hcall
  · refine List.perm_singleton.mp ((List.perm_ext_iff_of_nodup (nodup_uncoveredFields _ _)
      (List.nodup_singleton _)).mpr fun field => ?_)
    rw [hmem, List.mem_singleton]
    simp [hzero, hcall]

theorem uncovered_configured_closureCall :
    ∃ (p : Pipeline) (r : Analysis), (showingInputs 0).pipeline = .ok p ∧
      p.run closureCall = .ok r ∧ closureCall.HasCall ∧
      uncoveredFields r.details (showingInputs 0).detailSchema = ["input_shapes"] := by
  have hp : (showingInputs 0).pipeline = .ok ⟨Pass.standard⟩ := by cbv
  have horder : closureCall.order = .ok [⟨0⟩, ⟨1⟩, ⟨2⟩] := by cbv
  have hcall : closureCall.HasCall :=
    ⟨⟨2⟩, _, ⟨⟨2⟩, List.mem_singleton_self _, .refl⟩, rfl⟩
  obtain ⟨s, r, -, hr, -⟩ := Config.exists_run hp horder
  exact ⟨_, r, hp, hr, hcall, (uncovered_configured rfl hp hr).2.1 rfl hcall⟩

end GraphSurvey
