import GraphSurvey.Proofs.Pass.Standard
import GraphSurvey.Proofs.Pipeline.Merging
import GraphSurvey.Proofs.Walk.Order
import Mathlib

/-!
# Runs of the standard passes

The standard passes with any attributes and any histogram, if they are accepted, run in the order in
which they are listed, and no run of theirs fails once the nodes have an order. Every call gets an
entry with its operator, its place among the calls, the shapes of its result and its arguments, and
its integer attributes, and nothing else. A shape of an argument is read from what was recorded when
the argument was visited, and this is the shape of the type that the argument itself tells.

## Main definitions

* `GraphSurvey.Pass.IsEntry`, `GraphSurvey.Pass.callAnomalies` — what is recorded and reported of a
  call.
* `GraphSurvey.Pipeline.Recorded` — what a run has done after some of the nodes.

## Main results

* `GraphSurvey.Pipeline.passes_configured` — the passes run in the order of the list.
* `GraphSurvey.Pipeline.Recorded.visit_call`, `GraphSurvey.Pipeline.Recorded.visit_leaf` — what
  every visit adds.
* `GraphSurvey.Pipeline.run_configured` — what a run gives.
-/

namespace GraphSurvey

/-! ## Accepted attributes -/

namespace Pass

variable {attributes : List String} {histogramField field key : String}

@[simp] theorem owns_opName_iff : opName.access.Owns field ↔ field = FieldName.op := by
  simp [opName, extractor, Access.Owns, eq_comm]

@[simp] theorem owns_visitIndex_iff : visitIndex.access.Owns field ↔ field = FieldName.index := by
  simp [visitIndex, Access.Owns, eq_comm]

@[simp] theorem owns_outputShape_iff :
    outputShape.access.Owns field ↔ field = FieldName.outputShape := by
  simp [outputShape, extractor, Access.Owns, eq_comm]

@[simp] theorem owns_inputShapes_iff :
    inputShapes.access.Owns field ↔ field = FieldName.inputShapes := by
  simp [inputShapes, extractor, Access.Owns, eq_comm]

@[simp] theorem owns_attr_iff : (attr key).access.Owns field ↔ field = key := by
  simp [attr, extractor, Access.Owns, eq_comm]

@[simp] theorem not_owns_histogram : ¬ (histogram histogramField).access.Owns field := by
  simp [histogram, Access.Owns]

/-- The fields of the passes that are always there. -/
def reserved : List String :=
  [FieldName.op, FieldName.index, FieldName.outputShape, FieldName.inputShapes]

theorem mem_configured_iff {pass : Pass} :
    pass ∈ configured attributes histogramField ↔
      pass = opName ∨ pass = visitIndex ∨ pass = outputShape ∨ pass = inputShapes ∨
        (∃ key ∈ attributes, pass = attr key) ∨ pass = histogram histogramField := by
  simp only [configured, List.append_assoc, List.mem_append, List.mem_cons, List.mem_map,
    List.not_mem_nil, or_false, or_assoc, eq_comm]

/-- The fields that are always there and those of the attributes have owners. -/
theorem exists_owner_of_mem (histogramField : String) (h : field ∈ reserved ++ attributes) :
    ∃ pass ∈ configured attributes histogramField, pass.access.Owns field := by
  simp only [reserved, List.mem_append, List.mem_cons, List.not_mem_nil, or_false] at h
  rcases h with (rfl | rfl | rfl | rfl) | hkey
  · exact ⟨opName, by simp [mem_configured_iff], owns_opName_iff.mpr rfl⟩
  · exact ⟨visitIndex, by simp [mem_configured_iff], owns_visitIndex_iff.mpr rfl⟩
  · exact ⟨outputShape, by simp [mem_configured_iff], owns_outputShape_iff.mpr rfl⟩
  · exact ⟨inputShapes, by simp [mem_configured_iff], owns_inputShapes_iff.mpr rfl⟩
  · have hmem : attr field ∈ configured attributes histogramField :=
      List.mem_append_left _ (List.mem_append_right _ (List.mem_map_of_mem hkey))
    exact ⟨attr field, hmem, owns_attr_iff.mpr rfl⟩

end Pass

namespace Pipeline

open Pass

variable {attributes : List String} {histogramField : String} {p : Pipeline}

/-- An accepted attribute is none of the fields that are always there. -/
theorem not_mem_reserved (h : ofPasses (configured attributes histogramField) = .ok p) :
    ∀ key ∈ attributes, key ∉ reserved := by
  intro key hkey hreserved
  obtain ⟨order, horder, -⟩ := ofPasses_eq_ok_iff.mp h
  have hpairs := pairwise_not_owns (Schedule.orderable_of_order horder)
  rw [configured, List.append_assoc, List.pairwise_append] at hpairs
  have hattr : attr key ∈ attributes.map attr ++ [histogram histogramField] :=
    List.mem_append_left _ (List.mem_map_of_mem hkey)
  have hown : (attr key).access.Owns key := owns_attr_iff.mpr rfl
  simp only [reserved, List.mem_cons, List.not_mem_nil, or_false] at hreserved
  rcases hreserved with rfl | rfl | rfl | rfl
  · exact hpairs.2.2 opName (by simp) _ hattr _ (owns_opName_iff.mpr rfl) hown
  · exact hpairs.2.2 visitIndex (by simp) _ hattr _ (owns_visitIndex_iff.mpr rfl) hown
  · exact hpairs.2.2 outputShape (by simp) _ hattr _ (owns_outputShape_iff.mpr rfl) hown
  · exact hpairs.2.2 inputShapes (by simp) _ hattr _ (owns_inputShapes_iff.mpr rfl) hown

/-- No standard pass reads a field of a later one. -/
theorem readsEarlier_configured (histogramField : String)
    (hreserved : ∀ key ∈ attributes, key ∉ reserved) :
    ReadsEarlier (configured attributes histogramField) := by
  rw [ReadsEarlier, configured, List.append_assoc, List.pairwise_append]
  refine ⟨?_, ?_, ?_⟩
  · simp [opName, visitIndex, outputShape, extractor]
  · refine List.pairwise_append.mpr ⟨?_, List.pairwise_singleton .., ?_⟩
    · exact List.pairwise_map.mpr (List.pairwise_of_forall fun _ _ _ hfield => by cases hfield)
    · intro first hfirst _ _ field hfield
      obtain ⟨key, -, rfl⟩ := List.mem_map.mp hfirst
      cases hfield
  · -- the only field that is read before the histogram is the shape of the result
    intro first hfirst later hlater field hfield hown
    simp only [List.mem_cons, List.not_mem_nil, or_false] at hfirst
    rcases hfirst with rfl | rfl | rfl | rfl
    · cases hfield
    · cases hfield
    · cases hfield
    · obtain rfl : field = FieldName.outputShape := List.mem_singleton.mp hfield
      rcases List.mem_append.mp hlater with hlater | hlater
      · obtain ⟨key, hkey, rfl⟩ := List.mem_map.mp hlater
        obtain rfl := owns_attr_iff.mp hown
        exact hreserved _ hkey (by simp [reserved])
      · obtain rfl := List.mem_singleton.mp hlater
        exact not_owns_histogram hown

/-- Accepted standard passes run in the order of the list. -/
theorem passes_configured (h : ofPasses (configured attributes histogramField) = .ok p) :
    p.passes = configured attributes histogramField :=
  passes_eq_of_readsEarlier h (readsEarlier_configured histogramField (not_mem_reserved h))

end Pipeline

/-! ## What is recorded of a call -/

namespace Pass

/-- The details of the call at a place among the calls. -/
structure IsEntry (g : Graph) (attributes : List String) (k : Nat) (c : Call) (d : Details) :
    Prop where
  op : d.get? FieldName.op = some (.text c.op)
  index : d.get? FieldName.index = some (.int k)
  outputShape : d.get? FieldName.outputShape = Value.ofType c.result
  outputShape_eq_none_iff : d.get? FieldName.outputShape = none ↔ c.result.HasNamed
  inputShapes : ∃ shapes : Dictionary Value,
    d.get? FieldName.inputShapes = some (.map shapes.entries) ∧ g.IsShapeMap c.args shapes
  /-- There is no field for an attribute that is not there or is not integer-valued. -/
  attr : ∀ key ∈ attributes, d.get? key = intsAttr? key c
  field : ∀ name v, d.get? name = some v → name ∈ reserved ++ attributes

/-- What is reported of a call. -/
def callAnomalies (attributes : List String) (id : NodeId) (c : Call) : List Anomaly :=
  shapeAnomalies id c ++ attributes.flatMap fun key => attrAnomalies key id c

/-- What a field of the call at a place among the calls holds. -/
def entryField (g : Graph) (attributes : List String) (k : Nat) (c : Call) (field : String) :
    Option Value :=
  if field = FieldName.op then some (.text c.op)
  else if field = FieldName.index then some (.int k)
  else if field = FieldName.outputShape then Value.ofType c.result
  else if field = FieldName.inputShapes then some (.map (g.declaredShapes c.args 0 ∅).entries)
  else if attributes.contains field then intsAttr? field c
  else none

variable {g : Graph} {attributes : List String} {k : Nat} {c : Call} {field key : String}

theorem entryField_attr (hkey : key ∈ attributes) (hreserved : key ∉ reserved) :
    entryField g attributes k c key = intsAttr? key c := by
  simp only [reserved, List.mem_cons, List.not_mem_nil, or_false, not_or] at hreserved
  simp only [entryField, hreserved, if_false, List.contains_iff_mem.mpr hkey, if_true]

theorem entryField_of_not_mem (h : field ∉ reserved ++ attributes) :
    entryField g attributes k c field = none := by
  simp only [reserved, List.mem_append, List.mem_cons, List.not_mem_nil, or_false, not_or] at h
  obtain ⟨hreserved, hattr⟩ := h
  simp only [entryField, hreserved, if_false, List.contains_iff_mem, hattr]

/-- Details whose fields are those of an entry are an entry. -/
theorem isEntry_of_get? {d : Details}
    (h : ∀ field, d.get? field = entryField g attributes k c field)
    (hreserved : ∀ key ∈ attributes, key ∉ reserved) : IsEntry g attributes k c d where
  op := h FieldName.op
  index := h FieldName.index
  outputShape := h FieldName.outputShape
  outputShape_eq_none_iff := by
    rw [← Value.ofType_eq_none_iff]
    exact iff_of_eq (congrArg (· = none) (h FieldName.outputShape))
  inputShapes := ⟨_, h FieldName.inputShapes, g.isShapeMap_declaredShapes c.args⟩
  attr key hkey := (h key).trans (entryField_attr hkey (hreserved key hkey))
  field name v hv := by
    by_contra hname
    rw [h name, entryField_of_not_mem hname] at hv
    cases hv

end Pass

/-! ## The visit of a call -/

namespace CallVisit

open Pass

theorem turn_opName (v : CallVisit) :
    v.turn opName = ⟨[(FieldName.op, .text v.call.op)], [], .ok ()⟩ :=
  effect_opName

theorem turn_outputShape (v : CallVisit) :
    v.turn outputShape =
      ⟨((Value.ofType v.call.result).map fun shape => (FieldName.outputShape, shape)).toList,
        shapeAnomalies v.node v.call, .ok ()⟩ :=
  effect_outputShape

theorem turn_attr (v : CallVisit) (key : String) :
    v.turn (attr key) =
      ⟨((intsAttr? key v.call).map fun value => (key, value)).toList,
        attrAnomalies key v.node v.call, .ok ()⟩ :=
  effect_attr key

theorem turn_histogram (v : CallVisit) (field : String) :
    v.turn (histogram field) = ⟨[], [], .ok ()⟩ :=
  effect_histogram field

/-- The visit of a call by the standard passes: it leaves the entry of the call. -/
def standard (g : Graph) (id : NodeId) (c : Call) (states : States) (before : View)
    (attributes : List String) (k : Nat) : CallVisit where
  graph := g
  node := id
  call := c
  states := states
  before := before
  after := fun node field =>
    if node = id then entryField g attributes k c field else before node field

section Standard

variable {g : Graph} {id : NodeId} {c : Call} {states : States} {before : View}
  {attributes : List String} {k : Nat} {histogramField key : String}

theorem turn_visitIndex (hk : states visitIndex = (k : Int)) :
    (standard g id c states before attributes k).turn visitIndex =
      ⟨[(FieldName.index, .int k)], [], .ok (k + 1 : Int)⟩ := by
  rw [← hk]
  exact effect_visitIndex (states visitIndex)

/-- The shapes of the arguments are those recorded when the arguments were visited. -/
theorem turn_inputShapes (hargs : ∀ arg ∈ c.args, arg ≠ id ∧ Shown g before arg) :
    (standard g id c states before attributes k).turn inputShapes =
      ⟨[(FieldName.inputShapes, .map (g.declaredShapes c.args 0 ∅).entries)], [], .ok ()⟩ := by
  refine effect_inputShapes fun arg harg => ?_
  obtain ⟨hne, n, hn, hcall⟩ := hargs arg harg
  refine ⟨n, hn, fun c' hc' => ?_⟩
  rw [seen_of_not_owns (by simp [FieldName.outputShape, FieldName.inputShapes]), ← hcall c' hc']
  exact if_neg hne

/-- The standard passes settle the visit of a call that leaves its entry. -/
theorem settles_standard (histogramField : String) (hk : states visitIndex = (k : Int))
    (hnew : ∀ field, before id field = none)
    (hargs : ∀ arg ∈ c.args, arg ≠ id ∧ Shown g before arg)
    (hreserved : ∀ key ∈ attributes, key ∉ reserved) :
    (standard g id c states before attributes k).Settles
      (configured attributes histogramField) where
  ok pass hpass := by
    rcases mem_configured_iff.mp hpass with rfl | rfl | rfl | rfl | ⟨key, -, rfl⟩ | rfl
    · exact ⟨(), congrArg Effect.result (turn_opName _)⟩
    · exact ⟨_, congrArg Effect.result (turn_visitIndex hk)⟩
    · exact ⟨(), congrArg Effect.result (turn_outputShape _)⟩
    · exact ⟨(), congrArg Effect.result (turn_inputShapes hargs)⟩
    · exact ⟨(), congrArg Effect.result (turn_attr _ key)⟩
    · exact ⟨(), congrArg Effect.result (turn_histogram _ histogramField)⟩
  own pass hpass field hown node := by
    have hrecord (field : String) (o : Option Value) :
        (if node = id then o else before node field) =
          before.recordAll id (o.map fun v => (field, v)).toList node field :=
      (View.recordAll_toList (hnew field) o node).symm
    rcases mem_configured_iff.mp hpass with rfl | rfl | rfl | rfl | ⟨key, hkey, rfl⟩ | rfl
    · obtain rfl := owns_opName_iff.mp hown
      rw [turn_opName]
      exact hrecord FieldName.op (some (.text c.op))
    · obtain rfl := owns_visitIndex_iff.mp hown
      rw [turn_visitIndex hk]
      exact hrecord FieldName.index (some (.int k))
    · obtain rfl := owns_outputShape_iff.mp hown
      rw [turn_outputShape]
      exact hrecord FieldName.outputShape (Value.ofType c.result)
    · obtain rfl := owns_inputShapes_iff.mp hown
      rw [turn_inputShapes hargs]
      exact hrecord FieldName.inputShapes (some (.map (g.declaredShapes c.args 0 ∅).entries))
    · obtain rfl := owns_attr_iff.mp hown
      rw [turn_attr]
      show (if node = id then entryField g attributes k c field else before node field) = _
      rw [entryField_attr hkey (hreserved field hkey)]
      exact hrecord field (intsAttr? field c)
    · exact absurd hown not_owns_histogram
  foreign field hfield node := by
    have hmem : field ∉ reserved ++ attributes := by
      intro hmem
      obtain ⟨pass, hpass, hown⟩ := exists_owner_of_mem histogramField hmem
      exact hfield pass hpass hown
    show (if node = id then entryField g attributes k c field else before node field) = _
    rw [entryField_of_not_mem hmem]
    split
    case isTrue hid =>
      subst hid
      exact (hnew field).symm
    case isFalse => rfl

/-- What the standard passes raise is reported of the call. -/
theorem raised_standard (hk : states visitIndex = (k : Int))
    (hargs : ∀ arg ∈ c.args, arg ≠ id ∧ Shown g before arg) :
    ((configured attributes histogramField).flatMap fun pass =>
        ((standard g id c states before attributes k).turn pass).raised) =
      callAnomalies attributes id c := by
  simp only [configured, List.flatMap_append, List.flatMap_cons, List.flatMap_nil,
    List.flatMap_map, turn_opName, turn_visitIndex hk, turn_outputShape, turn_inputShapes hargs,
    turn_attr, turn_histogram, List.nil_append, List.append_nil]
  rfl

end Standard

end CallVisit

/-! ## The run -/

namespace Pipeline

open Pass CallVisit

variable {g : Graph} {attributes : List String} {histogramField : String} {done : List NodeId}
  {id : NodeId} {n : Node} {c : Call} {s : Progress} {p : Pipeline}

/-- What a run of the standard passes has done after some nodes: every call among them has its
entry, and nothing else was recorded or reported. -/
structure Recorded (g : Graph) (attributes : List String) (histogramField : String)
    (done : List NodeId) (s : Progress) : Prop where
  states : ∃ states : States,
    s.passes = (configured attributes histogramField).map (running states) ∧
      states visitIndex = ((g.callsIn done).length : Int)
  nodes : s.notes.store.nodes = (g.callsIn done).map Prod.fst
  entries : ∀ k id c, (g.callsIn done)[k]? = some (id, c) → ∀ field,
    s.notes.store.field? id field = entryField g attributes k c field
  anomalies : s.notes.anomalies =
    (g.callsIn done).flatMap fun x => callAnomalies attributes x.1 x.2

theorem Recorded.visit_leaf (h : Recorded g attributes histogramField done s)
    (hn : g.node? id = some n) (hleaf : ∀ c, n.kind ≠ .call c) :
    ∃ s', visit g id s = (s', none) ∧
      Recorded g attributes histogramField (done ++ [id]) s' := by
  obtain ⟨states, hs, hindex⟩ := h.states
  refine ⟨_, Pipeline.visit_leaf hn hleaf s, ?_⟩
  have hcalls : g.callsIn (done ++ [id]) = g.callsIn done := callsIn_append_leaf hn hleaf
  refine ⟨⟨fun pass => pass.onLeaf n (states pass), ?_, ?_⟩, ?_, ?_, ?_⟩
  · rw [hs, visitLeaf, List.map_map]
    rfl
  · rw [hcalls]
    exact hindex
  · rw [hcalls]
    exact h.nodes
  · rw [hcalls]
    exact h.entries
  · rw [hcalls]
    exact h.anomalies

theorem Recorded.mem_of_mem_nodes (h : Recorded g attributes histogramField done s)
    (hid : id ∈ s.notes.store.nodes) : id ∈ done := by
  rw [h.nodes] at hid
  exact (mem_of_mem_callsIn hid).1

/-- The fields of a node that was visited hold its shape if it is a call. -/
theorem Recorded.shown (h : Recorded g attributes histogramField done s)
    (hargs : Walk.ArgsFirst g done.reverse) (hid : id ∈ done) :
    Shown g s.notes.store.field? id := by
  have hsize := hargs.lt_size (List.mem_reverse.mpr hid)
  obtain ⟨n, hn⟩ : ∃ n, g.node? id = some n := ⟨_, Array.getElem?_eq_getElem hsize⟩
  refine ⟨n, hn, fun c hc => ?_⟩
  obtain ⟨k, hk⟩ := List.mem_iff_getElem?.mp (mem_callsIn_iff.mpr ⟨hid, call?_call hn hc⟩)
  rw [h.entries k id c hk, Node.declaredType, hc]
  rfl

theorem Recorded.visit_call (h : Recorded g attributes histogramField done s)
    (hturn : InTurn (configured attributes histogramField))
    (hreserved : ∀ key ∈ attributes, key ∉ reserved)
    (hfirst : Walk.ArgsFirst g (id :: done.reverse))
    (hn : g.node? id = some n) (hc : n.kind = .call c) :
    ∃ s', visit g id s = (s', none) ∧
      Recorded g attributes histogramField (done ++ [id]) s' := by
  obtain ⟨states, hs, hindex⟩ := h.states
  obtain ⟨-, hid, hargs, hdone⟩ := hfirst
  rw [List.mem_reverse] at hid
  have hnodes : id ∉ s.notes.store.nodes := fun hmem => hid (h.mem_of_mem_nodes hmem)
  have hshown : ∀ arg ∈ c.args, arg ≠ id ∧ Shown g s.notes.store.field? arg := by
    intro arg harg
    have hmem : arg ∈ done := by
      refine List.mem_reverse.mp (hargs arg ⟨n, hn, ?_⟩)
      rw [Node.args, hc]
      exact harg
    exact ⟨fun heq => hid (heq ▸ hmem), h.shown hdone hmem⟩
  have hsettles := settles_standard histogramField hindex
    (DetailStore.field?_of_not_mem hnodes) hshown hreserved
  obtain ⟨store, hfield, hstore, heq⟩ := hsettles.visit_eq hturn hn hc hs rfl
  have hcalls : g.callsIn (done ++ [id]) = g.callsIn done ++ [(id, c)] := callsIn_append_call hn hc
  refine ⟨_, heq, ⟨_, rfl, ?_⟩, ?_, ?_, ?_⟩
  · rw [statesAfter, turn_visitIndex hindex, hcalls, List.length_append]
    rfl
  · rw [hcalls, List.map_append, ← h.nodes]
    exact hstore.trans (DetailStore.nodes_openEntry hnodes)
  · intro k other c' hk field
    show store.field? other field = _
    rw [hfield]
    rw [hcalls] at hk
    rcases Nat.lt_or_ge k (g.callsIn done).length with hlt | hge
    · rw [List.getElem?_append_left hlt] at hk
      have hother : other ∈ done := (mem_callsIn_iff.mp (List.mem_of_getElem? hk)).1
      have hne : other ≠ id := by
        rintro rfl
        exact hid hother
      rw [← h.entries k other c' hk field]
      exact if_neg hne
    · rw [List.getElem?_append_right hge] at hk
      obtain ⟨hlast, heq⟩ := List.getElem?_eq_some_iff.mp hk
      obtain rfl : k = (g.callsIn done).length := by
        rw [List.length_singleton] at hlast
        omega
      simp only [Nat.sub_self, List.getElem_cons_zero, Prod.mk.injEq] at heq
      obtain ⟨rfl, rfl⟩ := heq
      exact if_pos rfl
  · rw [hcalls, List.flatMap_append, ← h.anomalies]
    show s.notes.anomalies ++ _ = _
    rw [raised_standard hindex hshown]
    simp

/-- What a run of the standard passes has done before a visit it has done after it. -/
theorem Recorded.visit (h : Recorded g attributes histogramField done s)
    (hturn : InTurn (configured attributes histogramField))
    (hreserved : ∀ key ∈ attributes, key ∉ reserved)
    (hfirst : Walk.ArgsFirst g (id :: done.reverse)) :
    ∃ s', Pipeline.visit g id s = (s', none) ∧
      Recorded g attributes histogramField (done ++ [id]) s' := by
  obtain ⟨n, hn⟩ : ∃ n, g.node? id = some n := ⟨_, Array.getElem?_eq_getElem hfirst.1⟩
  rcases call_or_leaf n with ⟨c, hc⟩ | hleaf
  · exact h.visit_call hturn hreserved hfirst hn hc
  · exact h.visit_leaf hn hleaf

/-- The visits of a graph by the standard passes do not fail, whether or not its nodes have an
order. -/
theorem exists_recorded (h : ofPasses (configured attributes histogramField) = .ok p) (g : Graph) :
    ∃ s, Walk.visitAll (Pipeline.visit g) g.course.state p.start = (s, none) ∧
      Recorded g attributes histogramField g.course.state s := by
  have hpasses := passes_configured h
  have hturn : InTurn (configured attributes histogramField) := hpasses ▸ inTurn_passes h
  refine Walk.visitAll_of_invariant ?_ ?_
  · intro done id rest s heq hdone
    have hfirst := g.argsFirst_course
    rw [heq, List.reverse_append, List.reverse_cons, List.append_assoc] at hfirst
    exact hdone.visit hturn (not_mem_reserved h) hfirst.suffix
  · refine ⟨⟨Pass.start, ?_, rfl⟩, rfl, ?_, rfl⟩
    · rw [start, hpasses]
      rfl
    · intro k id c hk
      cases hk

/-! ## The end of the run -/

/-- What one pass produces is the summary. -/
theorem summaryOf_insertAll (pass : String) (fragment : Summary) :
    summaryOf ((∅ : Produced).insertAll (fragment.entries.map fun e => (e.1, (e.2, pass)))) =
      fragment := by
  refine Dictionary.ext_get? fun name => ?_
  rw [get?_summaryOf, Dictionary.get?_insertAll_map fragment fun v => (v, pass), Option.map_map]
  exact Option.map_id'

theorem mergeSummaries_of_silent {details : DetailStore} {rs rest : List Running}
    {produced : Produced} (h : ∀ r ∈ rs, r.pass.onSummarize r.state details = none) :
    mergeSummaries details (rs ++ rest) produced = mergeSummaries details rest produced := by
  induction rs with
  | nil => rfl
  | cons r rs ih =>
    obtain ⟨hr, hrs⟩ := List.forall_mem_cons.mp h
    rw [List.cons_append, mergeSummaries, hr]
    exact ih hrs

/-- The standard passes summarise without a collision, since the histogram is the only summary. -/
theorem Recorded.conclude_eq (h : Recorded g attributes histogramField done s) :
    conclude g s = .ok ⟨g.name, s.notes.store,
      (s.notes.store.entries.filterMap fun e => e.2.get? histogramField).foldl countValue ∅,
      s.notes.anomalies⟩ := by
  obtain ⟨states, hs, -⟩ := h.states
  have hsilent : ∀ r ∈ ([opName, visitIndex, outputShape, inputShapes] ++
      attributes.map attr).map (running states),
      r.pass.onSummarize r.state s.notes.store = none := by
    intro r hr
    obtain ⟨pass, hpass, rfl⟩ := List.mem_map.mp hr
    simp only [List.mem_append, List.mem_cons, List.not_mem_nil, or_false, List.mem_map] at hpass
    rcases hpass with (rfl | rfl | rfl | rfl) | ⟨key, -, rfl⟩ <;> rfl
  let counts : Summary :=
    (s.notes.store.entries.filterMap fun e => e.2.get? histogramField).foldl countValue ∅
  have hmerge : mergeSummaries s.notes.store s.passes ∅ = .ok ((∅ : Produced).insertAll
      (counts.entries.map fun e => (e.1, (e.2, (histogram histogramField).name)))) := by
    rw [hs, configured, List.map_append, mergeSummaries_of_silent hsilent]
    exact mergeSummaries_cons rfl (mergeFields_eq_insertAll _ counts.increasing.nodup
      fun e _ => Dictionary.get?_empty e.1)
  rw [conclude, hmerge]
  simp only [summaryOf_insertAll]
  rfl

theorem Recorded.exists_conclude (h : Recorded g attributes histogramField done s) :
    ∃ r, conclude g s = .ok r ∧ r.model = g.name ∧ r.details = s.notes.store ∧
      r.anomalies = s.notes.anomalies :=
  ⟨_, h.conclude_eq, rfl, rfl, rfl⟩

/-- What a run of the standard passes with any attributes and any histogram gives, if they are
accepted. If the nodes of the graph have no order, the run ends with the error that says so. If they
have, it succeeds: it has an entry for every call in the order of the visits and for no other node,
and it reports of every call a type without a shape and then the attributes that are not
integer-valued. -/
theorem run_configured (h : ofPasses (configured attributes histogramField) = .ok p) (g : Graph) :
    (∀ e, g.order = .error e → p.run g = .error (.graph e)) ∧
    ∀ order, g.order = .ok order → ∃ r, p.run g = .ok r ∧
      r.model = g.name ∧
      r.details.nodes = (g.callsIn order).map Prod.fst ∧
      (∀ k id c, (g.callsIn order)[k]? = some (id, c) →
        ∃ d, r.details.get? id = some d ∧ IsEntry g attributes k c d) ∧
      r.anomalies = (g.callsIn order).flatMap fun x => callAnomalies attributes x.1 x.2 := by
  obtain ⟨s, hvisits, hrecorded⟩ := exists_recorded h g
  constructor
  · intro e he
    rw [run_eq, hvisits, Graph.order_eq_error_iff.mp he]
  · intro order horder
    obtain ⟨hnone, rfl⟩ := Graph.order_eq_ok_iff.mp horder
    obtain ⟨r, hr, hmodel, hdetails, hanomalies⟩ := hrecorded.exists_conclude
    refine ⟨r, (run_of_order horder hvisits).trans hr, hmodel, ?_, ?_, ?_⟩
    · rw [hdetails]
      exact hrecorded.nodes
    · intro k id c hk
      have hid : id ∈ s.notes.store.nodes := by
        rw [hrecorded.nodes]
        exact List.mem_map_of_mem (List.mem_of_getElem? hk)
      obtain ⟨d, hd⟩ := Option.isSome_iff_exists.mp (DetailStore.isSome_get?_iff.mpr hid)
      refine ⟨d, hdetails ▸ hd, isEntry_of_get? (fun field => ?_) (not_mem_reserved h)⟩
      rw [← hrecorded.entries k id c hk field, DetailStore.field?, hd]
      rfl
    · rw [hanomalies]
      exact hrecorded.anomalies

/-- A graph with one call, whose type is known by its name only. -/
def pairCall : Graph where
  name := "pair"
  nodes := #[⟨⟨0⟩, .var "x" .input (.tensor [1, 4])⟩,
    ⟨⟨1⟩, .call ((Call.plain "split" [⟨0⟩] (.named "Pair")).withAttr "strides" (.ints [2, 2]))⟩]
  outputs := [⟨1⟩]

theorem run_configured_pairCall :
    ∃ r : Analysis, (⟨configured ["strides"] FieldName.op⟩ : Pipeline).run pairCall = .ok r ∧
      r.details.nodes = [⟨1⟩] ∧
      r.anomalies =
        [⟨⟨1⟩, "output_shape", "unrecognized result type <Pair> for 'split'"⟩] := by
  have hp : ofPasses (configured ["strides"] FieldName.op) =
      .ok ⟨configured ["strides"] FieldName.op⟩ := by cbv
  have horder : pairCall.order = .ok [⟨0⟩, ⟨1⟩] := by cbv
  obtain ⟨r, hr, -, hnodes, -, hanomalies⟩ := (run_configured hp pairCall).2 _ horder
  exact ⟨r, hr, hnodes, hanomalies⟩

end Pipeline

end GraphSurvey
