import GraphSurvey.Proofs.Pipeline.Configured
import GraphSurvey.Proofs.Walk.Renaming
import Mathlib

/-!
# Runs over renamed graphs

A run of the standard passes depends on nothing but what the outputs of a graph reach, up to the
names of the nodes. In a renamed graph the same calls are visited in the same order, their arguments
have the same shapes, and so the same is recorded and reported of the renamed nodes.

## Main definitions

* `GraphSurvey.Analysis.RenamedBy` — an analysis of the renamed nodes.
* `GraphSurvey.AnalysisError.rename`, `GraphSurvey.Anomaly.rename` — errors and findings about the
  renamed nodes.

## Main results

* `GraphSurvey.Graph.Renames.callsIn_map` — the calls among renamed nodes.
* `GraphSurvey.Pass.entryField_rename`, `GraphSurvey.Pass.callAnomalies_rename` — what is recorded
  and reported of a renamed call.
* `GraphSurvey.Pipeline.run_renamed` — the order of the visits and the run over a renamed graph.
-/

namespace GraphSurvey

/-! ## Renamed analyses -/

section Rename

variable (f : NodeId → NodeId)

/-- The finding about the renamed node. -/
def Anomaly.rename (a : Anomaly) : Anomaly := { a with node := f a.node }

/-- The error about the renamed node. Only an error of the graph is about a node. -/
def AnalysisError.rename : AnalysisError → AnalysisError
  | .graph e => .graph (e.rename f)
  | e => e

/-- The second analysis records the same of the renamed nodes, in the same order, and reports the
same of them, and it has the same summary. -/
structure Analysis.RenamedBy (r r' : Analysis) : Prop where
  model : r'.model = r.model
  entries : r'.details.entries = r.details.entries.map fun e => (f e.1, e.2)
  summary : r'.summary = r.summary
  anomalies : r'.anomalies = r.anomalies.map (Anomaly.rename f)

end Rename

variable {f : NodeId → NodeId} {g g' : Graph}

/-! ## Renamed calls -/

namespace Graph.Renames

/-- The call at a renamed position is the renamed call. -/
theorem call?_eq (hf : g.Renames f g') {id : NodeId} (hid : g.Reachable id) :
    g'.call? (f id) = (g.call? id).map (Call.rename f) := by
  rw [call?, call?]
  cases hn : g.node? id with
  | none => rw [hf.missing id hid hn]; rfl
  | some n =>
    obtain ⟨n', hn', hkind⟩ := hf.present id n hid hn
    rw [hn', Option.bind_some, Option.bind_some, Node.call?, Node.call?, hkind]
    cases n.kind <;> rfl

/-- The calls among renamed nodes are the renamed calls. -/
theorem callsIn_map (hf : g.Renames f g') {ids : List NodeId} (hids : ∀ id ∈ ids, g.Reachable id) :
    g'.callsIn (ids.map f) = (g.callsIn ids).map fun x => (f x.1, x.2.rename f) := by
  rw [callsIn, callsIn, List.filterMap_map, List.map_filterMap]
  refine List.filterMap_congr fun id hid => ?_
  rw [Function.comp_apply, hf.call?_eq (hids id hid), Option.map_map, Option.map_map]
  rfl

/-- The shape of a renamed node is that of the node. -/
theorem declaredShape?_eq (hf : g.Renames f g') {id : NodeId} (hid : g.Reachable id) :
    g'.declaredShape? (f id) = g.declaredShape? id := by
  rw [declaredShape?, declaredShape?]
  cases hn : g.node? id with
  | none => rw [hf.missing id hid hn]
  | some n =>
    obtain ⟨n', hn', hkind⟩ := hf.present id n hid hn
    rw [hn', Option.bind_some, Option.bind_some, Node.declaredType, Node.declaredType, hkind]
    cases n.kind <;> rfl

/-- The shapes of renamed arguments are those of the arguments. -/
theorem declaredShapes_eq (hf : g.Renames f g') {args : List NodeId}
    (hargs : ∀ id ∈ args, g.Reachable id) (k : Nat) (shapes : Dictionary Value) :
    g'.declaredShapes (args.map f) k shapes = g.declaredShapes args k shapes := by
  induction args generalizing k shapes with
  | nil => rfl
  | cons id rest ih =>
    obtain ⟨hid, hrest⟩ := List.forall_mem_cons.mp hargs
    rw [List.map_cons, declaredShapes, declaredShapes, hf.declaredShape?_eq hid, ih hrest]

end Graph.Renames

namespace Pass

variable {attributes : List String} {k : Nat} {c : Call}

/-- The fields of a renamed call hold what those of the call hold. -/
theorem entryField_rename (hf : g.Renames f g') (hargs : ∀ id ∈ c.args, g.Reachable id)
    (field : String) :
    entryField g' attributes k (c.rename f) field = entryField g attributes k c field := by
  simp only [entryField, Call.rename, hf.declaredShapes_eq hargs, intsAttr?]

/-- The same is reported of a renamed call. -/
theorem callAnomalies_rename (f : NodeId → NodeId) (attributes : List String) (id : NodeId)
    (c : Call) :
    callAnomalies attributes (f id) (c.rename f) =
      (callAnomalies attributes id c).map (Anomaly.rename f) := by
  have hshape : shapeAnomalies (f id) (c.rename f) =
      (shapeAnomalies id c).map (Anomaly.rename f) := by
    by_cases hnamed : c.result.HasNamed <;>
      simp [shapeAnomalies, Call.rename, Anomaly.rename, hnamed]
  have hattr (key : String) : attrAnomalies key (f id) (c.rename f) =
      (attrAnomalies key id c).map (Anomaly.rename f) := by
    cases hget : c.attrs.get? key with
    | none => simp [attrAnomalies, Call.rename, hget]
    | some a =>
      cases hints : a.toInts <;>
        simp [attrAnomalies, Call.rename, Anomaly.rename, hget, hints]
  simp only [callAnomalies, hshape, hattr, List.map_append, List.map_flatMap]

end Pass

/-! ## The run -/

namespace Pipeline

open Pass

variable {attributes : List String} {histogramField : String} {done : List NodeId}
  {s s' : Progress} {p : Pipeline}

/-- What a run has recorded and reported of renamed nodes is what the run over the nodes has
recorded and reported of them. -/
theorem Recorded.renamedBy (hf : g.Renames f g') (hdone : ∀ id ∈ done, g.Reachable id)
    (h : Recorded g attributes histogramField done s)
    (h' : Recorded g' attributes histogramField (done.map f) s') :
    s'.notes.store.entries = s.notes.store.entries.map (fun e => (f e.1, e.2)) ∧
      s'.notes.anomalies = s.notes.anomalies.map (Anomaly.rename f) := by
  have hcalls := hf.callsIn_map hdone
  constructor
  · refine DetailStore.entries_eq_map ?_ fun id hid field => ?_
    · rw [h'.nodes, h.nodes, hcalls, List.map_map, List.map_map]
      rfl
    · rw [h.nodes] at hid
      obtain ⟨⟨id, c⟩, hmem, rfl⟩ := List.mem_map.mp hid
      obtain ⟨k, hk⟩ := List.mem_iff_getElem?.mp hmem
      have hk' : (g'.callsIn (done.map f))[k]? = some (f id, c.rename f) := by
        rw [hcalls, List.getElem?_map, hk]
        rfl
      have hargs : ∀ arg ∈ c.args, g.Reachable arg := fun arg harg => by
        obtain ⟨hid, hcall⟩ := mem_callsIn_iff.mp hmem
        obtain ⟨n, hn, hc⟩ := Option.bind_eq_some_iff.mp hcall
        exact (hdone id hid).arg ⟨n, hn, by
          obtain ⟨label, kind⟩ := n
          cases kind <;> simp_all [Node.call?, Node.args]⟩
      rw [h.entries k id c hk, h'.entries k (f id) _ hk', entryField_rename hf hargs]
  · rw [h'.anomalies, h.anomalies, hcalls, List.flatMap_map, List.map_flatMap]
    simp only [callAnomalies_rename]

/-- A graph in which what the outputs of another reach is renamed has the renamed order of visits.
And whichever standard passes are accepted, with any attributes and any histogram, their run over it
is the run over the other graph with the nodes renamed: it succeeds if that does, with the same
recorded of the renamed nodes, the same summary and the same reported, and it fails if that does,
with the renamed error. -/
theorem run_renamed (hf : g.Renames f g') :
    g'.order = (g.order.map (List.map f)).mapError (GraphError.rename f) ∧
    ∀ attributes histogramField p, ofPasses (configured attributes histogramField) = .ok p →
      (∀ r, p.run g = .ok r → ∃ r', p.run g' = .ok r' ∧ r.RenamedBy f r') ∧
      ∀ e, p.run g = .error e → p.run g' = .error (e.rename f) := by
  refine ⟨hf.order_eq, fun attributes histogramField p hp => ?_⟩
  obtain ⟨s, hvisits, hrecorded⟩ := exists_recorded hp g
  obtain ⟨s', hvisits', hrecorded'⟩ := exists_recorded hp g'
  -- both runs record along their courses, and the second course is the renamed first one
  obtain ⟨hstate, herror⟩ := hf.course_eq
  rw [hstate] at hrecorded'
  have hrun := run_eq p g
  have hrun' := run_eq p g'
  rw [hvisits] at hrun
  rw [hvisits', herror] at hrun'
  cases he : g.course.error with
  | some e =>
    rw [he] at hrun hrun'
    refine ⟨fun r hr => ?_, fun e' he' => ?_⟩
    · rw [hrun] at hr
      cases hr
    · rw [hrun] at he'
      obtain rfl := Except.error.inj he'
      exact hrun'
  | none =>
    rw [he] at hrun hrun'
    have hconclude := hrun.trans hrecorded.conclude_eq
    have hconclude' := hrun'.trans hrecorded'.conclude_eq
    have horder : g.order = .ok g.course.state := Graph.order_eq_ok_iff.mpr ⟨he, rfl⟩
    have hreachable : ∀ id ∈ g.course.state, g.Reachable id :=
      fun id hid => ((Graph.mem_order_iff horder id).mp hid)
    obtain ⟨hentries, hanomalies⟩ := hrecorded.renamedBy hf hreachable hrecorded'
    refine ⟨fun r hr => ⟨_, hconclude', ?_⟩, fun e' he' => ?_⟩
    · obtain rfl := Except.ok.inj (hconclude.symm.trans hr)
      refine ⟨hf.name, hentries, ?_, hanomalies⟩
      simp only [hentries, List.filterMap_map, Function.comp_def]
    · rw [hconclude] at he'
      cases he'

/-- The next position. -/
def shift (id : NodeId) : NodeId := ⟨id.index + 1⟩

/-- The graph with one call, behind a node that nothing reaches and with other labels. -/
def shiftedPairCall : Graph where
  name := "pair"
  nodes := #[⟨⟨7⟩, .var "y" .parameter (.tensor [2])⟩,
    ⟨⟨7⟩, .var "x" .input (.tensor [1, 4])⟩,
    ⟨⟨0⟩, .call ((Call.plain "split" [⟨1⟩] (.named "Pair")).withAttr "strides" (.ints [2, 2]))⟩]
  outputs := [⟨2⟩]

theorem shiftedPairCall_renames : pairCall.Renames shift shiftedPairCall where
  name := rfl
  outputs := rfl
  injOn := by
    rintro ⟨i⟩ - ⟨j⟩ - h
    obtain rfl : i = j := Nat.succ.inj (congrArg NodeId.index h)
    rfl
  missing id _ hn := by
    have hsize := Array.getElem?_eq_none_iff.mp hn
    exact Array.getElem?_eq_none (Nat.succ_le_succ hsize)
  present id n _ hn := by
    obtain ⟨i⟩ := id
    match i with
    | 0 =>
      obtain rfl := Option.some.inj hn
      exact ⟨_, rfl, rfl⟩
    | 1 =>
      obtain rfl := Option.some.inj hn
      exact ⟨_, rfl, rfl⟩
    | i + 2 => cases hn

theorem run_renamed_pairCall :
    pairCall.Renames shift shiftedPairCall ∧
    shiftedPairCall.order = .ok [⟨1⟩, ⟨2⟩] ∧
    ∃ r r' : Analysis, (⟨configured ["strides"] FieldName.op⟩ : Pipeline).run pairCall = .ok r ∧
      (⟨configured ["strides"] FieldName.op⟩ : Pipeline).run shiftedPairCall = .ok r' ∧
      r.RenamedBy shift r' := by
  have hp : ofPasses (configured ["strides"] FieldName.op) =
      .ok ⟨configured ["strides"] FieldName.op⟩ := by cbv
  have horder : pairCall.order = .ok [⟨0⟩, ⟨1⟩] := by cbv
  obtain ⟨hrenamed, hrun⟩ := run_renamed shiftedPairCall_renames
  obtain ⟨s, hvisits, hrecorded⟩ := exists_recorded hp pairCall
  have hcourse := (Graph.order_eq_ok_iff.mp horder).2
  rw [hcourse] at hvisits
  have hr := (run_of_order horder hvisits).trans hrecorded.conclude_eq
  obtain ⟨r', hr', hsame⟩ := (hrun _ _ _ hp).1 _ hr
  exact ⟨shiftedPairCall_renames, by rw [hrenamed, horder]; rfl, _, r', hr, hr', hsame⟩

end Pipeline

end GraphSurvey
