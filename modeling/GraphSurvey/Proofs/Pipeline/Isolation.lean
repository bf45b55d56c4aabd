import GraphSurvey.Pass.Standard
import GraphSurvey.Proofs.Pipeline.Events
import Mathlib

/-!
# Fields do not depend on unrelated passes

Two pipelines run over the same graph, and every pass of the first is also one of the second. Then
the second does to the fields of the first what the first does: at every node the passes that both
have find the same, do the same and leave the same, whatever the other passes do between their
turns.

## Main definitions

* `GraphSurvey.AgreeOn` — the fields of passes hold the same.
* `GraphSurvey.Pipeline.Restricts` — what two runs have in common.

## Main results

* `GraphSurvey.CallVisit.Settles.restrict` — passes that settle a visit settle it without the
  others.
* `GraphSurvey.Pipeline.Restricts.of_watch` — two runs keep in common what they have in common.
* `GraphSurvey.Pipeline.run_isolated` — what a run records does not depend on unrelated passes.
-/

namespace GraphSurvey

/-- The fields of the passes hold the same in both views. -/
def AgreeOn (passes : List Pass) (view view' : View) : Prop :=
  ∀ pass ∈ passes, ∀ field, pass.access.Owns field → ∀ node, view node field = view' node field

/-! ## Visits without some of the passes -/

namespace CallVisit

variable {v : CallVisit} {before : View} {part whole : List Pass} {pass : Pass}

open Classical in
/-- The visit as it is for some of the passes, which begin it with other fields than theirs
perhaps changed. -/
noncomputable def restrict (v : CallVisit) (before : View) (part : List Pass) : CallVisit :=
  { v with
    before := before
    after := fun node field =>
      if ∃ pass ∈ part, pass.access.Owns field then v.after node field else before node field }

theorem restrict_after_of_owns {field : String} (hpass : pass ∈ part)
    (hown : pass.access.Owns field) (node : NodeId) :
    (v.restrict before part).after node field = v.after node field :=
  if_pos ⟨pass, hpass, hown⟩

/-- A pass whose fields hold the same before the visit, and which reads fields of the chosen passes
only, does the same in its turn. -/
theorem turn_restrict (hmet : Met part) (hbefore : AgreeOn part before v.before)
    (hpass : pass ∈ part) :
    (v.restrict before part).turn pass = v.turn pass := by
  refine Hook.effect_congr _ fun field hread node => ?_
  by_cases hown : pass.access.Owns field
  · rw [seen_of_owns hown, seen_of_owns hown]
    exact hbefore pass hpass field hown node
  · obtain ⟨owner, howner, hfield⟩ := hmet pass hpass field (hread.resolve_left hown)
    rw [seen_of_not_owns hown, seen_of_not_owns hown, restrict_after_of_owns howner hfield]

theorem statesAfter_restrict (hmet : Met part) (hbefore : AgreeOn part before v.before)
    (hpass : pass ∈ part) :
    (v.restrict before part).statesAfter pass = v.statesAfter pass := by
  rw [statesAfter, statesAfter, turn_restrict hmet hbefore hpass]
  rfl

/-- Passes that settle a visit together with others settle it without them. -/
theorem Settles.restrict (h : v.Settles whole) (hsub : part ⊆ whole) (hmet : Met part)
    (hbefore : AgreeOn part before v.before) :
    (v.restrict before part).Settles part where
  ok pass hpass := by
    rw [turn_restrict hmet hbefore hpass]
    exact h.ok pass (hsub hpass)
  own pass hpass field hown node := by
    rw [turn_restrict hmet hbefore hpass, restrict_after_of_owns hpass hown,
      h.own pass (hsub hpass) field hown node]
    exact View.recordAll_congr _ (hbefore pass hpass field hown node).symm
  foreign field hfield node := if_neg fun ⟨pass, hpass, hown⟩ => hfield pass hpass hown

end CallVisit

/-! ## Two runs -/

namespace Pipeline

open CallVisit

variable {part whole : List Pass} {g : Graph} {id : NodeId} {s t t' : Progress × List Event}

/-- What the runs of some passes and of more passes have in common: the passes are in the same
states, their fields hold the same, and they have raised the same anomalies. -/
structure Restricts (part whole : List Pass) (s t : Progress × List Event) : Prop where
  states : ∃ states, s.1.passes = part.map (Pass.running states) ∧
    t.1.passes = whole.map (Pass.running states)
  nodes : s.1.notes.store.nodes = t.1.notes.store.nodes
  fields : AgreeOn part s.1.notes.store.field? t.1.notes.store.field?
  /-- Passes are told apart by their positions, as several may have one name. -/
  raised : ∀ pass k k', part[k]? = some pass → whole[k']? = some pass →
    raisedBy k s.2 = raisedBy k' t.2

/-- What runs have in common before they visit a call they have in common after it. -/
theorem Restricts.of_watch_call {n : Node} {c : Call} (h : Restricts part whole s t)
    (hsub : part ⊆ whole) (hpart : InTurn part) (hmet : Met part) (hwhole : InTurn whole)
    (hn : g.node? id = some n) (hc : n.kind = .call c) (hwatch : watch g id t = (t', none)) :
    ∃ s', watch g id s = (s', none) ∧ Restricts part whole s' t' := by
  obtain ⟨states, hs, ht⟩ := h.states
  have hsettles := settles_of_watch hwhole hn hc ht hwatch
  generalize t'.1.notes.store.field? = after at hsettles
  let v : CallVisit := ⟨g, id, c, states, t.1.notes.store.field?, after⟩
  have hbefore : AgreeOn part s.1.notes.store.field? v.before := h.fields
  let w : CallVisit := v.restrict s.1.notes.store.field? part
  have hpartial : w.Settles part := Settles.restrict hsettles hsub hmet hbefore
  obtain ⟨store, hfield, hnodes, heq⟩ := hsettles.watch_eq hwhole hn hc ht rfl t.2
  obtain ⟨store', hfield', hnodes', heq'⟩ := hpartial.watch_eq hpart hn hc hs rfl s.2
  obtain rfl := congrArg Prod.fst (hwatch.symm.trans heq)
  refine ⟨_, heq', ⟨v.statesAfter, ?_, rfl⟩, ?_, ?_, ?_⟩
  · refine List.map_congr_left fun pass hpass => ?_
    rw [Pass.running, statesAfter_restrict hmet hbefore hpass]
    rfl
  · exact hnodes'.trans ((DetailStore.nodes_openEntry_congr h.nodes id).trans hnodes.symm)
  · intro pass hpass field hown node
    show store'.field? node field = store.field? node field
    rw [hfield', hfield]
    exact restrict_after_of_owns hpass hown node
  · intro pass k k' hk hk'
    have hpass : pass ∈ part := List.mem_of_getElem? hk
    rw [raisedBy_append, raisedBy_append, h.raised pass k k' hk hk', raisedBy_mapIdx _ _ hk,
      raisedBy_mapIdx _ _ hk', turn_restrict hmet hbefore hpass]

/-- What runs have in common before they visit a variable or a constant they have in common after
it. -/
theorem Restricts.of_watch_leaf {n : Node} (h : Restricts part whole s t)
    (hn : g.node? id = some n) (hleaf : ∀ c, n.kind ≠ .call c)
    (hwatch : watch g id t = (t', none)) :
    ∃ s', watch g id s = (s', none) ∧ Restricts part whole s' t' := by
  obtain ⟨states, hs, ht⟩ := h.states
  rw [watch_leaf hn hleaf, Prod.mk.injEq] at hwatch
  obtain ⟨rfl, -⟩ := hwatch
  refine ⟨_, watch_leaf hn hleaf s, ⟨fun pass => pass.onLeaf n (states pass), ?_, ?_⟩, h.nodes,
    h.fields, ?_⟩
  · rw [hs, visitLeaf, List.map_map]
    rfl
  · rw [ht, visitLeaf, List.map_map]
    rfl
  · intro pass k k' hk hk'
    simpa using h.raised pass k k' hk hk'

/-- What two runs have in common before they visit a node they have in common after it. -/
theorem Restricts.of_watch (h : Restricts part whole s t) (hsub : part ⊆ whole)
    (hpart : InTurn part) (hmet : Met part) (hwhole : InTurn whole)
    (hwatch : watch g id t = (t', none)) :
    ∃ s', watch g id s = (s', none) ∧ Restricts part whole s' t' := by
  obtain ⟨n, hn, ⟨c, hc⟩ | hleaf⟩ := exists_node_of_visit (visit_of_watch hwatch).1
  · exact h.of_watch_call hsub hpart hmet hwhole hn hc hwatch
  · exact h.of_watch_leaf hn hleaf hwatch

/-- Runs that have not begun have everything in common. -/
theorem restricts_start (p q : Pipeline) :
    Restricts p.passes q.passes (p.start, []) (q.start, []) where
  states := ⟨Pass.start, rfl, rfl⟩
  nodes := rfl
  fields _ _ _ _ _ := rfl
  raised _ _ _ _ _ := rfl

/-- A graph with a call that has no shape, as an argument of another. -/
def shapelessArgument : Graph where
  name := "shapeless"
  nodes := #[⟨⟨0⟩, .var "x" .input (.tensor [1, 4])⟩,
    ⟨⟨1⟩, .call (.plain "split" [⟨0⟩] (.named "Pair"))⟩,
    ⟨⟨2⟩, .call (.plain "add" [⟨0⟩, ⟨1⟩] (.tensor [1, 4]))⟩]
  outputs := [⟨2⟩]

/-- What a run does to the fields of some passes does not depend on the others: take two lists of
passes, each of the first also in the second, and runs of both over one graph. They have entries for
the same nodes in the same order, every field of a pass of the first list holds the same at every
node, or is at none, and every such pass raised the same anomalies in the same order. -/
theorem run_isolated {few all : List Pass} {p q : Pipeline} {g : Graph} {r r' : Analysis}
    (hp : ofPasses few = .ok p) (hq : ofPasses all = .ok q) (hsub : few ⊆ all)
    (hr : p.run g = .ok r) (hr' : q.run g = .ok r') :
    r.details.nodes = r'.details.nodes ∧
      (∀ pass ∈ few, ∀ decl ∈ pass.access.writes, ∀ node,
        r.details.field? node decl.name = r'.details.field? node decl.name) ∧
      (∀ pass k k', p.passes[k]? = some pass → q.passes[k']? = some pass →
        p.raised g k = q.raised g k') ∧
      r.anomalies = (p.events g).flatMap Event.raised ∧
      r'.anomalies = (q.events g).flatMap Event.raised := by
  obtain ⟨order, s, horder, hs, hdetails, -⟩ := exists_order_of_run hr
  obtain ⟨order', t, horder', ht, hdetails', -⟩ := exists_order_of_run hr'
  obtain rfl : order = order' := Except.ok.inj (horder.symm.trans horder')
  have hpasses : p.passes ⊆ q.passes := fun pass hpass =>
    (perm_passes hq).mem_iff.mpr (hsub ((perm_passes hp).mem_iff.mp hpass))
  have hstep : ∀ id t s t', Restricts p.passes q.passes s t → watch g id t = (t', none) →
      ∃ s', watch g id s = (s', none) ∧ Restricts p.passes q.passes s' t' :=
    fun id t s t' h hwatch =>
      h.of_watch hpasses (inTurn_passes hp) (met_passes hp) (inTurn_passes hq) hwatch
  obtain ⟨s', hs', hcommon⟩ := Walk.visitAll_rel (R := fun t s => Restricts p.passes q.passes s t)
    hstep (restricts_start p q) (visitAll_watch horder' ht)
  obtain rfl : (s, p.events g) = s' :=
    congrArg Prod.fst ((visitAll_watch horder hs).symm.trans hs')
  refine ⟨?_, ?_, hcommon.raised, anomalies_eq_events hr, anomalies_eq_events hr'⟩
  · rw [hdetails, hdetails']
    exact hcommon.nodes
  · intro pass hpass decl hdecl node
    rw [hdetails, hdetails']
    exact hcommon.fields pass ((perm_passes hp).mem_iff.mpr hpass) decl.name ⟨decl, hdecl, rfl⟩ node

theorem run_isolated_shapes :
    ∃ r r' : Analysis,
      (⟨[.outputShape, .inputShapes]⟩ : Pipeline).run shapelessArgument = .ok r ∧
        (⟨[.visitIndex, .outputShape, .inputShapes]⟩ : Pipeline).run shapelessArgument = .ok r' ∧
        r.details.nodes = r'.details.nodes ∧
        (⟨[.outputShape, .inputShapes]⟩ : Pipeline).raised shapelessArgument 0 =
          (⟨[.visitIndex, .outputShape, .inputShapes]⟩ : Pipeline).raised shapelessArgument 1 := by
  have hp : ofPasses [.inputShapes, .outputShape] = .ok ⟨[.outputShape, .inputShapes]⟩ := by cbv
  have hq : ofPasses [.visitIndex, .inputShapes, .outputShape] =
      .ok ⟨[.visitIndex, .outputShape, .inputShapes]⟩ := by cbv
  have hsub : [Pass.inputShapes, .outputShape] ⊆ [.visitIndex, .inputShapes, .outputShape] :=
    List.subset_cons_self _ _
  have hok : ((⟨[.outputShape, .inputShapes]⟩ : Pipeline).run shapelessArgument).isOk := by cbv
  have hok' : ((⟨[.visitIndex, .outputShape, .inputShapes]⟩ : Pipeline).run
      shapelessArgument).isOk := by cbv
  cases hr : (⟨[.outputShape, .inputShapes]⟩ : Pipeline).run shapelessArgument with
  | error e => rw [hr] at hok; cases hok
  | ok r =>
    cases hr' : (⟨[.visitIndex, .outputShape, .inputShapes]⟩ : Pipeline).run shapelessArgument with
    | error e => rw [hr'] at hok'; cases hok'
    | ok r' =>
      obtain ⟨hnodes, -, hraised, -⟩ := run_isolated hp hq hsub hr hr'
      exact ⟨r, r', rfl, rfl, hnodes, hraised .outputShape 0 1 rfl rfl⟩

end Pipeline

end GraphSurvey
