import GraphSurvey.Proofs.Walk.Order
import GraphSurvey.Proofs.Walk.Recursion
import Mathlib

/-!
# Walks of renamed graphs

A walk sees nothing of a graph but what its outputs reach. Where the nodes stand in the array, how
they are labelled and what else is in the array makes no difference: if the positions that the
outputs of a graph reach are given new names, no two the same, then the walk of the graph with the
new names visits the renamed nodes in the same order, and ends with the renamed error, if with any.

## Main definitions

* `GraphSurvey.Graph.Renames` — what the outputs of a graph reach is renamed in another graph.
* `GraphSurvey.GraphError.rename` — the error about the renamed node.

## Main results

* `GraphSurvey.Walk.descend_renamed` — the recursion over a renamed graph.
* `GraphSurvey.Graph.Renames.order_eq` — the order of the visits of a renamed graph.
-/

namespace GraphSurvey

/-! ## Renamed graphs -/

section Rename

variable (f : NodeId → NodeId)

/-- The call with renamed arguments. -/
def Call.rename (c : Call) : Call := { c with args := c.args.map f }

/-- The kind of a node with renamed arguments. -/
def NodeKind.rename : NodeKind → NodeKind
  | .call c => .call (c.rename f)
  | .var name role ty => .var name role ty
  | .constant name value => .constant name value

/-- The error about the renamed node. The label of a node is not a name of it. -/
def GraphError.rename : GraphError → GraphError
  | .nodeNotFound id => .nodeNotFound (f id)
  | .cycle id => .cycle (f id)
  | .misplacedNode position id => .misplacedNode position id

/-- What the outputs of the first graph reach is renamed in the second. The labels of the nodes,
their positions and the nodes that are not reached may be anything. -/
structure Graph.Renames (g g' : Graph) : Prop where
  name : g'.name = g.name
  outputs : g'.outputs = g.outputs.map f
  injOn : Set.InjOn f {id | g.Reachable id}
  missing : ∀ id, g.Reachable id → g.node? id = none → g'.node? (f id) = none
  present : ∀ id n, g.Reachable id → g.node? id = some n →
    ∃ n', g'.node? (f id) = some n' ∧ n'.kind = n.kind.rename f

end Rename

variable {f : NodeId → NodeId} {g g' : Graph}

/-- The arguments of a node of a renamed graph are the renamed arguments. -/
theorem Node.args_of_rename {n n' : Node} (h : n'.kind = n.kind.rename f) :
    n'.args = n.args.map f := by
  rw [Node.args, Node.args, h]
  cases n.kind <;> rfl

namespace Graph.Renames

/-- A renamed position is in a renamed list if the position is in the list. -/
theorem mem_map_iff (hf : g.Renames f g') {l : List NodeId} (hl : ∀ id ∈ l, g.Reachable id)
    {id : NodeId} (hid : g.Reachable id) : f id ∈ l.map f ↔ id ∈ l := by
  constructor
  · intro h
    obtain ⟨other, hmem, heq⟩ := List.mem_map.mp h
    obtain rfl := hf.injOn (hl other hmem) hid heq
    exact hmem
  · exact List.mem_map_of_mem

end Graph.Renames

namespace Walk

/-! ## The recursion over a renamed graph -/

/-- Where a recursion ended, renamed. -/
def Descent.rename (f : NodeId → NodeId) (d : Descent (List NodeId) GraphError) :
    Descent (List NodeId) GraphError :=
  ⟨d.visited.map f, d.state.map f, d.error.map (GraphError.rename f)⟩

/-- Two recursions end in the same way up to names, and the first one has visited nothing but what
the outputs reach. -/
structure Descent.Corresponds (f : NodeId → NodeId) (g : Graph)
    (d d' : Descent (List NodeId) GraphError) : Prop where
  eq : d' = d.rename f
  reachable : ∀ p ∈ d.visited, g.Reachable p

/-- If a recursion corresponds for every node that is reached, so does the one over a list. -/
theorem descendAll_renamed {path : List NodeId}
    (h : ∀ p visited visits, g.Reachable p → (∀ q ∈ visited, g.Reachable q) →
      (descend g id keepVisits path p visited visits).Corresponds f g
        (descend g' id keepVisits (path.map f) (f p) (visited.map f) (visits.map f)))
    (ids : List NodeId) {visited : List NodeId} (visits : List NodeId)
    (hids : ∀ p ∈ ids, g.Reachable p) (hvisited : ∀ p ∈ visited, g.Reachable p) :
    (descendAll g id keepVisits path ids visited visits).Corresponds f g
      (descendAll g' id keepVisits (path.map f) (ids.map f) (visited.map f) (visits.map f)) := by
  induction ids generalizing visited visits with
  | nil =>
    rw [List.map_nil, descendAll_nil, descendAll_nil]
    exact ⟨rfl, hvisited⟩
  | cons p rest ih =>
    obtain ⟨hp, hrest⟩ := List.forall_mem_cons.mp hids
    have hfirst := h p visited visits hp hvisited
    rw [List.map_cons]
    cases hd : descend g id keepVisits path p visited visits with
    | mk visited' visits' failure =>
      rw [hd] at hfirst
      cases failure with
      | none =>
        rw [descendAll_cons hd, descendAll_cons hfirst.eq]
        exact ih visits' hrest hfirst.reachable
      | some e =>
        rw [descendAll_cons_of_failed hd, descendAll_cons_of_failed hfirst.eq]
        exact ⟨rfl, hfirst.reachable⟩

/-- The recursion from a node that is reached corresponds in a renamed graph. -/
theorem descend_renamed (hf : g.Renames f g') {path visited : List NodeId} {p : NodeId}
    (visits : List NodeId) (hpath : ∀ q ∈ path, g.Reachable q) (hp : g.Reachable p)
    (hvisited : ∀ q ∈ visited, g.Reachable q) :
    (descend g id keepVisits path p visited visits).Corresponds f g
      (descend g' id keepVisits (path.map f) (f p) (visited.map f) (visits.map f)) := by
  induction path using induction_on_path (g := g) generalizing p visited visits with
  | step path ih =>
  -- all of these are reached, where no two have the same name, so both recursions decide alike
  have hvisited_iff := hf.mem_map_iff hvisited hp
  have hpath_iff := hf.mem_map_iff hpath hp
  by_cases hv : p ∈ visited
  · rw [descend_of_visited hv, descend_of_visited (hvisited_iff.mpr hv)]
    exact ⟨rfl, hvisited⟩
  have hv' := mt hvisited_iff.mp hv
  by_cases hon : p ∈ path
  · rw [descend_of_onPath hv hon, descend_of_onPath hv' (hpath_iff.mpr hon)]
    exact ⟨rfl, hvisited⟩
  have hon' := mt hpath_iff.mp hon
  cases hn : g.node? p with
  | none =>
    rw [descend_of_missing hv hon hn, descend_of_missing hv' hon' (hf.missing p hp hn)]
    exact ⟨rfl, hvisited⟩
  | some n =>
    obtain ⟨n', hn', hkind⟩ := hf.present p n hp hn
    have hargs : ∀ q ∈ n.args, g.Reachable q := fun q hq => hp.arg ⟨n, hn, hq⟩
    have hbelow : ∀ q ∈ p :: path, g.Reachable q := List.forall_mem_cons.mpr ⟨hp, hpath⟩
    have hall := descendAll_renamed
      (fun q visited visits hq hvisited => ih p n hon hn visits hbelow hq hvisited) n.args visits
      hargs hvisited
    rw [← Node.args_of_rename hkind, List.map_cons] at hall
    cases hd : descendAll g id keepVisits (p :: path) n.args visited visits with
    | mk visited' visits' failure =>
      rw [hd] at hall
      cases failure with
      | none =>
        rw [descend_of_args hv hon hn hd, descend_of_args hv' hon' hn' hall.eq]
        refine ⟨?_, List.forall_mem_cons.mpr ⟨hp, hall.reachable⟩⟩
        simp only [keepVisits, Descent.rename, List.map_cons, List.map_append, List.map_nil,
          Option.map_none]
      | some e =>
        rw [descend_of_failed hv hon hn hd, descend_of_failed hv' hon' hn' hall.eq]
        exact ⟨rfl, hall.reachable⟩

end Walk

/-! ## The order of a renamed graph -/

namespace Graph

/-- The course of a renamed graph is the renamed course. -/
theorem Renames.course_eq (hf : g.Renames f g') :
    g'.course.state = g.course.state.map f ∧
      g'.course.error = g.course.error.map (GraphError.rename f) := by
  have houtputs : ∀ p ∈ g.outputs, g.Reachable p :=
    fun p hp => ⟨p, hp, Relation.ReflTransGen.refl⟩
  have hnone : ∀ p ∈ ([] : List NodeId), g.Reachable p := nofun
  have hall := (Walk.descendAll_renamed
    (fun _ _ visits hp hvisited => Walk.descend_renamed hf visits hnone hp hvisited) g.outputs []
    houtputs hnone).eq
  rw [← hf.outputs] at hall
  obtain ⟨hstate, herror⟩ := g.course_eq_descendAll
  obtain ⟨hstate', herror'⟩ := g'.course_eq_descendAll
  rw [hstate, herror, hstate', herror']
  exact ⟨congrArg Walk.Descent.state hall, congrArg Walk.Descent.error hall⟩

/-- The order of the visits of a renamed graph is the renamed order, or its error the renamed
error. -/
theorem Renames.order_eq (hf : g.Renames f g') :
    g'.order = (g.order.map (List.map f)).mapError (GraphError.rename f) := by
  obtain ⟨hstate, herror⟩ := hf.course_eq
  cases horder : g.order with
  | ok visits =>
    obtain ⟨hnone, rfl⟩ := order_eq_ok_iff.mp horder
    exact order_eq_ok_iff.mpr ⟨by rw [herror, hnone]; rfl, hstate⟩
  | error e =>
    exact order_eq_error_iff.mpr (by rw [herror, order_eq_error_iff.mp horder]; rfl)

end Graph

end GraphSurvey
