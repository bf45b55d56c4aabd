import GraphSurvey.Graph.Build
import Mathlib

/-!
# Graphs that grow

A graph grows at its end. A node that is added is labelled by its position and has only arguments
that were there before it, and the nodes that are there stay as they are. So the graphs that are
built are well-formed: every label is a position, and arguments stand before the calls that have
them.

## Main definitions

* `GraphSurvey.Graph.Extends` — a graph with more nodes.
* `GraphSurvey.Graph.WellFormed` — labels are positions, and arguments come first.
* `GraphSurvey.Graph.missing?` — the first position of a list that has no node.

## Main results

* `GraphSurvey.Graph.addNode_eq` — when a node is added, and when not.
* `GraphSurvey.Graph.WellFormed.push` — a node after its arguments keeps a graph well-formed.
* `GraphSurvey.Graph.WellFormed.checkIds` — the labels of a well-formed graph are found in order.
-/

namespace GraphSurvey

/-- The arguments of a node of the kind. Variables and constants have none. -/
def NodeKind.args : NodeKind → List NodeId
  | .call c => c.args
  | .var .. | .constant .. => []

theorem Node.args_eq (n : Node) : n.args = n.kind.args := by
  obtain ⟨id, kind⟩ := n
  cases kind <;> rfl

namespace Graph

variable {g : Graph} {id : NodeId} {kind : NodeKind} {n : Node}

/-! ## One more node -/

/-- The type that the node at a position tells. -/
def typeOf? (g : Graph) (id : NodeId) : Option ResultType := (g.node? id).map Node.declaredType

theorem node?_push (g : Graph) (kind : NodeKind) (id : NodeId) :
    (g.push kind).node? id = if id = g.nextId then some ⟨g.nextId, kind⟩ else g.node? id := by
  obtain ⟨i⟩ := id
  simp only [node?, push, nextId, Array.getElem?_push, NodeId.mk.injEq]

theorem node?_lt (h : g.node? id = some n) : id.index < g.nodes.size :=
  (Array.getElem?_eq_some_iff.mp h).1

theorem node?_eq_none_iff : g.node? id = none ↔ g.nodes.size ≤ id.index :=
  Array.getElem?_eq_none_iff

/-- The nodes of the first graph are in the second, where they were. -/
def Extends (g g' : Graph) : Prop := ∀ id n, g.node? id = some n → g'.node? id = some n

theorem Extends.refl (g : Graph) : g.Extends g := fun _ _ h => h

theorem Extends.trans {g' g'' : Graph} (h : g.Extends g') (h' : g'.Extends g'') : g.Extends g'' :=
  fun id n hn => h' id n (h id n hn)

/-- A node has the same type in a graph that extends its graph. -/
theorem Extends.typeOf? {g' : Graph} {ty : ResultType} (h : g.Extends g')
    (hty : g.typeOf? id = some ty) : g'.typeOf? id = some ty := by
  obtain ⟨n, hn, hdeclared⟩ := Option.map_eq_some_iff.mp hty
  rw [Graph.typeOf?, h id n hn, Option.map_some, hdeclared]

/-- The nodes stay where they are when another one is added. -/
theorem extends_push (g : Graph) (kind : NodeKind) : g.Extends (g.push kind) := by
  intro id n hn
  have hne : id ≠ g.nextId := fun heq => (node?_lt hn).ne (congrArg NodeId.index heq)
  rw [node?_push, if_neg hne, hn]

theorem mem_calls_iff {e : NodeId × Call} :
    e ∈ g.calls ↔ ∃ position, g.node? position = some ⟨e.1, .call e.2⟩ := by
  have hcall (n : Node) : n.call?.map (n.id, ·) = some e ↔ n = ⟨e.1, .call e.2⟩ := by
    obtain ⟨label, c⟩ := e
    obtain ⟨id, kind⟩ := n
    cases kind <;> simp [Node.call?]
  simp only [calls, List.mem_filterMap, hcall, exists_eq_right, Array.mem_toList_iff,
    Array.mem_iff_getElem?, node?]
  exact ⟨fun ⟨i, h⟩ => ⟨⟨i⟩, h⟩, fun ⟨id, h⟩ => ⟨id.index, h⟩⟩

/-! ## Missing nodes -/

/-- The first position of a list that has no node. -/
def missing? (g : Graph) (ids : List NodeId) : Option NodeId :=
  ids.find? fun a => g.nodes.size ≤ a.index

theorem missing?_eq_none_iff {ids : List NodeId} :
    g.missing? ids = none ↔ ∀ a ∈ ids, a.index < g.nodes.size := by
  simp only [missing?, List.find?_eq_none, decide_eq_true_eq, not_le]

theorem missing?_cons_of_lt {ids : List NodeId} (h : id.index < g.nodes.size) :
    g.missing? (id :: ids) = g.missing? ids :=
  List.find?_cons_of_neg (by simpa using h)

theorem missing?_cons_of_le {ids : List NodeId} (h : g.nodes.size ≤ id.index) :
    g.missing? (id :: ids) = some id :=
  List.find?_cons_of_pos (by simpa using h)

/-- A node is added unless an argument is missing. The first one that is missing is the error. -/
theorem addNode_eq (g : Graph) (kind : NodeKind) :
    g.addNode kind =
      match g.missing? kind.args with
      | some missing => .error (.nodeNotFound missing)
      | none => .ok (g.nextId, g.push kind) := by
  cases kind <;> rfl

/-! ## Well-formed graphs -/

/-- Every node is labelled by its position, and its arguments stand before it. -/
structure WellFormed (g : Graph) : Prop where
  label : ∀ id n, g.node? id = some n → n.id = id
  args_lt : ∀ id n, g.node? id = some n → ∀ a ∈ n.args, a.index < id.index

theorem wellFormed_empty (name : String) : (empty name).WellFormed where
  label _ _ h := by cases h
  args_lt _ _ h := by cases h

namespace WellFormed

/-- A node whose arguments are there is labelled by its position and stands after them. -/
theorem push (h : g.WellFormed) (hargs : ∀ a ∈ kind.args, a.index < g.nodes.size) :
    (g.push kind).WellFormed where
  label id n hn := by
    rw [node?_push] at hn
    split at hn
    case isTrue heq =>
      obtain rfl := Option.some.inj hn
      exact heq.symm
    case isFalse => exact h.label id n hn
  args_lt id n hn := by
    rw [node?_push] at hn
    split at hn
    case isTrue heq =>
      obtain rfl := Option.some.inj hn
      rw [Node.args_eq, heq]
      exact hargs
    case isFalse => exact h.args_lt id n hn

/-- Only the nodes of a graph count for its being well-formed. -/
theorem of_node?_eq {g' : Graph} (h : g.WellFormed) (heq : ∀ id, g'.node? id = g.node? id) :
    g'.WellFormed where
  label id n hn := h.label id n ((heq id).symm.trans hn)
  args_lt id n hn := h.args_lt id n ((heq id).symm.trans hn)

/-- The outputs of a graph have no part in its being well-formed. -/
theorem withOutputs (h : g.WellFormed) (outputs : List NodeId) :
    { g with outputs := outputs }.WellFormed :=
  h.of_node?_eq fun _ => rfl

/-- The labels of a well-formed graph are found in order. -/
theorem checkIds (h : g.WellFormed) : g.checkIds = .ok () := by
  have hnone : g.nodes.toList.zipIdx.find? (fun p => p.1.id.index ≠ p.2) = none := by
    rw [List.find?_eq_none]
    rintro ⟨n, i⟩ hmem
    have hn : g.node? ⟨i⟩ = some n := by
      rw [node?, ← Array.getElem?_toList]
      exact List.mem_zipIdx_iff_getElem?.mp hmem
    simp [h.label ⟨i⟩ n hn]
  rw [Graph.checkIds, hnone]

end WellFormed

end Graph

end GraphSurvey
