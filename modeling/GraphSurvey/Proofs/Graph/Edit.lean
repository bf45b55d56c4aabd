import GraphSurvey.Proofs.Walk.WellFormed

/-!
# Graphs that are edited

A graph is built by edits, each of which adds a node or sets the output. An edit that fails leaves
the graph as it is, and so whatever edits are made, in any order and with failing ones among them,
the graph stays well-formed and the nodes that are there stay as they are.

## Main definitions

* `GraphSurvey.Edit`, `GraphSurvey.Edit.run` — the edits and what they do.
* `GraphSurvey.Graph.edited` — a graph after a list of edits.

## Main results

* `GraphSurvey.Edit.run_cases` — everything that an edit can do.
* `GraphSurvey.Graph.WellFormed.edited` — edits keep a graph well-formed.
* `GraphSurvey.Graph.edited_empty_wellFormed` — what is true of every graph that is built by edits.
-/

namespace GraphSurvey

/-- What is done to a graph that is being built. -/
inductive Edit where
  | addNode (kind : NodeKind)
  | addCall (c : Call)
  | addVar (name : String) (role : VarRole) (ty : ResultType)
  | addConstant (name : String) (value : Literal)
  | setOutput (output : NodeId)

namespace Edit

/-- The kind of the node that the edit is to add. To set the output adds none. -/
def kind? : Edit → Option NodeKind
  | addNode kind => some kind
  | addCall c => some (.call c)
  | addVar name role ty => some (.var name role ty)
  | addConstant name value => some (.constant name value)
  | setOutput _ => none

/-- What is returned and which graph there is after a node was to be added to a graph. If that has
failed, the graph is the one before. -/
def settle (g : Graph) :
    Except GraphError (NodeId × Graph) → Except GraphError (Option NodeId) × Graph
  | .ok (id, g') => (.ok (some id), g')
  | .error e => (.error e, g)

/-- What the edit returns and the graph after it. -/
def run : Edit → Graph → Except GraphError (Option NodeId) × Graph
  | addNode kind, g => settle g (g.addNode kind)
  | addCall c, g => settle g (g.addCall c)
  | addVar name role ty, g => settle g (.ok (g.addVar name role ty))
  | addConstant name value, g => settle g (.ok (g.addConstant name value))
  | setOutput output, g => (.ok none, g.setOutput output)

/-- The edits that add a node do what adding a node of any kind does. -/
theorem run_eq_settle {e : Edit} {kind : NodeKind} (h : e.kind? = some kind) (g : Graph) :
    e.run g = settle g (g.addNode kind) := by
  cases e with
  | addNode | addCall | addVar | addConstant =>
    obtain rfl := Option.some.inj h
    rfl
  | setOutput => cases h

/-- An edit fails because an argument is missing and leaves the graph as it is, or it adds a node
after its arguments, or it sets the output. -/
theorem run_cases (e : Edit) (g : Graph) :
    (∃ kind missing, e.kind? = some kind ∧ g.missing? kind.args = some missing ∧
      e.run g = (.error (.nodeNotFound missing), g)) ∨
    (∃ kind, e.kind? = some kind ∧ g.missing? kind.args = none ∧
      e.run g = (.ok (some g.nextId), g.push kind)) ∨
    ∃ output, e.run g = (.ok none, g.setOutput output) := by
  cases hkind : e.kind? with
  | none =>
    cases e with
    | setOutput output => exact .inr (.inr ⟨output, rfl⟩)
    | _ => cases hkind
  | some kind =>
    rw [run_eq_settle hkind, Graph.addNode_eq]
    cases hmissing : g.missing? kind.args with
    | some missing => exact .inl ⟨kind, missing, rfl, hmissing, rfl⟩
    | none => exact .inr (.inl ⟨kind, rfl, hmissing, rfl⟩)

end Edit

namespace Graph

variable {g : Graph}

/-- An edit keeps a graph well-formed. -/
theorem WellFormed.edit (h : g.WellFormed) (e : Edit) : (e.run g).2.WellFormed := by
  rcases e.run_cases g with ⟨_, _, _, _, hrun⟩ | ⟨kind, _, hmissing, hrun⟩ | ⟨output, hrun⟩
  · rw [hrun]
    exact h
  · rw [hrun]
    exact h.push (missing?_eq_none_iff.mp hmissing)
  · rw [hrun]
    exact h.withOutputs [output]

/-- An edit leaves the nodes that are there as they are. -/
theorem extends_edit (g : Graph) (e : Edit) : g.Extends (e.run g).2 := by
  rcases e.run_cases g with ⟨_, _, _, _, hrun⟩ | ⟨kind, _, _, hrun⟩ | ⟨output, hrun⟩
  · rw [hrun]
    exact .refl g
  · rw [hrun]
    exact extends_push g kind
  · rw [hrun]
    exact .refl g

/-- The graph after a list of edits, failing ones among them. -/
def edited (g : Graph) (edits : List Edit) : Graph := edits.foldl (fun g e => (e.run g).2) g

/-- Edits keep a graph well-formed. -/
theorem WellFormed.edited (h : g.WellFormed) (edits : List Edit) : (g.edited edits).WellFormed := by
  induction edits generalizing g with
  | nil => exact h
  | cons e rest ih => exact ih (h.edit e)

/-- Edits leave the nodes that are there as they are. -/
theorem extends_edited (g : Graph) (edits : List Edit) : g.Extends (g.edited edits) := by
  induction edits generalizing g with
  | nil => exact .refl g
  | cons e rest ih => exact (extends_edit g e).trans (ih (e.run g).2)

/-- Whatever edits a graph is built by, every node is labelled by its position and stands after its
arguments, later edits leave it as it is, and an edit that fails, because of an argument that is not
in the graph, leaves the whole graph as it is. So the labels are in order, and with any outputs the
graph has no cycle and an order of its visits unless an output is missing, the first of which then
is the error. -/
theorem edited_empty_wellFormed (name : String) (edits : List Edit) :
    let g := (empty name).edited edits
    (∀ id n, g.node? id = some n → n.id = id ∧ ∀ a ∈ n.args, a.index < id.index) ∧
    (∀ later, g.Extends (g.edited later)) ∧
    (∀ (e : Edit) error g', e.run g = (.error error, g') → g' = g ∧
      ∃ kind missing, e.kind? = some kind ∧ g.missing? kind.args = some missing ∧
        error = .nodeNotFound missing) ∧
    g.checkIds = .ok () ∧
    ∀ outputs,
      let h : Graph := { g with outputs := outputs }
      (∀ id, h.order ≠ .error (.cycle id)) ∧
      ((∃ visits, h.order = .ok visits) ↔ ∀ output ∈ outputs, output.index < g.nodes.size) ∧
      ∀ e, h.order = .error e ↔
        ∃ missing, g.missing? outputs = some missing ∧ .nodeNotFound missing = e := by
  intro g
  have hg : g.WellFormed := (wellFormed_empty name).edited edits
  refine ⟨fun id n hn => ⟨hg.label id n hn, hg.args_lt id n hn⟩, extends_edited g, ?_, hg.checkIds,
    fun outputs => ?_⟩
  · intro e error g' hrun
    rcases e.run_cases g with ⟨kind, missing, hkind, hmissing, h⟩ | ⟨_, _, _, h⟩ | ⟨_, h⟩
    · obtain ⟨herror, rfl⟩ := Prod.mk.inj (h.symm.trans hrun)
      exact ⟨rfl, kind, missing, hkind, hmissing, (Except.error.inj herror).symm⟩
    · cases (Prod.mk.inj (h.symm.trans hrun)).1
    · cases (Prod.mk.inj (h.symm.trans hrun)).1
  · have hh := hg.withOutputs outputs
    refine ⟨fun id hcycle => ?_, hh.exists_order_iff, fun e => hh.order_eq_error_iff⟩
    obtain ⟨missing, -, heq⟩ := hh.order_eq_error_iff.mp hcycle
    cases heq

end Graph

end GraphSurvey
