import GraphSurvey.Graph.Basic

/-!
# Walking a graph

A walk visits the nodes that the outputs of a graph reach through arguments. The arguments of a node
are visited before it, from left to right, and every node is visited once however many consumers it
has. The walk stops at a position without a node, at a node that is reachable from its own
arguments, and at the first visit that fails.

The walk keeps a stack of steps instead of recursing. A node is entered, which puts its arguments on
the stack, and left, which visits it; between the two it is on the path. A node is entered only if
it was neither visited nor is on the path, so every step leaves fewer nodes to be entered, or as
many nodes and a shorter stack.

## Main definitions

* `GraphSurvey.Walk.advance` — the walk until the stack is empty.
* `GraphSurvey.Graph.walk` — the walk from all outputs.
* `GraphSurvey.Graph.order` — the nodes in the order of their visits.
-/

namespace GraphSurvey

universe u v

namespace Walk

/-- A step that is still to be done. -/
inductive Step where
  | enter (id : NodeId)
  | leave (id : NodeId)
  deriving DecidableEq, Repr

/-- The nodes that were visited and those on the path. -/
structure Trail where
  visited : List NodeId
  onPath : List NodeId
  deriving DecidableEq, Repr

namespace Trail

/-- The start of a walk. -/
def start : Trail := ⟨[], []⟩

/-- The trail after a node is entered. -/
def enter (t : Trail) (id : NodeId) : Trail := { t with onPath := id :: t.onPath }

/-- The trail after a node is left. -/
def leave (t : Trail) (id : NodeId) : Trail := ⟨id :: t.visited, t.onPath.erase id⟩

/-- The node may still be entered. -/
def isNew (t : Trail) (id : NodeId) : Bool := id ∉ t.visited && id ∉ t.onPath

/-- The number of nodes of the graph that may still be entered. -/
def countNew (g : Graph) (t : Trail) : Nat :=
  (List.range g.nodes.size).countP fun i => t.isNew ⟨i⟩

end Trail

/-- A visitor: what becomes of its state at a node, and whether the visit fails. -/
abbrev Visitor (σ : Type u) (ε : Type v) := NodeId → σ → σ × Option ε

/-- The visitor that keeps the nodes in the order of its visits. -/
def keepVisits : Visitor (List NodeId) GraphError := fun id visits => (visits ++ [id], none)

/-- Where a walk ended. -/
structure Outcome (σ : Type u) (ε : Type v) where
  trail : Trail
  state : σ
  error : Option ε

/-- The steps into a node: into its arguments that were not visited, then out of the node. -/
def stepsInto (t : Trail) (id : NodeId) (n : Node) : List Step :=
  (n.args.filter (· ∉ t.visited)).map .enter ++ [.leave id]

/-! ## Fewer nodes to enter -/

private theorem countP_lt_countP {p q : Nat → Bool} {l : List Nat} {i : Nat}
    (hle : ∀ j ∈ l, q j = true → p j = true) (hi : i ∈ l) (hp : p i = true) (hq : q i = false) :
    l.countP q < l.countP p := by
  induction l with
  | nil => cases hi
  | cons j rest ih =>
    have hrest : rest.countP q ≤ rest.countP p :=
      List.countP_mono_left fun k hk => hle k (List.mem_cons_of_mem _ hk)
    rcases List.mem_cons.mp hi with rfl | hi
    · simp only [List.countP_cons, hp, hq]
      simp only [Bool.false_eq_true, if_false, if_true]
      omega
    · have hrest := ih (fun k hk => hle k (List.mem_cons_of_mem _ hk)) hi
      have hj := hle j List.mem_cons_self
      simp only [List.countP_cons]
      cases hqj : q j with
      | false => simp only [Bool.false_eq_true, if_false]; split <;> omega
      | true => simp only [hj hqj, if_true]; omega

theorem countNew_enter_lt {g : Graph} {t : Trail} {id : NodeId} {n : Node}
    (hv : id ∉ t.visited) (hp : id ∉ t.onPath) (hn : g.node? id = some n) :
    (t.enter id).countNew g < t.countNew g := by
  have hid : id.index < g.nodes.size := by
    simp only [Graph.node?] at hn
    exact (Array.getElem?_eq_some_iff.mp hn).1
  refine countP_lt_countP (i := id.index) (fun j _ => ?_) (List.mem_range.mpr hid) ?_ ?_
  · simp only [Trail.isNew, Trail.enter, List.mem_cons]
    grind
  · simp [Trail.isNew, hv, hp]
  · simp [Trail.isNew, Trail.enter]

theorem countNew_leave_le (g : Graph) (t : Trail) (id : NodeId) :
    (t.leave id).countNew g ≤ t.countNew g := by
  refine List.countP_mono_left fun j _ => ?_
  simp only [Trail.isNew, Trail.leave, List.mem_cons]
  have := @List.mem_erase_of_ne NodeId _ _ ⟨j⟩ id t.onPath
  grind

/-! ## The walk -/

variable {σ : Type u} {ε : Type v}

/-- Does the steps on the stack. An error of the graph is turned into one of the visitor. -/
def advance (g : Graph) (ofGraph : GraphError → ε) (visit : Visitor σ ε) :
    List Step → Trail → σ → Outcome σ ε
  | [], t, s => ⟨t, s, none⟩
  | .enter id :: rest, t, s =>
    if id ∈ t.visited then advance g ofGraph visit rest t s
    else if id ∈ t.onPath then ⟨t, s, some (ofGraph (.cycle id))⟩
    else match _hn : g.node? id with
      | none => ⟨t, s, some (ofGraph (.nodeNotFound id))⟩
      | some n => advance g ofGraph visit (stepsInto t id n ++ rest) (t.enter id) s
  | .leave id :: rest, t, s =>
    if id ∈ t.visited then advance g ofGraph visit rest (t.leave id) s
    else match visit id s with
      | (s, none) => advance g ofGraph visit rest (t.leave id) s
      | (s, some e) => ⟨t.leave id, s, some e⟩
termination_by stack t => (t.countNew g, stack.length)
decreasing_by
  · exact Prod.Lex.right _ (Nat.lt_succ_self _)
  · exact Prod.Lex.left _ _ (countNew_enter_lt ‹_› ‹_› _hn)
  all_goals
    rcases Nat.lt_or_eq_of_le (countNew_leave_le g t id) with h | h
    · exact Prod.Lex.left _ _ h
    · rw [h]; exact Prod.Lex.right _ (Nat.lt_succ_self _)

/-- Walks from one output after the other, each time on the trail of those before it. -/
def fromOutputs (g : Graph) (ofGraph : GraphError → ε) (visit : Visitor σ ε) :
    List NodeId → Trail → σ → Outcome σ ε
  | [], t, s => ⟨t, s, none⟩
  | output :: rest, t, s =>
    match advance g ofGraph visit [.enter output] t s with
    | ⟨t, s, none⟩ => fromOutputs g ofGraph visit rest t s
    | failed => failed

end Walk

namespace Graph

variable {σ : Type u} {ε : Type v}

/-- Walks the graph from its outputs in their order. -/
def walk (g : Graph) (ofGraph : GraphError → ε) (visit : Walk.Visitor σ ε) (s : σ) :
    Walk.Outcome σ ε :=
  Walk.fromOutputs g ofGraph visit g.outputs .start s

/-- The nodes in the order of their visits. -/
def order (g : Graph) : Except GraphError (List NodeId) :=
  match g.walk id Walk.keepVisits [] with
  | ⟨_, visits, none⟩ => .ok visits
  | ⟨_, _, some e⟩ => .error e

end Graph

end GraphSurvey
