import GraphSurvey.Proofs.Walk.Order
import Mathlib

/-!
# The moves of a walk

A walk goes from one moment to the next by doing the step on top of its stack, or by turning to the
next output once the stack is empty. The nodes on the path are at every moment those that are still
to be left, each of them once. A node comes onto the path only if it is neither on it nor visited,
and goes from it by being visited. So no node is entered twice or visited twice, whatever the graph
looks like and however often the node is an argument or an output.

So the walk ends on every graph. A move may put any number of steps on the stack, but they are steps
into a node that was not entered before, at most one for each of its arguments and one out of it.
The potential of a moment counts these in advance for every node that may still be entered, and
every move lowers it.

## Main definitions

* `GraphSurvey.Walk.Moment`, `GraphSurvey.Walk.Move` — a walk between two moves, and what a move
  does.
* `GraphSurvey.Walk.Run` — the moments of the walk of a graph.
* `GraphSurvey.Walk.Moment.Tracked` — what every move keeps.
* `GraphSurvey.Walk.Moment.potential`, `GraphSurvey.Graph.walkBound` — what every move lowers, and
  where it starts.

## Main results

* `GraphSurvey.Walk.Run.add_potential_le` — the moves that were made and the potential that is left.
* `GraphSurvey.Graph.walk_ends` — a walk ends, and enters and visits every node at most once.
-/

namespace GraphSurvey

universe u v

variable {σ : Type u} {ε : Type v}

namespace Walk

/-! ## Moments and moves -/

/-- A walk between two moves, with a record of the nodes that it entered and visited, the latest
first. -/
structure Moment (σ : Type u) (ε : Type v) where
  /-- The outputs that the walk has not turned to. -/
  outputs : List NodeId
  stack : List Step
  trail : Trail
  state : σ
  error : Option ε
  /-- The nodes that were neither visited nor on the path when it was their turn to be entered. -/
  entered : List NodeId
  /-- The nodes that the visitor was called for. -/
  visits : List NodeId

namespace Moment

/-- The moment before the first move. -/
def start (g : Graph) (s : σ) : Moment σ ε := ⟨g.outputs, [], .start, s, none, [], []⟩

/-- The step is the one to be done, and the others come after it. -/
structure IsNext (m : Moment σ ε) (step : Step) (rest : List Step) : Prop where
  error : m.error = none
  stack : m.stack = step :: rest

/-- There is an error, or there is nothing left to be done. -/
def IsOver (m : Moment σ ε) : Prop := m.error = none → m.outputs = [] ∧ m.stack = []

end Moment

/-- What a walk does in one move. An argument may stand anywhere in the graph or outside it, and
nodes may be each other's arguments or their own. -/
inductive Move (g : Graph) (ofGraph : GraphError → ε) (visit : Visitor σ ε) :
    Moment σ ε → Moment σ ε → Prop
  /-- When the stack is empty, the walk turns to the next output. -/
  | output {m : Moment σ ε} {output : NodeId} {outputs : List NodeId} (herror : m.error = none)
      (hstack : m.stack = []) (houtputs : m.outputs = output :: outputs) :
      Move g ofGraph visit m { m with outputs := outputs, stack := [.enter output] }
  /-- A node that was visited is passed over. -/
  | passOver {m : Moment σ ε} {id : NodeId} {rest : List Step} (h : m.IsNext (.enter id) rest)
      (hv : id ∈ m.trail.visited) : Move g ofGraph visit m { m with stack := rest }
  /-- A node on the path is the end of the walk. -/
  | cycle {m : Moment σ ε} {id : NodeId} {rest : List Step} (h : m.IsNext (.enter id) rest)
      (hv : id ∉ m.trail.visited) (hp : id ∈ m.trail.onPath) :
      Move g ofGraph visit m { m with stack := rest, error := some (ofGraph (.cycle id)) }
  /-- A position without a node is found to be so when it is already on the path. -/
  | missing {m : Moment σ ε} {id : NodeId} {rest : List Step} (h : m.IsNext (.enter id) rest)
      (hv : id ∉ m.trail.visited) (hp : id ∉ m.trail.onPath) (hn : g.node? id = none) :
      Move g ofGraph visit m
        { m with
          stack := .leave id :: rest, trail := m.trail.enter id, entered := id :: m.entered,
          error := some (ofGraph (.nodeNotFound id)) }
  /-- Any other node comes onto the path, and the steps into it onto the stack. -/
  | enter {m : Moment σ ε} {id : NodeId} {rest : List Step} {n : Node}
      (h : m.IsNext (.enter id) rest) (hv : id ∉ m.trail.visited) (hp : id ∉ m.trail.onPath)
      (hn : g.node? id = some n) :
      Move g ofGraph visit m
        { m with
          stack := stepsInto m.trail id n ++ rest, trail := m.trail.enter id,
          entered := id :: m.entered }
  /-- A node that is left after it was visited is not visited again. -/
  | again {m : Moment σ ε} {id : NodeId} {rest : List Step} (h : m.IsNext (.leave id) rest)
      (hv : id ∈ m.trail.visited) :
      Move g ofGraph visit m { m with stack := rest, trail := m.trail.leave id }
  /-- A node is visited when it is left, and the visit may fail. -/
  | leave {m : Moment σ ε} {id : NodeId} {rest : List Step} (h : m.IsNext (.leave id) rest)
      (hv : id ∉ m.trail.visited) :
      Move g ofGraph visit m
        { m with
          stack := rest, trail := m.trail.leave id, state := (visit id m.state).1,
          error := (visit id m.state).2, visits := id :: m.visits }

/-- The walk of a graph comes to the moment after a number of moves. -/
inductive Run (g : Graph) (ofGraph : GraphError → ε) (visit : Visitor σ ε) (s : σ) :
    Nat → Moment σ ε → Prop
  | start : Run g ofGraph visit s 0 (.start g s)
  | move {k : Nat} {m m' : Moment σ ε} (h : Run g ofGraph visit s k m)
      (hmove : Move g ofGraph visit m m') : Run g ofGraph visit s (k + 1) m'

section Moves

variable {g : Graph} {ofGraph : GraphError → ε} {visit : Visitor σ ε} {m m' : Moment σ ε} {s : σ}

/-- The walk goes on until it is over. -/
theorem exists_move (h : ¬ m.IsOver) : ∃ m', Move g ofGraph visit m m' := by
  obtain ⟨herror, hleft⟩ := Classical.not_imp.mp h
  cases hstack : m.stack with
  | nil =>
    cases houtputs : m.outputs with
    | nil => exact absurd ⟨houtputs, hstack⟩ hleft
    | cons output outputs => exact ⟨_, .output herror hstack houtputs⟩
  | cons step rest =>
    cases step with
    | enter id =>
      by_cases hv : id ∈ m.trail.visited
      · exact ⟨_, .passOver ⟨herror, hstack⟩ hv⟩
      by_cases hp : id ∈ m.trail.onPath
      · exact ⟨_, .cycle ⟨herror, hstack⟩ hv hp⟩
      cases hn : g.node? id with
      | none => exact ⟨_, .missing ⟨herror, hstack⟩ hv hp hn⟩
      | some n => exact ⟨_, .enter ⟨herror, hstack⟩ hv hp hn⟩
    | leave id =>
      by_cases hv : id ∈ m.trail.visited
      · exact ⟨_, .again ⟨herror, hstack⟩ hv⟩
      · exact ⟨_, .leave ⟨herror, hstack⟩ hv⟩

/-! ## What every move keeps -/

theorem pending_stepsInto (t : Trail) (id : NodeId) (n : Node) (rest : List Step) :
    pending (stepsInto t id n ++ rest) = id :: pending rest := by
  rw [stepsInto, List.append_assoc, pending_enters]
  rfl

/-- The stack, the trail and the record of a moment fit together. -/
structure Moment.Tracked (m : Moment σ ε) : Prop where
  /-- The nodes on the path are those that are still to be left. -/
  pending_eq : pending m.stack = m.trail.onPath
  /-- No node is on the path twice, or on the path and visited, or visited twice. -/
  nodup : (m.trail.onPath ++ m.trail.visited).Nodup
  visits_eq : m.visits = m.trail.visited
  /-- A node that was entered is on the path until it is visited. -/
  entered_perm : m.entered.Perm (m.trail.onPath ++ m.trail.visited)

namespace Moment.Tracked

theorem start (g : Graph) (s : σ) : (Moment.start g s : Moment σ ε).Tracked where
  pending_eq := rfl
  nodup := List.nodup_nil
  visits_eq := rfl
  entered_perm := .refl _

/-- Steps into nodes make no difference, nor does what the walk turns to after them. -/
theorem keep {outputs : List NodeId} {stack : List Step} {error : Option ε} (ht : m.Tracked)
    (hstack : pending stack = pending m.stack) :
    Moment.Tracked { m with outputs, stack, error } :=
  ⟨hstack.trans ht.pending_eq, ht.nodup, ht.visits_eq, ht.entered_perm⟩

/-- A node comes onto the path with the step out of it. -/
theorem enter {id : NodeId} {rest stack : List Step} {error : Option ε} (ht : m.Tracked)
    (h : m.IsNext (.enter id) rest) (hv : id ∉ m.trail.visited) (hp : id ∉ m.trail.onPath)
    (hstack : pending stack = id :: pending rest) :
    Moment.Tracked
      { m with stack, trail := m.trail.enter id, entered := id :: m.entered, error } where
  pending_eq := by
    have hpending := ht.pending_eq
    rw [h.stack] at hpending
    exact hstack.trans (congrArg (id :: ·) hpending)
  nodup := List.nodup_cons.mpr
    ⟨fun hmem => (List.mem_append.mp hmem).elim hp hv, ht.nodup⟩
  visits_eq := ht.visits_eq
  entered_perm := ht.entered_perm.cons id

/-- The node that is left is the latest on the path. -/
theorem onPath_eq {id : NodeId} {rest : List Step} (ht : m.Tracked)
    (h : m.IsNext (.leave id) rest) : m.trail.onPath = id :: pending rest := by
  rw [← ht.pending_eq, h.stack]
  rfl

theorem leave {id : NodeId} {rest : List Step} {state : σ} {error : Option ε} (ht : m.Tracked)
    (h : m.IsNext (.leave id) rest) :
    Moment.Tracked
      { m with
        stack := rest, trail := m.trail.leave id, state, error, visits := id :: m.visits } := by
  have hpath := ht.onPath_eq h
  have hnodup := ht.nodup
  have hentered := ht.entered_perm
  rw [hpath, List.cons_append] at hnodup hentered
  rw [leave_of_onPath_eq hpath]
  exact ⟨rfl, List.nodup_middle.mpr hnodup, congrArg (id :: ·) ht.visits_eq,
    hentered.trans List.perm_middle.symm⟩

theorem move (ht : m.Tracked) (h : Move g ofGraph visit m m') : m'.Tracked := by
  cases h with
  | output herror hstack houtputs => exact ht.keep (by rw [hstack]; rfl)
  | passOver h hv => exact ht.keep (by rw [h.stack]; rfl)
  | cycle h hv hp => exact ht.keep (by rw [h.stack]; rfl)
  | missing h hv hp hn => exact ht.enter h hv hp rfl
  | enter h hv hp hn => exact ht.enter h hv hp (pending_stepsInto _ _ _ _)
  | again h hv =>
    -- a node that is still to be left is on the path, and so was not visited
    have hnodup := ht.nodup
    rw [ht.onPath_eq h, List.cons_append, List.nodup_cons] at hnodup
    exact absurd (List.mem_append_right _ hv) hnodup.1
  | leave h hv => exact ht.leave h

theorem run {k : Nat} (h : Run g ofGraph visit s k m) : m.Tracked := by
  induction h with
  | start => exact start g s
  | move h hmove ih => exact ih.move hmove

end Moment.Tracked

/-! ## What every move lowers -/

/-- The nodes of the graph that may still be entered. -/
def Trail.newNodes (g : Graph) (t : Trail) : Finset (Fin g.nodes.size) :=
  Finset.univ.filter fun i => t.isNew ⟨i⟩

/-- The steps into the nodes that may still be entered, if none of their arguments is left out. -/
def Trail.stepsLeft (g : Graph) (t : Trail) : Nat :=
  ∑ i ∈ t.newNodes g, (g.nodes[i].args.length + 1)

/-- The steps on the stack and those that may still be put there. An output counts twice, since the
walk turns to it before it enters it, and an error that has not happened counts once. -/
def Moment.potential (g : Graph) (m : Moment σ ε) : Nat :=
  m.error.isNone.toNat + 2 * m.outputs.length + m.stack.length + m.trail.stepsLeft g

theorem mem_newNodes_iff {t : Trail} {i : Fin g.nodes.size} :
    i ∈ t.newNodes g ↔ ⟨i⟩ ∉ t.visited ∧ ⟨i⟩ ∉ t.onPath := by
  rw [Trail.newNodes, Finset.mem_filter, Trail.isNew, Bool.and_eq_true, decide_eq_true_iff,
    decide_eq_true_iff]
  exact and_iff_right (Finset.mem_univ i)

/-- A node that is entered is not new any more, and the others are as before. -/
theorem newNodes_enter (t : Trail) {id : NodeId} (hid : id.index < g.nodes.size) :
    (t.enter id).newNodes g = (t.newNodes g).erase ⟨id.index, hid⟩ := by
  ext i
  have heq : (⟨i⟩ : NodeId) = id ↔ i = ⟨id.index, hid⟩ := by
    rw [Fin.ext_iff, ← NodeId.mk.injEq]
  rw [Finset.mem_erase, mem_newNodes_iff, mem_newNodes_iff, Trail.enter, List.mem_cons, not_or, heq]
  exact and_left_comm

/-- The steps into a node that is entered are not left any more. -/
theorem stepsLeft_enter {t : Trail} {id : NodeId} {n : Node} (hv : id ∉ t.visited)
    (hp : id ∉ t.onPath) (hn : g.node? id = some n) :
    (t.enter id).stepsLeft g + (n.args.length + 1) = t.stepsLeft g := by
  obtain ⟨hid, rfl⟩ := Array.getElem?_eq_some_iff.mp hn
  have hmem : ⟨id.index, hid⟩ ∈ t.newNodes g := mem_newNodes_iff.mpr ⟨hv, hp⟩
  rw [Trail.stepsLeft, newNodes_enter t hid]
  exact Finset.sum_erase_add _ (fun i => g.nodes[i].args.length + 1) hmem

theorem stepsLeft_enter_le (t : Trail) (id : NodeId) :
    (t.enter id).stepsLeft g ≤ t.stepsLeft g := by
  refine Finset.sum_le_sum_of_subset fun i hi => ?_
  obtain ⟨hvisited, hpath⟩ := mem_newNodes_iff.mp hi
  exact mem_newNodes_iff.mpr ⟨hvisited, fun hmem => hpath (List.mem_cons_of_mem id hmem)⟩

/-- No node becomes new by being left: it is visited by then. -/
theorem stepsLeft_leave_le (t : Trail) (id : NodeId) :
    (t.leave id).stepsLeft g ≤ t.stepsLeft g := by
  refine Finset.sum_le_sum_of_subset fun i hi => ?_
  obtain ⟨hvisited, hpath⟩ := mem_newNodes_iff.mp hi
  obtain ⟨hne, hnot⟩ := not_or.mp (mt List.mem_cons.mpr hvisited)
  exact mem_newNodes_iff.mpr ⟨hnot, fun hmem => hpath ((List.mem_erase_of_ne hne).mpr hmem)⟩

theorem length_stepsInto_le (t : Trail) (id : NodeId) (n : Node) :
    (stepsInto t id n).length ≤ n.args.length + 1 := by
  rw [stepsInto, List.length_append, List.length_map]
  exact Nat.add_le_add_right (List.length_filter_le _ _) 1

/-- Every move lowers the potential, also one that no walk comes to. -/
theorem Move.potential_lt (h : Move g ofGraph visit m m') : m'.potential g < m.potential g := by
  cases h with
  | output herror hstack houtputs =>
    simp only [Moment.potential, hstack, houtputs, List.length_cons, List.length_nil]
    omega
  | passOver h hv =>
    simp only [Moment.potential, h.stack, List.length_cons]
    omega
  | cycle h hv hp =>
    simp only [Moment.potential, h.error, h.stack, List.length_cons, Option.isNone_some,
      Option.isNone_none, Bool.toNat_false, Bool.toNat_true]
    omega
  | @missing id rest h hv hp hn =>
    -- nothing is left for a position without a node, but the error has happened
    have hleft := stepsLeft_enter_le (g := g) m.trail id
    simp only [Moment.potential, h.error, h.stack, List.length_cons, Option.isNone_some,
      Option.isNone_none, Bool.toNat_false, Bool.toNat_true]
    omega
  | @enter id rest n h hv hp hn =>
    have hleft := stepsLeft_enter hv hp hn
    have hsteps := length_stepsInto_le m.trail id n
    simp only [Moment.potential, h.stack, List.length_append, List.length_cons]
    omega
  | @again id rest h hv =>
    have hleft := stepsLeft_leave_le (g := g) m.trail id
    simp only [Moment.potential, h.stack, List.length_cons]
    omega
  | @leave id rest h hv =>
    have hleft := stepsLeft_leave_le (g := g) m.trail id
    have halive := Bool.toNat_le (visit id m.state).2.isNone
    simp only [Moment.potential, h.error, h.stack, List.length_cons, Option.isNone_none,
      Bool.toNat_true]
    omega

end Moves

/-! ## Where a walk ends -/

section Ends

variable {g : Graph} {ofGraph : GraphError → ε} {visit : Visitor σ ε} {m m' : Moment σ ε} {s : σ}
  {k : Nat}

/-- The moves that were made and the potential that is left are no more than the potential at the
start. -/
theorem Run.add_potential_le (h : Run g ofGraph visit s k m) :
    k + m.potential g ≤ (Moment.start g s : Moment σ ε).potential g := by
  induction h with
  | start => exact (Nat.zero_add _).le
  | move h hmove ih =>
    have hlt := hmove.potential_lt
    omega

/-- Every moment of a walk is followed by one at which the walk is over. -/
theorem Run.exists_isOver (h : Run g ofGraph visit s k m) :
    ∃ k' m', Run g ofGraph visit s k' m' ∧ m'.IsOver := by
  induction hpotential : m.potential g using Nat.strong_induction_on generalizing k m with
  | _ potential ih =>
  subst hpotential
  by_cases hover : m.IsOver
  · exact ⟨k, m, h, hover⟩
  · obtain ⟨m', hmove⟩ : ∃ m', Move g ofGraph visit m m' := exists_move hover
    exact ih _ hmove.potential_lt (h.move hmove) rfl

/-- The walk from a moment on. -/
def Moment.goOn (g : Graph) (ofGraph : GraphError → ε) (visit : Visitor σ ε) (m : Moment σ ε) :
    Outcome σ ε :=
  match advance g ofGraph visit m.stack m.trail m.state with
  | ⟨t, s, none⟩ => fromOutputs g ofGraph visit m.outputs t s
  | failed => failed

/-- The walk from the moment on ends as given, or it has ended so with an error. -/
def Moment.LeadsTo (g : Graph) (ofGraph : GraphError → ε) (visit : Visitor σ ε)
    (o : Outcome σ ε) (m : Moment σ ε) : Prop :=
  match m.error with
  | none => m.goOn g ofGraph visit = o
  | some e => m.trail.visited = o.trail.visited ∧ m.state = o.state ∧ o.error = some e

theorem Moment.LeadsTo.move {o : Outcome σ ε} (hm : m.LeadsTo g ofGraph visit o)
    (h : Move g ofGraph visit m m') : m'.LeadsTo g ofGraph visit o := by
  cases h with
  | output herror hstack houtputs =>
    simp only [Moment.LeadsTo, Moment.goOn, herror, hstack, houtputs, advance_nil] at hm ⊢
    exact hm
  | passOver h hv =>
    simp only [Moment.LeadsTo, Moment.goOn, h.error, h.stack, advance_enter_of_visited hv] at hm ⊢
    exact hm
  | cycle h hv hp =>
    simp only [Moment.LeadsTo, Moment.goOn, h.error, h.stack, advance_enter_of_onPath hv hp] at hm ⊢
    rw [← hm]
    exact ⟨rfl, rfl, rfl⟩
  | missing h hv hp hn =>
    simp only [Moment.LeadsTo, Moment.goOn, h.error, h.stack, advance_enter_of_missing hv hp hn]
      at hm ⊢
    rw [← hm]
    exact ⟨rfl, rfl, rfl⟩
  | enter h hv hp hn =>
    simp only [Moment.LeadsTo, Moment.goOn, h.error, h.stack, advance_enter hv hp hn] at hm ⊢
    exact hm
  | again h hv =>
    simp only [Moment.LeadsTo, Moment.goOn, h.error, h.stack, advance_leave_of_visited hv] at hm ⊢
    exact hm
  | @leave id rest h hv =>
    cases hs : visit id m.state with
    | mk s' failure =>
      cases failure with
      | none =>
        simp only [Moment.LeadsTo, Moment.goOn, h.error, h.stack, advance_leave hv hs] at hm ⊢
        exact hm
      | some e =>
        simp only [Moment.LeadsTo, Moment.goOn, h.error, h.stack, advance_leave_of_failed hv hs]
          at hm ⊢
        rw [← hm]
        exact ⟨rfl, rfl, rfl⟩

theorem Run.leadsTo (h : Run g ofGraph visit s k m) :
    m.LeadsTo g ofGraph visit (g.walk ofGraph visit s) := by
  induction h with
  | start =>
    simp only [Moment.LeadsTo, Moment.goOn, Moment.start, advance_nil]
    rfl
  | move h hmove ih => exact ih.move hmove

theorem Moment.LeadsTo.goOn_eq {o : Outcome σ ε} (hm : m.LeadsTo g ofGraph visit o)
    (h : m.error = none) : m.goOn g ofGraph visit = o := by
  rwa [Moment.LeadsTo, h] at hm

/-- At a moment at which the walk is over it has ended as given. -/
theorem Moment.LeadsTo.of_isOver {o : Outcome σ ε} (hm : m.LeadsTo g ofGraph visit o)
    (h : m.IsOver) :
    m.trail.visited = o.trail.visited ∧ m.state = o.state ∧ m.error = o.error := by
  cases herror : m.error with
  | some e =>
    simp only [Moment.LeadsTo, herror] at hm
    exact ⟨hm.1, hm.2.1, hm.2.2.symm⟩
  | none =>
    obtain ⟨houtputs, hstack⟩ := h herror
    have hgoOn := hm.goOn_eq herror
    simp only [Moment.goOn, houtputs, hstack, advance_nil, fromOutputs] at hgoOn
    rw [← hgoOn]
    exact ⟨rfl, rfl, rfl⟩

end Ends

end Walk

namespace Graph

/-- A bound of the moves that a walk makes: those for its outputs, for the nodes and their
arguments, and one that ends it with an error. -/
def walkBound (g : Graph) : Nat :=
  1 + 2 * g.outputs.length + ∑ i : Fin g.nodes.size, (g.nodes[i].args.length + 1)

theorem potential_start (g : Graph) (s : σ) :
    (Walk.Moment.start g s : Walk.Moment σ ε).potential g = g.walkBound := by
  have hnew : Walk.Trail.start.newNodes g = Finset.univ :=
    Finset.eq_univ_of_forall fun i => Walk.mem_newNodes_iff.mpr ⟨List.not_mem_nil, List.not_mem_nil⟩
  rw [Walk.Moment.potential, Walk.Moment.start, Walk.Trail.stepsLeft, hnew]
  rfl

/-- Every walk ends, whatever the graph and the visitor are: no run makes more than a bounded number
of moves, there is one at whose end the walk is over, and it is over then with the visits, the state
and the error of the walk, to which it leads from every moment before. At every moment of a run no
node has got past the checks twice or was visited twice, and the nodes that are still to be left are
distinct and are those on the path. -/
theorem walk_ends (g : Graph) (ofGraph : GraphError → ε) (visit : Walk.Visitor σ ε) (s : σ) :
    (∃ k m, Walk.Run g ofGraph visit s k m ∧ m.IsOver) ∧
    ∀ k m, Walk.Run g ofGraph visit s k m →
      k ≤ g.walkBound ∧
      (m.error = none → m.goOn g ofGraph visit = g.walk ofGraph visit s) ∧
      (m.IsOver → m.visits = (g.walk ofGraph visit s).trail.visited ∧
        m.state = (g.walk ofGraph visit s).state ∧ m.error = (g.walk ofGraph visit s).error) ∧
      m.entered.Nodup ∧ m.visits.Nodup ∧ (Walk.pending m.stack).Nodup ∧
        ∀ id, id ∈ Walk.pending m.stack ↔ id ∈ m.trail.onPath := by
  refine ⟨Walk.Run.start.exists_isOver, fun k m hrun => ?_⟩
  have htracked := Walk.Moment.Tracked.run hrun
  have hbound := hrun.add_potential_le
  rw [potential_start] at hbound
  obtain ⟨hpath, hvisited, -⟩ := List.nodup_append.mp htracked.nodup
  refine ⟨(Nat.le_add_right k _).trans hbound, hrun.leadsTo.goOn_eq, fun hover => ?_, ?_, ?_, ?_,
    fun id => ?_⟩
  · rw [htracked.visits_eq]
    exact hrun.leadsTo.of_isOver hover
  · exact htracked.entered_perm.nodup_iff.mpr htracked.nodup
  · rwa [htracked.visits_eq]
  · rwa [htracked.pending_eq]
  · rw [htracked.pending_eq]

end Graph

end GraphSurvey
