import GraphSurvey.Proofs.Walk.Course
import Mathlib

/-!
# The order of the visits

A walk stands between what it has visited, the nodes on the path and the steps on its stack, and the
three fit together: the nodes that are still to be left are those on the path, each of them an
argument of the next, and when a node is left, all its arguments were visited. So the nodes are
visited after their arguments, a node met again on the path reaches itself, and at the end
everything that the outputs reach was visited.

## Main definitions

* `GraphSurvey.Graph.HasArg`, `GraphSurvey.Graph.Reachable`, `GraphSurvey.Graph.ReachesItself` — how
  nodes reach each other through arguments.
* `GraphSurvey.Walk.Coherent` — what every step of a walk keeps.

## Main results

* `GraphSurvey.Walk.course_endsWell`, `GraphSurvey.Walk.courseFrom_endsWell` — where a walk ends.
* `GraphSurvey.Graph.order_of_reachable` — when there is an order of the visits, what it is, and
  what an error says about the graph.
-/

open Relation

namespace GraphSurvey

namespace Graph

/-- The node at a position has an argument. -/
def HasArg (g : Graph) (p a : NodeId) : Prop := ∃ n, g.node? p = some n ∧ a ∈ n.args

/-- The outputs reach the position through arguments. -/
def Reachable (g : Graph) (id : NodeId) : Prop :=
  ∃ output ∈ g.outputs, ReflTransGen g.HasArg output id

/-- The node is reached from one of its own arguments. -/
def ReachesItself (g : Graph) (id : NodeId) : Prop :=
  ∃ a, g.HasArg id a ∧ ReflTransGen g.HasArg a id

theorem Reachable.arg {g : Graph} {p a : NodeId} (h : g.Reachable p) (ha : g.HasArg p a) :
    g.Reachable a := by
  obtain ⟨output, ho, hp⟩ := h
  exact ⟨output, ho, hp.tail ha⟩

theorem reachesItself_of_transGen {g : Graph} {id : NodeId} (h : TransGen g.HasArg id id) :
    g.ReachesItself id :=
  TransGen.head'_iff.mp h

end Graph

namespace Walk

variable {g : Graph} {t : Trail} {id : NodeId} {stack rest : List Step}

/-! ## Stacks -/

/-- The node of a step. -/
def Step.node : Step → NodeId
  | .enter id => id
  | .leave id => id

/-- The nodes that are still to be left, the next one first. -/
def pending : List Step → List NodeId
  | [] => []
  | .enter _ :: rest => pending rest
  | .leave id :: rest => id :: pending rest

/-- The node of every step is an argument of the node that is left next after it. -/
def Linked (g : Graph) : List Step → Prop
  | [] => True
  | step :: rest => (∀ p ∈ (pending rest).head?, g.HasArg p step.node) ∧ Linked g rest

/-- When the steps are done in their order after some nodes were visited, every node is left after
all its arguments. -/
def Settled (g : Graph) : List NodeId → List Step → Prop
  | _, [] => True
  | done, .enter id :: rest => Settled g (id :: done) rest
  | done, .leave id :: rest => (∀ a, g.HasArg id a → a ∈ done) ∧ Settled g (id :: done) rest

@[simp] theorem pending_enters (ids : List NodeId) (stack : List Step) :
    pending (ids.map .enter ++ stack) = pending stack := by
  induction ids with
  | nil => rfl
  | cons id ids ih => exact ih

theorem linked_enters {ids : List NodeId} (hstack : Linked g stack)
    (hids : ∀ a ∈ ids, ∀ p ∈ (pending stack).head?, g.HasArg p a) :
    Linked g (ids.map .enter ++ stack) := by
  induction ids with
  | nil => exact hstack
  | cons id ids ih =>
    rw [List.map_cons, List.cons_append]
    refine ⟨?_, ih fun a ha => hids a (List.mem_cons_of_mem _ ha)⟩
    rw [pending_enters]
    exact hids id List.mem_cons_self

/-- A node that is still to be left reaches the nodes of the steps before. -/
theorem Linked.transGen {step : Step} (h : Linked g (step :: rest)) {p : NodeId}
    (hp : p ∈ pending rest) : TransGen g.HasArg p step.node := by
  induction rest generalizing step with
  | nil => cases hp
  | cons next rest ih =>
    cases next with
    | enter id => exact ih ⟨h.1, h.2.2⟩ hp
    | leave id =>
      have hstep : g.HasArg id step.node := h.1 id rfl
      rcases List.mem_cons.mp hp with rfl | hp
      · exact .single hstep
      · exact (ih h.2 hp).tail hstep

theorem Settled.mono {done done' : List NodeId} (h : Settled g done stack) (hsub : done ⊆ done') :
    Settled g done' stack := by
  induction stack generalizing done done' with
  | nil => trivial
  | cons step rest ih =>
    cases step with
    | enter id => exact ih h (List.cons_subset_cons id hsub)
    | leave id => exact ⟨fun a ha => hsub (h.1 a ha), ih h.2 (List.cons_subset_cons id hsub)⟩

theorem settled_enters {ids done : List NodeId} (h : Settled g (ids.reverse ++ done) stack) :
    Settled g done (ids.map .enter ++ stack) := by
  induction ids generalizing done with
  | nil => exact h
  | cons id ids ih =>
    have hids : Settled g (ids.reverse ++ id :: done) stack := by
      rw [List.reverse_cons, List.append_assoc] at h
      exact h
    exact ih hids

/-! ## Visited nodes -/

/-- The nodes of a list, the latest first, stand each after its arguments and once. -/
def ArgsFirst (g : Graph) : List NodeId → Prop
  | [] => True
  | id :: earlier =>
    id.index < g.nodes.size ∧ id ∉ earlier ∧ (∀ a, g.HasArg id a → a ∈ earlier) ∧
      ArgsFirst g earlier

namespace ArgsFirst

variable {l : List NodeId}

theorem lt_size (h : ArgsFirst g l) (hid : id ∈ l) : id.index < g.nodes.size := by
  induction l with
  | nil => cases hid
  | cons latest earlier ih =>
    rcases List.mem_cons.mp hid with rfl | hid
    · exact h.1
    · exact ih h.2.2.2 hid

theorem nodup (h : ArgsFirst g l) : l.Nodup := by
  induction l with
  | nil => exact List.nodup_nil
  | cons latest earlier ih => exact List.nodup_cons.mpr ⟨h.2.1, ih h.2.2.2⟩

theorem suffix {later : List NodeId} (h : ArgsFirst g (later ++ l)) : ArgsFirst g l := by
  induction later with
  | nil => exact h
  | cons latest later ih => exact ih h.2.2.2

/-- What nodes of the list reach stands in the list. -/
theorem closed (h : ArgsFirst g l) {p a : NodeId} (hp : p ∈ l)
    (hreach : ReflTransGen g.HasArg p a) : a ∈ l := by
  induction hreach with
  | refl => exact hp
  | @tail b a _ ha ih =>
    obtain ⟨later, earlier, rfl⟩ := List.append_of_mem ih
    have harg : a ∈ earlier := h.suffix.2.2.1 a ha
    exact List.mem_append_right _ (List.mem_cons_of_mem _ harg)

/-- No node of the list reaches itself, since its arguments reach only nodes before it. -/
theorem not_reachesItself (h : ArgsFirst g l) (hid : id ∈ l) : ¬ g.ReachesItself id := by
  rintro ⟨a, harg, hreach⟩
  obtain ⟨later, earlier, rfl⟩ := List.append_of_mem hid
  obtain ⟨-, hnot, hargs, hearlier⟩ := h.suffix
  exact hnot (hearlier.closed (hargs a harg) hreach)

end ArgsFirst

/-! ## What every step keeps -/

/-- The stack and the trail of a walk fit together. -/
structure Coherent (g : Graph) (stack : List Step) (t : Trail) : Prop where
  /-- The nodes on the path are those that are still to be left. -/
  pending_eq : pending stack = t.onPath
  nodup : t.onPath.Nodup
  fresh : ∀ id ∈ t.onPath, id ∉ t.visited
  present : ∀ id ∈ t.onPath, id.index < g.nodes.size
  linked : Linked g stack
  settled : Settled g t.visited stack
  argsFirst : ArgsFirst g t.visited
  reachable : ∀ step ∈ stack, g.Reachable step.node
  visited_reachable : ∀ id ∈ t.visited, g.Reachable id

namespace Coherent

theorem start (g : Graph) : Coherent g [] .start where
  pending_eq := rfl
  nodup := List.nodup_nil
  fresh _ h := by cases h
  present _ h := by cases h
  linked := trivial
  settled := trivial
  argsFirst := trivial
  reachable _ h := by cases h
  visited_reachable _ h := by cases h

theorem output {output : NodeId} (h : Coherent g [] t) (ho : output ∈ g.outputs) :
    Coherent g [.enter output] t where
  pending_eq := h.pending_eq
  nodup := h.nodup
  fresh := h.fresh
  present := h.present
  linked := ⟨by simp [pending], trivial⟩
  settled := trivial
  argsFirst := h.argsFirst
  reachable step hstep := by
    rw [List.mem_singleton.mp hstep]
    exact ⟨output, ho, .refl⟩
  visited_reachable := h.visited_reachable

theorem passOver (h : Coherent g (.enter id :: rest) t) (hv : id ∈ t.visited) :
    Coherent g rest t where
  pending_eq := h.pending_eq
  nodup := h.nodup
  fresh := h.fresh
  present := h.present
  linked := h.linked.2
  settled := by
    have hsettled : Settled g (id :: t.visited) rest := h.settled
    exact hsettled.mono (List.cons_subset.mpr ⟨hv, List.Subset.refl _⟩)
  argsFirst := h.argsFirst
  reachable step hstep := h.reachable step (List.mem_cons_of_mem _ hstep)
  visited_reachable := h.visited_reachable

theorem enter {n : Node} (h : Coherent g (.enter id :: rest) t) (hv : id ∉ t.visited)
    (hp : id ∉ t.onPath) (hn : g.node? id = some n) :
    Coherent g (stepsInto t id n ++ rest) (t.enter id) := by
  have hid : g.Reachable id := h.reachable _ List.mem_cons_self
  have harg {a : NodeId} (ha : a ∈ n.args) : g.HasArg id a := ⟨n, hn, ha⟩
  have hlinked : Linked g (.leave id :: rest) := ⟨h.linked.1, h.linked.2⟩
  rw [stepsInto, List.append_assoc]
  refine ⟨?_, ?_, ?_, ?_, ?_, ?_, h.argsFirst, ?_, h.visited_reachable⟩
  · rw [pending_enters]
    exact congrArg (id :: ·) h.pending_eq
  · exact List.nodup_cons.mpr ⟨hp, h.nodup⟩
  · intro b hb
    rcases List.mem_cons.mp hb with rfl | hb
    · exact hv
    · exact h.fresh b hb
  · intro b hb
    rcases List.mem_cons.mp hb with rfl | hb
    · exact (Array.getElem?_eq_some_iff.mp hn).1
    · exact h.present b hb
  · refine linked_enters hlinked fun a ha p hp => ?_
    obtain rfl : id = p := Option.some.inj hp
    exact harg (List.mem_filter.mp ha).1
  · refine settled_enters ⟨fun a ⟨n', hn', ha⟩ => ?_, ?_⟩
    · -- an argument was visited before, or is entered above the step out of the node
      rw [Option.some.inj (hn'.symm.trans hn)] at ha
      by_cases hav : a ∈ t.visited
      · exact List.mem_append_right _ hav
      · exact List.mem_append_left _ (List.mem_reverse.mpr (List.mem_filter.mpr ⟨ha, by simpa⟩))
    · have hsettled : Settled g (id :: t.visited) rest := h.settled
      exact hsettled.mono (List.cons_subset_cons id (List.subset_append_right _ _))
  · intro step hstep
    rcases List.mem_append.mp hstep with hstep | hstep
    · obtain ⟨a, ha, rfl⟩ := List.mem_map.mp hstep
      exact hid.arg (harg (List.mem_filter.mp ha).1)
    · rcases List.mem_cons.mp hstep with rfl | hstep
      · exact hid
      · exact h.reachable step (List.mem_cons_of_mem _ hstep)

/-- The node that is left is the last that was entered of those on the path. -/
theorem onPath_eq (h : Coherent g (.leave id :: rest) t) : t.onPath = id :: pending rest :=
  h.pending_eq.symm

theorem not_visited (h : Coherent g (.leave id :: rest) t) : id ∉ t.visited :=
  h.fresh id (by rw [h.onPath_eq]; exact List.mem_cons_self)

theorem leave (h : Coherent g (.leave id :: rest) t) : Coherent g rest (t.leave id) := by
  have hnodup : (id :: pending rest).Nodup := by rw [← h.onPath_eq]; exact h.nodup
  have hid : id.index < g.nodes.size := h.present id (by rw [h.onPath_eq]; exact List.mem_cons_self)
  have hmem {b : NodeId} (hb : b ∈ pending rest) : b ∈ t.onPath := by
    rw [h.onPath_eq]; exact List.mem_cons_of_mem _ hb
  rw [leave_of_onPath_eq h.onPath_eq]
  refine ⟨rfl, hnodup.of_cons, ?_, fun b hb => h.present b (hmem hb), h.linked.2, h.settled.2,
    ⟨hid, h.not_visited, h.settled.1, h.argsFirst⟩,
    fun step hstep => h.reachable step (List.mem_cons_of_mem _ hstep), ?_⟩
  · intro b hb hvisited
    rcases List.mem_cons.mp hvisited with rfl | hvisited
    · exact (List.nodup_cons.mp hnodup).1 hb
    · exact h.fresh b (hmem hb) hvisited
  · intro b hb
    rcases List.mem_cons.mp hb with rfl | hb
    · exact h.reachable _ List.mem_cons_self
    · exact h.visited_reachable b hb

/-- A node that is met again on the path reaches itself: it reaches the node whose argument it is
met as. -/
theorem reachesItself (h : Coherent g (.enter id :: rest) t) (hp : id ∈ t.onPath) :
    g.ReachesItself id := by
  rw [← h.pending_eq] at hp
  exact Graph.reachesItself_of_transGen (h.linked.transGen hp)

end Coherent

/-! ## Where a walk ends -/

/-- What the error of a walk says of the graph. -/
def IsFault (g : Graph) : GraphError → Prop
  | .nodeNotFound id => g.Reachable id ∧ g.nodes.size ≤ id.index
  | .cycle id => g.Reachable id ∧ g.ReachesItself id
  | .misplacedNode .. => False

/-- The end of a walk over nodes that started on a trail: the visits were added to the trail, the
nodes are among them unless there is an error, and an error is a fault of the graph. -/
structure EndsWell (g : Graph) (nodes : List NodeId) (t : Trail)
    (c : Outcome (List NodeId) GraphError) : Prop where
  visited_eq : c.trail.visited = c.state.reverse ++ t.visited
  /-- The visits are in order also when there is an error. -/
  argsFirst : ArgsFirst g c.trail.visited
  coherent : c.error = none → Coherent g [] c.trail
  covers : c.error = none → nodes ⊆ c.trail.visited
  fault : ∀ e, c.error = some e → IsFault g e

theorem EndsWell.visited_subset {nodes : List NodeId} {c : Outcome (List NodeId) GraphError}
    (h : EndsWell g nodes t c) : t.visited ⊆ c.trail.visited := by
  rw [h.visited_eq]
  exact List.subset_append_right _ _

/-- Until the stack is empty, the walk goes over the nodes on the stack. -/
theorem course_endsWell (h : Coherent g stack t) :
    EndsWell g (stack.map Step.node) t (course g stack t) := by
  induction stack, t using induction_on_steps (g := g) with
  | nil t =>
    rw [course, advance_nil]
    exact ⟨rfl, h.argsFirst, fun _ => h, fun _ => List.nil_subset _, fun _ he => by cases he⟩
  | visited id rest t hv ih =>
    rw [course, advance_enter_of_visited hv]
    have hrest := ih (h.passOver hv)
    refine ⟨hrest.visited_eq, hrest.argsFirst, hrest.coherent, fun he => ?_, hrest.fault⟩
    exact List.cons_subset.mpr ⟨hrest.visited_subset hv, hrest.covers he⟩
  | onPath id rest t hv hp =>
    rw [course, advance_enter_of_onPath hv hp]
    refine ⟨rfl, h.argsFirst, fun he => ?_, fun he => ?_, fun e he => ?_⟩
    · cases he
    · cases he
    · cases he
      exact ⟨h.reachable _ List.mem_cons_self, h.reachesItself hp⟩
  | missing id rest t hv hp hn =>
    rw [course, advance_enter_of_missing hv hp hn]
    refine ⟨rfl, h.argsFirst, fun he => ?_, fun he => ?_, fun e he => ?_⟩
    · cases he
    · cases he
    · cases he
      exact ⟨h.reachable _ List.mem_cons_self, Array.getElem?_eq_none_iff.mp hn⟩
  | enter id rest t n hv hp hn ih =>
    rw [course, advance_enter hv hp hn]
    have hrest := ih (h.enter hv hp hn)
    refine ⟨hrest.visited_eq, hrest.argsFirst, hrest.coherent, fun he => ?_, hrest.fault⟩
    refine List.Subset.trans ?_ (hrest.covers he)
    -- the step out of the node stands among the steps into it
    rw [stepsInto, List.append_assoc, List.map_append]
    exact List.subset_append_right _ _
  | again id rest t hv ih => exact absurd hv h.not_visited
  | leave id rest t hv ih =>
    have hrest := ih h.leave
    rw [course_leave hv]
    refine ⟨?_, hrest.argsFirst, hrest.coherent, fun he => ?_, hrest.fault⟩
    · rw [hrest.visited_eq, List.reverse_cons, List.append_assoc]
      rfl
    · exact List.cons_subset.mpr ⟨hrest.visited_subset List.mem_cons_self, hrest.covers he⟩

/-- A walk from outputs goes over the outputs. -/
theorem courseFrom_endsWell {outputs : List NodeId} (houtputs : outputs ⊆ g.outputs)
    (h : Coherent g [] t) : EndsWell g outputs t (courseFrom g outputs t) := by
  induction outputs generalizing t with
  | nil =>
    exact ⟨rfl, h.argsFirst, fun _ => h, fun _ => List.nil_subset _, fun _ he => by cases he⟩
  | cons output rest ih =>
    obtain ⟨ho, hrest⟩ := List.cons_subset.mp houtputs
    have hfirst := course_endsWell (h.output ho)
    cases he : (course g [.enter output] t).error with
    | some e =>
      rw [courseFrom_cons_of_failed he]
      refine ⟨hfirst.visited_eq, hfirst.argsFirst, hfirst.coherent, fun hnone => ?_, hfirst.fault⟩
      exact absurd (he.symm.trans hnone) (by simp)
    | none =>
      have hlater := ih hrest (hfirst.coherent he)
      rw [courseFrom_cons he]
      refine ⟨?_, hlater.argsFirst, hlater.coherent, fun hnone => ?_, hlater.fault⟩
      · rw [hlater.visited_eq, hfirst.visited_eq, List.reverse_append, List.append_assoc]
      · have hmem : output ∈ (course g [.enter output] t).trail.visited :=
          hfirst.covers he List.mem_cons_self
        exact List.cons_subset.mpr ⟨hlater.visited_subset hmem, hlater.covers hnone⟩

end Walk

/-! ## The order of a graph -/

namespace Graph

variable {g : Graph}

theorem course_endsWell (g : Graph) : Walk.EndsWell g g.outputs .start g.course :=
  Walk.courseFrom_endsWell (List.Subset.refl _) (.start g)

theorem course_visited_eq (g : Graph) : g.course.trail.visited = g.course.state.reverse := by
  rw [g.course_endsWell.visited_eq]
  exact List.append_nil _

/-- The visits of a walk, the latest first, stand each after its arguments and once. -/
theorem argsFirst_course (g : Graph) : Walk.ArgsFirst g g.course.state.reverse := by
  rw [← course_visited_eq]
  exact g.course_endsWell.argsFirst

theorem argsFirst_of_order {visits : List NodeId} (h : g.order = .ok visits) :
    Walk.ArgsFirst g visits.reverse := by
  obtain ⟨-, rfl⟩ := order_eq_ok_iff.mp h
  exact argsFirst_course g

/-- No node is visited twice. -/
theorem nodup_of_order {visits : List NodeId} (h : g.order = .ok visits) : visits.Nodup :=
  List.nodup_reverse.mp (argsFirst_of_order h).nodup

/-- A node that is visited was not visited before. -/
theorem not_mem_before_of_order {visits before after : List NodeId} {id : NodeId}
    (h : g.order = .ok visits) (heq : visits = before ++ id :: after) : id ∉ before := by
  have hnodup := nodup_of_order h
  rw [heq, List.nodup_middle, List.nodup_cons] at hnodup
  exact fun hid => hnodup.1 (List.mem_append_left _ hid)

/-- A walk that ends without an error visits what the outputs reach. -/
theorem mem_order_iff {visits : List NodeId} (h : g.order = .ok visits) (id : NodeId) :
    id ∈ visits ↔ g.Reachable id := by
  have hargs := argsFirst_of_order h
  obtain ⟨he, rfl⟩ := order_eq_ok_iff.mp h
  have hend := g.course_endsWell
  constructor
  · intro hid
    refine (hend.coherent he).visited_reachable id ?_
    rw [course_visited_eq]
    exact List.mem_reverse.mpr hid
  · rintro ⟨output, ho, hreach⟩
    have hmem : output ∈ g.course.state.reverse := by
      rw [← course_visited_eq]
      exact hend.covers he ho
    exact List.mem_reverse.mp (hargs.closed hmem hreach)

/-- Every visited node stands after its arguments. -/
theorem arg_mem_of_order {visits before after : List NodeId} {p a : NodeId}
    (h : g.order = .ok visits) (heq : visits = before ++ p :: after) (ha : g.HasArg p a) :
    a ∈ before := by
  have hargs := argsFirst_of_order h
  rw [heq, List.reverse_append, List.reverse_cons, List.append_assoc] at hargs
  exact List.mem_reverse.mp (hargs.suffix.2.2.1 a ha)

/-- The error of a walk is a fault of the graph. -/
theorem isFault_of_order {e : GraphError} (h : g.order = .error e) : Walk.IsFault g e :=
  g.course_endsWell.fault e (order_eq_error_iff.mp h)

/-- There is an order of the visits exactly when every position that the outputs reach has a node
that does not reach itself. The order has every such node once, after its arguments, and an error
names a position that breaks the condition. -/
theorem order_of_reachable (g : Graph) :
    ((∃ visits, g.order = .ok visits) ↔
      ∀ id, g.Reachable id → id.index < g.nodes.size ∧ ¬ g.ReachesItself id) ∧
    (∀ visits, g.order = .ok visits →
      visits.Nodup ∧ (∀ id, id ∈ visits ↔ g.Reachable id) ∧
        ∀ before p after, visits = before ++ p :: after → ∀ a, g.HasArg p a → a ∈ before) ∧
    (∀ id, g.order = .error (.nodeNotFound id) → g.Reachable id ∧ g.nodes.size ≤ id.index) ∧
    (∀ id, g.order = .error (.cycle id) → g.Reachable id ∧ g.ReachesItself id) ∧
    ∀ position id, g.order ≠ .error (.misplacedNode position id) := by
  refine ⟨⟨?_, ?_⟩, ?_, fun id => isFault_of_order, fun id => isFault_of_order,
    fun position id => isFault_of_order⟩
  · rintro ⟨visits, h⟩ id hid
    have hargs := argsFirst_of_order h
    have hmem : id ∈ visits.reverse := List.mem_reverse.mpr ((mem_order_iff h id).mpr hid)
    exact ⟨hargs.lt_size hmem, hargs.not_reachesItself hmem⟩
  · intro hsound
    cases h : g.order with
    | ok visits => exact ⟨visits, rfl⟩
    | error e =>
      have hfault := isFault_of_order h
      cases e with
      | nodeNotFound id =>
        obtain ⟨hreach, hsize⟩ := hfault
        exact absurd (hsound id hreach).1 (by omega)
      | cycle id =>
        obtain ⟨hreach, hself⟩ := hfault
        exact absurd hself (hsound id hreach).2
      | misplacedNode position id => exact hfault.elim
  · intro visits h
    refine ⟨?_, mem_order_iff h, fun before p after heq a => arg_mem_of_order h heq⟩
    exact List.nodup_reverse.mp (argsFirst_of_order h).nodup

end Graph

end GraphSurvey
