import GraphSurvey.Proofs.Graph.Growth
import GraphSurvey.Proofs.Walk.Order
import GraphSurvey.Proofs.Walk.Recursion
import Mathlib

/-!
# Walks of well-formed graphs

In a well-formed graph arguments stand before the calls that have them. So a walk that has come to a
node finds all that it reaches: positions only become smaller, which leads neither out of the graph
nor back to the path. A walk fails only at an output that has no node, and the outputs before it
were walked in full by then.

## Main results

* `GraphSurvey.Walk.descend_inside` — the recursion from a node of a well-formed graph never fails.
* `GraphSurvey.Graph.WellFormed.course_error` — how a walk of a well-formed graph ends.
* `GraphSurvey.Graph.WellFormed.exists_order_setOutput` — the only output of a graph is visited
  last.
-/

namespace GraphSurvey

namespace Walk

/-- A recursion ended without an error and has visited nothing outside the graph. -/
structure Descent.Inside (g : Graph) (d : Descent (List NodeId) GraphError) : Prop where
  error : d.error = none
  visited_lt : ∀ q ∈ d.visited, q.index < g.nodes.size

variable {g : Graph} {path visited : List NodeId}

/-- If a recursion stays inside for every node of a list, so does the one over the list. -/
theorem descendAll_inside {ids : List NodeId}
    (h : ∀ p ∈ ids, ∀ visited visits, (∀ q ∈ visited, q.index < g.nodes.size) →
      (descend g id keepVisits path p visited visits).Inside g)
    (hvisited : ∀ q ∈ visited, q.index < g.nodes.size) (visits : List NodeId) :
    (descendAll g id keepVisits path ids visited visits).Inside g := by
  induction ids generalizing visited visits with
  | nil =>
    rw [descendAll_nil]
    exact ⟨rfl, hvisited⟩
  | cons p rest ih =>
    obtain ⟨hp, hrest⟩ := List.forall_mem_cons.mp h
    have hfirst := hp visited visits hvisited
    cases hd : descend g id keepVisits path p visited visits with
    | mk visited' visits' failure =>
      rw [hd] at hfirst
      obtain rfl : failure = none := hfirst.error
      rw [descendAll_cons hd]
      exact ih hrest hfirst.visited_lt visits'

/-- The recursion from a node of a well-formed graph stays inside the graph if the nodes on the path
stand behind it. -/
theorem descend_inside (hg : g.WellFormed) {p : NodeId} (hp : p.index < g.nodes.size)
    (hpath : ∀ q ∈ path, p.index < q.index) (hvisited : ∀ q ∈ visited, q.index < g.nodes.size)
    (visits : List NodeId) : (descend g id keepVisits path p visited visits).Inside g := by
  induction path using induction_on_path (g := g) generalizing p visited visits with
  | step path ih =>
  by_cases hv : p ∈ visited
  · rw [descend_of_visited hv]
    exact ⟨rfl, hvisited⟩
  have hon : p ∉ path := fun hmem => Nat.lt_irrefl _ (hpath p hmem)
  obtain ⟨n, hn⟩ : ∃ n, g.node? p = some n := ⟨_, Array.getElem?_eq_getElem hp⟩
  have hargs : (descendAll g id keepVisits (p :: path) n.args visited visits).Inside g := by
    refine descendAll_inside (fun a ha visited visits hvisited => ?_) hvisited visits
    have hlt : a.index < p.index := hg.args_lt p n hn a ha
    refine ih p n hon hn (hlt.trans hp) ?_ hvisited visits
    exact List.forall_mem_cons.mpr ⟨hlt, fun q hq => hlt.trans (hpath q hq)⟩
  cases hd : descendAll g id keepVisits (p :: path) n.args visited visits with
  | mk visited' visits' failure =>
    rw [hd] at hargs
    obtain rfl : failure = none := hargs.error
    rw [descend_of_args hv hon hn hd]
    exact ⟨rfl, List.forall_mem_cons.mpr ⟨hp, hargs.visited_lt⟩⟩

/-- The recursion over the outputs of a well-formed graph fails at the first one that is missing,
whatever the outputs before it reach. -/
theorem descendAll_error (hg : g.WellFormed) (outputs : List NodeId)
    (hvisited : ∀ q ∈ visited, q.index < g.nodes.size) (visits : List NodeId) :
    (descendAll g id keepVisits [] outputs visited visits).error =
      (g.missing? outputs).map GraphError.nodeNotFound := by
  induction outputs generalizing visited visits with
  | nil =>
    rw [descendAll_nil]
    rfl
  | cons output rest ih =>
    by_cases ho : output.index < g.nodes.size
    · have hpath : ∀ q ∈ ([] : List NodeId), output.index < q.index := nofun
      have hfirst := descend_inside hg ho hpath hvisited visits
      cases hd : descend g id keepVisits [] output visited visits with
      | mk visited' visits' failure =>
        rw [hd] at hfirst
        obtain rfl : failure = none := hfirst.error
        rw [descendAll_cons hd, Graph.missing?_cons_of_lt ho]
        exact ih hfirst.visited_lt visits'
    · have hsize : g.nodes.size ≤ output.index := Nat.not_lt.mp ho
      have hnew : output ∉ visited := fun hmem => ho (hvisited output hmem)
      have hmissing : descend g id keepVisits [] output visited visits =
          ⟨visited, visits, some (.nodeNotFound output)⟩ :=
        descend_of_missing hnew List.not_mem_nil (Graph.node?_eq_none_iff.mpr hsize)
      rw [descendAll_cons_of_failed hmissing, Graph.missing?_cons_of_le hsize]
      rfl

end Walk

namespace Graph

variable {g : Graph}

/-- A walk of a well-formed graph fails at the first output that is missing, and only there. -/
theorem WellFormed.course_error (hg : g.WellFormed) :
    g.course.error = (g.missing? g.outputs).map GraphError.nodeNotFound := by
  have hvisited : ∀ q ∈ ([] : List NodeId), q.index < g.nodes.size := nofun
  exact g.course_eq_descendAll.2.trans (Walk.descendAll_error hg g.outputs hvisited [])

/-- There is an order of the visits if no output is missing. -/
theorem WellFormed.exists_order_iff (hg : g.WellFormed) :
    (∃ visits, g.order = .ok visits) ↔ ∀ output ∈ g.outputs, output.index < g.nodes.size := by
  rw [← missing?_eq_none_iff]
  constructor
  · rintro ⟨visits, h⟩
    have herror := (order_eq_ok_iff.mp h).1
    rwa [hg.course_error, Option.map_eq_none_iff] at herror
  · intro h
    exact ⟨_, order_eq_ok_iff.mpr ⟨by rw [hg.course_error, h]; rfl, rfl⟩⟩

/-- The only error of a well-formed graph is the first output that is missing. -/
theorem WellFormed.order_eq_error_iff (hg : g.WellFormed) {e : GraphError} :
    g.order = .error e ↔ ∃ output, g.missing? g.outputs = some output ∧ .nodeNotFound output = e := by
  rw [Graph.order_eq_error_iff, hg.course_error, Option.map_eq_some_iff]

/-- Whatever stands in an order of the visits after the only output is reached from it, and so was
visited before it. -/
theorem exists_order_of_outputs_eq {output : NodeId} {visits : List NodeId}
    (houtputs : g.outputs = [output]) (h : g.order = .ok visits) :
    ∃ before, visits = before ++ [output] := by
  have houtput : g.Reachable output := ⟨output, by simp [houtputs], .refl⟩
  obtain ⟨before, after, rfl⟩ := List.append_of_mem ((mem_order_iff h output).mpr houtput)
  have hargs := argsFirst_of_order h
  rw [List.reverse_append, List.reverse_cons, List.append_assoc] at hargs
  have hafter : after = [] := by
    refine List.eq_nil_iff_forall_not_mem.mpr fun q hq => ?_
    obtain ⟨root, hroot, hreach⟩ := (mem_order_iff h q).mp (by simp [hq])
    rw [houtputs] at hroot
    obtain rfl := List.mem_singleton.mp hroot
    have hbefore : q ∈ root :: before.reverse := hargs.suffix.closed List.mem_cons_self hreach
    have hnodup := nodup_of_order h
    rw [← List.singleton_append, ← List.append_assoc] at hnodup
    refine List.disjoint_of_nodup_append hnodup (a := q) ?_ hq
    rcases List.mem_cons.mp hbefore with rfl | hmem
    · exact List.mem_append_right _ List.mem_cons_self
    · exact List.mem_append_left _ (List.mem_reverse.mp hmem)
  exact ⟨before, by rw [hafter]⟩

/-- A node of a well-formed graph that is made its only output is visited last. -/
theorem WellFormed.exists_order_setOutput (hg : g.WellFormed) {output : NodeId}
    (houtput : output.index < g.nodes.size) :
    ∃ before, (g.setOutput output).order = .ok (before ++ [output]) := by
  have hset : (g.setOutput output).WellFormed := hg.withOutputs [output]
  obtain ⟨visits, h⟩ := hset.exists_order_iff.mpr fun other hmem => by
    obtain rfl := List.mem_singleton.mp hmem
    exact houtput
  obtain ⟨before, rfl⟩ := exists_order_of_outputs_eq rfl h
  exact ⟨before, h⟩

end Graph

end GraphSurvey
