import GraphSurvey.Graph.Walk
import GraphSurvey.Proofs.Walk.Course
import Mathlib

/-!
# The walk as a recursion

A node is visited after what its arguments reach, and it is passed over if it was visited before.
Said so, the walk is a recursion over the arguments, which carries the path from the output to the
node. The walk with a stack does the same: when a node is entered, it does to the trail and to the
visitor what the recursion does, and then goes on with the rest of the stack. That arguments are put
on the stack together makes no difference, since those that are visited before their turn are passed
over in it, as the recursion passes them over.

## Main definitions

* `GraphSurvey.Walk.descend`, `GraphSurvey.Walk.descendAll` — the recursion over a node and over a
  list of nodes.
* `GraphSurvey.Graph.descend` — the recursion from all outputs.
* `GraphSurvey.Walk.Resumes` — the walk goes on where the recursion ended.

## Main results

* `GraphSurvey.Walk.descend_resumes` — to enter a node does what the recursion does.
* `GraphSurvey.Graph.walk_eq_descend` — the walk and the recursion make the same visits and end in
  the same way.
-/

namespace GraphSurvey

universe u v

variable {σ : Type u} {ε : Type v}

namespace Walk

/-- Where a recursion ended: the nodes that were visited, the latest first, the state of the visitor
and the error that was the end. -/
structure Descent (σ : Type u) (ε : Type v) where
  visited : List NodeId
  state : σ
  error : Option ε

/-! ## The recursion -/

mutual

/-- Visits a node after what its arguments reach. A node that was visited is passed over, and it is
an error if the node is on the path or if there is none at its position. -/
def descend (g : Graph) (ofGraph : GraphError → ε) (visit : Visitor σ ε) (path : List NodeId)
    (id : NodeId) (visited : List NodeId) (s : σ) : Descent σ ε :=
  if id ∈ visited then ⟨visited, s, none⟩
  else if _hp : id ∈ path then ⟨visited, s, some (ofGraph (.cycle id))⟩
  else match _hn : g.node? id with
    | none => ⟨visited, s, some (ofGraph (.nodeNotFound id))⟩
    | some n =>
      match descendAll g ofGraph visit (id :: path) n.args visited s with
      | ⟨visited, s, none⟩ => ⟨id :: visited, (visit id s).1, (visit id s).2⟩
      | failed => failed
termination_by (Trail.countNew g ⟨[], path⟩, 0)
decreasing_by exact Prod.Lex.left _ _ (countNew_enter_lt (t := ⟨[], path⟩) List.not_mem_nil _hp _hn)

/-- Visits the nodes of a list in their order, each after what its arguments reach. -/
def descendAll (g : Graph) (ofGraph : GraphError → ε) (visit : Visitor σ ε) (path : List NodeId)
    (ids : List NodeId) (visited : List NodeId) (s : σ) : Descent σ ε :=
  match ids with
  | [] => ⟨visited, s, none⟩
  | id :: rest =>
    match descend g ofGraph visit path id visited s with
    | ⟨visited, s, none⟩ => descendAll g ofGraph visit path rest visited s
    | failed => failed
termination_by (Trail.countNew g ⟨[], path⟩, ids.length)
decreasing_by
  · exact Prod.Lex.right _ (Nat.succ_pos _)
  · exact Prod.Lex.right _ (Nat.lt_succ_self _)

end

/-- A property of all paths is proved for a path when it holds for those that are longer by a new
node. -/
theorem induction_on_path {g : Graph} {motive : List NodeId → Prop}
    (step : ∀ path, (∀ id n, id ∉ path → g.node? id = some n → motive (id :: path)) → motive path)
    (path : List NodeId) : motive path := by
  induction hk : Trail.countNew g ⟨[], path⟩ using Nat.strong_induction_on generalizing path with
  | _ k ih =>
  subst hk
  exact step path fun id n hp hn =>
    ih _ (countNew_enter_lt (t := ⟨[], path⟩) List.not_mem_nil hp hn) (id :: path) rfl

section Steps

variable {g : Graph} {ofGraph : GraphError → ε} {visit : Visitor σ ε}
  {path visited visited' : List NodeId} {id : NodeId} {n : Node} {rest : List NodeId} {s s' : σ}
  {e : ε}

theorem descend_of_visited (h : id ∈ visited) :
    descend g ofGraph visit path id visited s = ⟨visited, s, none⟩ := by
  rw [descend, if_pos h]

theorem descend_of_onPath (hv : id ∉ visited) (hp : id ∈ path) :
    descend g ofGraph visit path id visited s = ⟨visited, s, some (ofGraph (.cycle id))⟩ := by
  rw [descend, if_neg hv, dif_pos hp]

theorem descend_of_missing (hv : id ∉ visited) (hp : id ∉ path) (hn : g.node? id = none) :
    descend g ofGraph visit path id visited s =
      ⟨visited, s, some (ofGraph (.nodeNotFound id))⟩ := by
  rw [descend, if_neg hv, dif_neg hp]
  split
  case h_1 => rfl
  case h_2 n hn' => exact absurd (hn.symm.trans hn') (by simp)

/-- When the arguments were descended into, the node is visited. -/
theorem descend_of_args (hv : id ∉ visited) (hp : id ∉ path) (hn : g.node? id = some n)
    (h : descendAll g ofGraph visit (id :: path) n.args visited s = ⟨visited', s', none⟩) :
    descend g ofGraph visit path id visited s =
      ⟨id :: visited', (visit id s').1, (visit id s').2⟩ := by
  rw [descend, if_neg hv, dif_neg hp]
  split
  case h_1 hn' => exact absurd (hn.symm.trans hn') (by simp)
  case h_2 n' hn' =>
    obtain rfl := Option.some.inj (hn.symm.trans hn')
    rw [h]

/-- An error below a node is the end of its descent. -/
theorem descend_of_failed (hv : id ∉ visited) (hp : id ∉ path) (hn : g.node? id = some n)
    (h : descendAll g ofGraph visit (id :: path) n.args visited s = ⟨visited', s', some e⟩) :
    descend g ofGraph visit path id visited s = ⟨visited', s', some e⟩ := by
  rw [descend, if_neg hv, dif_neg hp]
  split
  case h_1 hn' => exact absurd (hn.symm.trans hn') (by simp)
  case h_2 n' hn' =>
    obtain rfl := Option.some.inj (hn.symm.trans hn')
    rw [h]

@[simp] theorem descendAll_nil :
    descendAll g ofGraph visit path [] visited s = ⟨visited, s, none⟩ := by
  rw [descendAll]

theorem descendAll_cons (h : descend g ofGraph visit path id visited s = ⟨visited', s', none⟩) :
    descendAll g ofGraph visit path (id :: rest) visited s =
      descendAll g ofGraph visit path rest visited' s' := by
  rw [descendAll, h]

theorem descendAll_cons_of_failed
    (h : descend g ofGraph visit path id visited s = ⟨visited', s', some e⟩) :
    descendAll g ofGraph visit path (id :: rest) visited s = ⟨visited', s', some e⟩ := by
  rw [descendAll, h]

end Steps

/-! ## What a recursion visits -/

/-- What was visited stays visited, and the nodes on the path are not visited. -/
structure Descent.Keeps (path visited : List NodeId) (d : Descent σ ε) : Prop where
  visited_subset : visited ⊆ d.visited
  fresh : ∀ id ∈ path, id ∉ visited → id ∉ d.visited

section Simulation

variable {g : Graph} {ofGraph : GraphError → ε} {visit : Visitor σ ε} {path : List NodeId}

theorem descendAll_keeps
    (h : ∀ id visited s, (descend g ofGraph visit path id visited s).Keeps path visited)
    (ids visited : List NodeId) (s : σ) :
    (descendAll g ofGraph visit path ids visited s).Keeps path visited := by
  induction ids generalizing visited s with
  | nil =>
    rw [descendAll_nil]
    exact ⟨List.Subset.refl _, fun _ _ h => h⟩
  | cons id rest ih =>
    have hfirst := h id visited s
    cases hd : descend g ofGraph visit path id visited s with
    | mk visited' s' failure =>
      rw [hd] at hfirst
      cases failure with
      | none =>
        rw [descendAll_cons hd]
        have hrest := ih visited' s'
        exact ⟨List.Subset.trans hfirst.visited_subset hrest.visited_subset,
          fun p hp hv => hrest.fresh p hp (hfirst.fresh p hp hv)⟩
      | some e =>
        rw [descendAll_cons_of_failed hd]
        exact hfirst

theorem descend_keeps (g : Graph) (ofGraph : GraphError → ε) (visit : Visitor σ ε)
    (path : List NodeId) (id : NodeId) (visited : List NodeId) (s : σ) :
    (descend g ofGraph visit path id visited s).Keeps path visited := by
  induction path using induction_on_path (g := g) generalizing id visited s with
  | step path ih =>
  have hsame (e : Option ε) : (⟨visited, s, e⟩ : Descent σ ε).Keeps path visited :=
    ⟨List.Subset.refl _, fun _ _ h => h⟩
  by_cases hv : id ∈ visited
  · rw [descend_of_visited hv]
    exact hsame none
  by_cases hp : id ∈ path
  · rw [descend_of_onPath hv hp]
    exact hsame _
  cases hn : g.node? id with
  | none =>
    rw [descend_of_missing hv hp hn]
    exact hsame _
  | some n =>
    have hargs := descendAll_keeps (ih id n hp hn) n.args visited s
    cases hd : descendAll g ofGraph visit (id :: path) n.args visited s with
    | mk visited' s' failure =>
      rw [hd] at hargs
      have hfresh (p : NodeId) (hpath : p ∈ path) : p ∉ visited → p ∉ visited' :=
        hargs.fresh p (List.mem_cons_of_mem _ hpath)
      cases failure with
      | none =>
        rw [descend_of_args hv hp hn hd]
        refine ⟨fun p hmem => List.mem_cons_of_mem _ (hargs.visited_subset hmem),
          fun p hpath hnew hmem => ?_⟩
        rcases List.mem_cons.mp hmem with rfl | hmem
        · exact hp hpath
        · exact hfresh p hpath hnew hmem
      | some e =>
        rw [descend_of_failed hv hp hn hd]
        exact ⟨hargs.visited_subset, hfresh⟩

/-! ## The stack does what the recursion does -/

/-- The walk goes on with the steps where the recursion ended, or it ends as the recursion did. -/
def Resumes (g : Graph) (ofGraph : GraphError → ε) (visit : Visitor σ ε) (rest : List Step)
    (path : List NodeId) (o : Outcome σ ε) : Descent σ ε → Prop
  | ⟨visited, s, none⟩ => o = advance g ofGraph visit rest ⟨visited, path⟩ s
  | ⟨visited, s, some e⟩ => o.trail.visited = visited ∧ o.state = s ∧ o.error = some e

/-- Nodes that were left out when the others were put on the stack are passed over by the
recursion. -/
theorem descendAll_resumes
    (h : ∀ id visited s rest, Resumes g ofGraph visit rest path
      (advance g ofGraph visit (.enter id :: rest) ⟨visited, path⟩ s)
      (descend g ofGraph visit path id visited s))
    (ids : List NodeId) {before visited : List NodeId} (hbefore : before ⊆ visited) (s : σ)
    (rest : List Step) :
    Resumes g ofGraph visit rest path
      (advance g ofGraph visit ((ids.filter (· ∉ before)).map .enter ++ rest) ⟨visited, path⟩ s)
      (descendAll g ofGraph visit path ids visited s) := by
  induction ids generalizing visited s with
  | nil =>
    rw [descendAll_nil]
    exact rfl
  | cons id ids ih =>
    by_cases hmem : id ∈ before
    · rw [descendAll_cons (descend_of_visited (hbefore hmem)),
        List.filter_cons_of_neg (by simpa using hmem)]
      exact ih hbefore s
    · rw [List.filter_cons_of_pos (by simpa using hmem), List.map_cons, List.cons_append]
      have hfirst := h id visited s ((ids.filter (· ∉ before)).map .enter ++ rest)
      have hkeeps := descend_keeps g ofGraph visit path id visited s
      cases hd : descend g ofGraph visit path id visited s with
      | mk visited' s' failure =>
        rw [hd] at hfirst hkeeps
        cases failure with
        | none =>
          rw [descendAll_cons hd, hfirst]
          exact ih (List.Subset.trans hbefore hkeeps.visited_subset) s'
        | some e =>
          rw [descendAll_cons_of_failed hd]
          exact hfirst

/-- To enter a node does what the recursion does. -/
theorem descend_resumes (g : Graph) (ofGraph : GraphError → ε) (visit : Visitor σ ε)
    (path : List NodeId) (id : NodeId) (visited : List NodeId) (s : σ) (rest : List Step) :
    Resumes g ofGraph visit rest path
      (advance g ofGraph visit (.enter id :: rest) ⟨visited, path⟩ s)
      (descend g ofGraph visit path id visited s) := by
  induction path using induction_on_path (g := g) generalizing id visited s rest with
  | step path ih =>
  by_cases hv : id ∈ visited
  · rw [descend_of_visited hv, advance_enter_of_visited hv]
    exact rfl
  by_cases hp : id ∈ path
  · rw [descend_of_onPath hv hp, advance_enter_of_onPath hv hp]
    exact ⟨rfl, rfl, rfl⟩
  cases hn : g.node? id with
  | none =>
    rw [descend_of_missing hv hp hn, advance_enter_of_missing hv hp hn]
    exact ⟨rfl, rfl, rfl⟩
  | some n =>
    rw [advance_enter hv hp hn, stepsInto, List.append_assoc]
    have hargs := descendAll_resumes (ih id n hp hn) n.args (List.Subset.refl visited) s
      ([.leave id] ++ rest)
    have hkeeps := descendAll_keeps (descend_keeps g ofGraph visit (id :: path)) n.args visited s
    cases hd : descendAll g ofGraph visit (id :: path) n.args visited s with
    | mk visited' s' failure =>
      rw [hd] at hargs hkeeps
      cases failure with
      | some e =>
        rw [descend_of_failed hv hp hn hd]
        exact hargs
      | none =>
        have hnew : id ∉ visited' := hkeeps.fresh id List.mem_cons_self hv
        have hleave : Trail.leave ⟨visited', id :: path⟩ id = ⟨id :: visited', path⟩ :=
          leave_of_onPath_eq rfl
        rw [descend_of_args hv hp hn hd, Trail.enter, hargs, List.singleton_append]
        cases hs : visit id s' with
        | mk s'' failure =>
          cases failure with
          | none =>
            rw [advance_leave hnew hs, hleave]
            exact rfl
          | some e =>
            rw [advance_leave_of_failed hnew hs, hleave]
            exact ⟨rfl, rfl, rfl⟩

end Simulation

/-- Walking from one output after the other does what the recursion over the outputs does. -/
theorem fromOutputs_eq_descendAll (g : Graph) (ofGraph : GraphError → ε) (visit : Visitor σ ε)
    (outputs visited : List NodeId) (s : σ) :
    let o := fromOutputs g ofGraph visit outputs ⟨visited, []⟩ s
    let d := descendAll g ofGraph visit [] outputs visited s
    o.trail.visited = d.visited ∧ o.state = d.state ∧ o.error = d.error := by
  induction outputs generalizing visited s with
  | nil =>
    rw [descendAll_nil]
    exact ⟨rfl, rfl, rfl⟩
  | cons output rest ih =>
    have hfirst := descend_resumes g ofGraph visit [] output visited s []
    cases hd : descend g ofGraph visit [] output visited s with
    | mk visited' s' failure =>
      rw [hd] at hfirst
      cases failure with
      | none =>
        have hgoesOn := hfirst.trans advance_nil
        rw [fromOutputs_cons (by rw [hgoesOn]), hgoesOn, descendAll_cons hd]
        exact ih visited' s'
      | some e =>
        rw [fromOutputs_cons_of_failed hfirst.2.2, descendAll_cons_of_failed hd]
        exact hfirst

end Walk

namespace Graph

/-- Visits what the outputs reach by recursion, one output after the other. -/
def descend (g : Graph) (ofGraph : GraphError → ε) (visit : Walk.Visitor σ ε) (s : σ) :
    Walk.Descent σ ε :=
  Walk.descendAll g ofGraph visit [] g.outputs [] s

/-- The course is the recursion from all outputs that only keeps its visits. -/
theorem course_eq_descendAll (g : Graph) :
    g.course.state = (Walk.descendAll g id Walk.keepVisits [] g.outputs [] []).state ∧
      g.course.error = (Walk.descendAll g id Walk.keepVisits [] g.outputs [] []).error :=
  (Walk.fromOutputs_eq_descendAll g id Walk.keepVisits g.outputs [] []).2

/-- The visitor that also keeps its visits. -/
def keepingVisits (visit : Walk.Visitor σ ε) : Walk.Visitor (σ × List NodeId) ε := fun id s =>
  (((visit id s.1).1, s.2 ++ [id]), (visit id s.1).2)

/-- The walk with a stack and the recursion over arguments make the same visits in the same order,
leave the same nodes visited and the visitor in the same state, and end with the same error, if with
any, whether it is one of the visitor or of the graph. -/
theorem walk_eq_descend (g : Graph) (ofGraph : GraphError → ε) (visit : Walk.Visitor σ ε) (s : σ) :
    (g.walk ofGraph (keepingVisits visit) (s, [])).state.2 =
        (g.descend ofGraph (keepingVisits visit) (s, [])).state.2 ∧
      (g.walk ofGraph visit s).trail.visited = (g.descend ofGraph visit s).visited ∧
      (g.walk ofGraph visit s).state = (g.descend ofGraph visit s).state ∧
      (g.walk ofGraph visit s).error = (g.descend ofGraph visit s).error := by
  have hvisits :=
    Walk.fromOutputs_eq_descendAll g ofGraph (keepingVisits visit) g.outputs [] (s, [])
  exact ⟨congrArg Prod.snd hvisits.2.1,
    Walk.fromOutputs_eq_descendAll g ofGraph visit g.outputs [] s⟩

end Graph

end GraphSurvey
