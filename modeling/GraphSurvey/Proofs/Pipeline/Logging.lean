import GraphSurvey.Proofs.Pipeline.Events
import Mathlib

/-!
# Logs of hooks

A pass may keep a log of its hooks that were called, beside its state. Nobody sees the log during a
run: the hooks do what they do without it, and the run gives the same. What the log holds in the end
is what was called, so a statement about it is a statement about the hooks of every pass, whatever
they do and whatever their states are.

## Main definitions

* `GraphSurvey.HookCall`, `GraphSurvey.Graph.hookCall?` — a hook that is called at a node.
* `GraphSurvey.Pass.logging`, `GraphSurvey.Pipeline.logging` — passes that keep a log.
* `GraphSurvey.Pipeline.progress` — what a run has come to when its visits are over.

## Main results

* `GraphSurvey.Pipeline.visit_logged` — a visit calls one hook of every pass.
* `GraphSurvey.Pipeline.run_logging`, `GraphSurvey.Pipeline.progress_logging` — a run with logs
  gives the same, and every log holds the hook of every node in the order of the visits.
-/

namespace GraphSurvey

/-- A hook of a pass and the node at which it is called. -/
inductive HookCall where
  | call (id : NodeId) (c : Call)
  | leaf (n : Node)

/-- The hook that is called at a node: of a call the one for calls, of a variable or a constant the
one for leaves. -/
def Graph.hookCall? (g : Graph) (id : NodeId) : Option HookCall :=
  (g.node? id).map fun n =>
    match n.kind with
    | .call c => .call id c
    | .var .. | .constant .. => .leaf n

/-- What is done with the result of a program leaves its effects as they are. -/
theorem Hook.run_bind_done {α β : Type} (h : Hook α) (f : α → β) (a : Access) (id : NodeId)
    (notes : Notes) :
    (h.bind fun r => .done (f r)).run a id notes =
      ((h.run a id notes).1, (h.run a id notes).2.map f) := by
  induction h generalizing notes with
  | done r => rfl
  | fail e => rfl
  | set field v next ih =>
    rw [bind, run, run]
    cases a.writeError? field v.kind with
    | none => exact ih none _
    | some e => exact ih (some e) notes
  | get other field next ih =>
    rw [bind, run, run]
    cases a.readError? field with
    | none => exact ih (.ok _) notes
    | some e => exact ih (.error e) notes
  | anomaly message next ih => exact ih _

namespace Pass

/-- The pass that also keeps a log of its hooks that were called. -/
def logging (pass : Pass) : Pass where
  access := pass.access
  State := pass.State × List HookCall
  start := (pass.start, [])
  onCall g id c s :=
    (pass.onCall g id c s.1).bind fun state => .done (state, s.2 ++ [.call id c])
  onLeaf n s := (pass.onLeaf n s.1, s.2 ++ [.leaf n])
  onSummarize s details := pass.onSummarize s.1 details

/-- The hook for calls does what it does without a log. -/
theorem run_onCall_logging (pass : Pass) (g : Graph) (id : NodeId) (c : Call) (state : pass.State)
    (log : List HookCall) (notes : Notes) :
    (pass.logging.onCall g id c (state, log)).run pass.access id notes =
      (((pass.onCall g id c state).run pass.access id notes).1,
        ((pass.onCall g id c state).run pass.access id notes).2.map fun state =>
          (state, log ++ [.call id c])) :=
  Hook.run_bind_done _ _ _ _ _

/-- The pass in its state, with a log. -/
def Running.logged (log : List HookCall) (r : Running) : Running :=
  ⟨r.pass.logging, (r.state, log)⟩

end Pass

namespace Pipeline

open Pass

/-- The pipeline whose passes keep logs. -/
def logging (p : Pipeline) : Pipeline := ⟨p.passes.map Pass.logging⟩

/-- What a run has come to when its visits are over. -/
def progress (p : Pipeline) (g : Graph) : Progress := (g.walk .graph (visit g) p.start).state

/-- The passes with a log each, and what they have left. -/
def Progress.logged (log : List HookCall) (s : Progress) : Progress :=
  ⟨s.passes.map (Running.logged log), s.notes⟩

variable {p : Pipeline} {g : Graph} {id : NodeId} {n : Node} {c : Call} {s s' t : Progress}
  {log : List HookCall} {order : List NodeId}

/-! ## Visits -/

theorem hookCall?_call (hn : g.node? id = some n) (hc : n.kind = .call c) :
    g.hookCall? id = some (.call id c) := by
  rw [Graph.hookCall?, hn, Option.map_some, hc]

theorem hookCall?_leaf (hn : g.node? id = some n) (hleaf : ∀ c, n.kind ≠ .call c) :
    g.hookCall? id = some (.leaf n) := by
  rw [Graph.hookCall?, hn, Option.map_some]
  cases hk : n.kind with
  | call c => exact absurd hk (hleaf c)
  | var => rfl
  | constant => rfl

/-- At a call every pass logs its hook for calls. -/
theorem visitCall_logged {rs : List Running} {notes : Notes} (log : List HookCall)
    (h : visitCall g id c rs notes = (t, none)) :
    visitCall g id c (rs.map (Running.logged log)) notes =
      (t.logged (log ++ [.call id c]), none) := by
  induction rs generalizing notes t with
  | nil =>
    cases h
    rfl
  | cons r rest ih =>
    obtain ⟨notes', state, t', hrun, hrest, rfl⟩ := visitCall_cons_eq_none h
    have hlogged := r.pass.run_onCall_logging g id c r.state log notes
    rw [hrun] at hlogged
    exact visitCall_cons (r := r.logged log) hlogged (ih hrest)

/-- A visit that succeeds calls one hook of every pass. -/
theorem visit_logged (log : List HookCall) (h : visit g id s = (s', none)) :
    ∃ hook, g.hookCall? id = some hook ∧
      visit g id (s.logged log) = (s'.logged (log ++ [hook]), none) := by
  obtain ⟨n, hn, ⟨c, hc⟩ | hleaf⟩ := exists_node_of_visit h
  · rw [visit_call hn hc] at h
    refine ⟨.call id c, hookCall?_call hn hc, ?_⟩
    rw [visit_call hn hc]
    exact visitCall_logged log h
  · rw [visit_leaf hn hleaf, Prod.mk.injEq] at h
    obtain ⟨rfl, -⟩ := h
    refine ⟨.leaf n, hookCall?_leaf hn hleaf, ?_⟩
    rw [visit_leaf hn hleaf, Progress.logged, Progress.logged, visitLeaf, visitLeaf,
      List.map_map, List.map_map]
    rfl

/-- Visits that succeed call one hook of every pass at every node, in their order. -/
theorem visitAll_logged (log : List HookCall)
    (h : Walk.visitAll (visit g) order s = (s', none)) :
    Walk.visitAll (visit g) order (s.logged log) =
      (s'.logged (log ++ order.filterMap g.hookCall?), none) := by
  induction order generalizing s log with
  | nil =>
    obtain rfl := (Prod.mk.inj h).1
    rw [List.filterMap_nil, List.append_nil]
    rfl
  | cons id rest ih =>
    cases hv : visit g id s with
    | mk s₁ failure =>
      cases failure with
      | none =>
        -- the logs of the other visits go on from the log of this one
        obtain ⟨hook, hhook, hlogged⟩ := visit_logged log hv
        rw [Walk.visitAll_cons hv] at h
        rw [Walk.visitAll_cons hlogged, ih _ h, List.filterMap_cons_some hhook, List.append_assoc]
        rfl
      | some e =>
        rw [Walk.visitAll_cons_of_failed hv] at h
        exact absurd (congrArg Prod.snd h) (by simp)

/-! ## Runs -/

theorem progress_eq (horder : g.order = .ok order)
    (h : Walk.visitAll (visit g) order p.start = (s, none)) : p.progress g = s := by
  obtain ⟨-, rfl⟩ := Graph.order_eq_ok_iff.mp horder
  rw [progress, (g.walk_follows .graph (visit g) p.start).state, h]

theorem start_logging (p : Pipeline) : p.logging.start = p.start.logged [] := by
  rw [start, start, logging, Progress.logged, List.map_map, List.map_map]
  rfl

theorem mergeSummaries_logged (details : DetailStore) (rs : List Running) (produced : Produced) :
    mergeSummaries details (rs.map (Running.logged log)) produced =
      mergeSummaries details rs produced := by
  induction rs generalizing produced with
  | nil => rfl
  | cons r rest ih =>
    rw [List.map_cons, mergeSummaries, mergeSummaries]
    simp only [ih]
    rfl

theorem conclude_logged (g : Graph) (s : Progress) (log : List HookCall) :
    conclude g (s.logged log) = conclude g s := by
  rw [conclude, conclude, Progress.logged, mergeSummaries_logged]

/-- In a run that succeeds the log of every pass holds its hook of every node, in the order of the
visits. -/
theorem progress_logging {r : Analysis} (horder : g.order = .ok order) (hr : p.run g = .ok r) :
    p.logging.progress g = (p.progress g).logged (order.filterMap g.hookCall?) := by
  obtain ⟨s, hs, -⟩ := visitAll_of_run horder hr
  have hlogged := visitAll_logged [] hs
  rw [← start_logging, List.nil_append] at hlogged
  rw [progress_eq horder hs, progress_eq horder hlogged]

/-- Logs change nothing of what a run gives. -/
theorem run_logging {r : Analysis} (hr : p.run g = .ok r) : p.logging.run g = .ok r := by
  obtain ⟨order, s, horder, hs, -⟩ := exists_order_of_run hr
  have hlogged := visitAll_logged [] hs
  rw [← start_logging] at hlogged
  rw [run_of_order horder hlogged, conclude_logged, ← run_of_order horder hs, hr]

end Pipeline

end GraphSurvey
