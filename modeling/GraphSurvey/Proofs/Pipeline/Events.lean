import GraphSurvey.Proofs.Pipeline.Turn
import GraphSurvey.Proofs.Walk.Course
import Mathlib

/-!
# The events of a run

A run is a sequence of turns: one pass at one node after the other. Its events say which pass had
its turn at which node and which anomalies it raised there. They are gathered beside the run, and
gathering them changes nothing of it.

## Main definitions

* `GraphSurvey.Graph.callsIn` — the calls among nodes.
* `GraphSurvey.Event`, `GraphSurvey.Pipeline.events` — the turns of a run in their order.
* `GraphSurvey.Pipeline.raised` — the anomalies that one pass raised during a run.

## Main results

* `GraphSurvey.Pipeline.run_eq` — a run is the visits of the nodes in their order, with an end.
* `GraphSurvey.Pipeline.anomalies_eq_events` — the anomalies of a run are those of its events.
* `GraphSurvey.CallVisit.Settles.callEvents_eq` — the events of a visit that the passes settle.
-/

namespace GraphSurvey

namespace Graph

/-- The call at a position. -/
def call? (g : Graph) (id : NodeId) : Option Call := (g.node? id).bind Node.call?

/-- The calls among nodes. -/
def callsIn (g : Graph) (ids : List NodeId) : List (NodeId × Call) :=
  ids.filterMap fun id => (g.call? id).map fun c => (id, c)

end Graph

/-- The turn of a pass at a node. -/
structure Event where
  /-- Where the pass stands in the pipeline. -/
  position : Nat
  node : NodeId
  /-- What it raised. -/
  raised : List Anomaly

namespace Pipeline

/-- The turns at a call of the passes from a position on, up to the first that fails. -/
def callEvents (g : Graph) (id : NodeId) (c : Call) :
    Nat → List Pass.Running → Notes → List Event
  | _, [], _ => []
  | k, r :: rest, notes =>
    match (r.pass.onCall g id c r.state).run r.pass.access id notes with
    | (later, .error _) => [⟨k, id, later.anomalies.drop notes.anomalies.length⟩]
    | (later, .ok _) =>
      ⟨k, id, later.anomalies.drop notes.anomalies.length⟩ ::
        callEvents g id c (k + 1) rest later

/-- The turns at a node. -/
def eventsAt (g : Graph) (id : NodeId) (s : Progress) : List Event :=
  match g.node? id with
  | none => []
  | some n =>
    match n.kind with
    | .call c =>
      callEvents g id c 0 s.passes { s.notes with store := s.notes.store.openEntry id }
    | .var .. | .constant .. => (List.range s.passes.length).map fun k => ⟨k, id, []⟩

/-- The visitor that also keeps the turns. -/
def watch (g : Graph) : Walk.Visitor (Progress × List Event) AnalysisError := fun id s =>
  (((visit g id s.1).1, s.2 ++ eventsAt g id s.1), (visit g id s.1).2)

/-- The turns of a run in their order. -/
def events (p : Pipeline) (g : Graph) : List Event :=
  (g.walk .graph (watch g) (p.start, [])).state.2

/-- The anomalies that the turns of the pass at a position raised. -/
def raisedBy (k : Nat) (events : List Event) : List Anomaly :=
  (events.filter fun e => e.position = k).flatMap Event.raised

/-- The anomalies that the pass at a position raised during a run. -/
def raised (p : Pipeline) (g : Graph) (k : Nat) : List Anomaly := raisedBy k (p.events g)

variable {p : Pipeline} {g : Graph} {id : NodeId} {n : Node} {c : Call} {s : Progress}
  {order : List NodeId}

/-! ## Visits -/

theorem visit_missing (hn : g.node? id = none) (s : Progress) :
    visit g id s = (s, some (.graph (.nodeNotFound id))) := by
  rw [visit, hn]

theorem visit_call (hn : g.node? id = some n) (hc : n.kind = .call c) (s : Progress) :
    visit g id s =
      visitCall g id c s.passes ⟨s.notes.store.openEntry id, s.notes.anomalies⟩ := by
  simp only [visit, hn, hc]

theorem visit_leaf (hn : g.node? id = some n) (hleaf : ∀ c, n.kind ≠ .call c) (s : Progress) :
    visit g id s = (⟨visitLeaf n s.passes, s.notes⟩, none) := by
  simp only [visit, hn]
  cases hk : n.kind with
  | call c => exact absurd hk (hleaf c)
  | var => rfl
  | constant => rfl

theorem eventsAt_missing (hn : g.node? id = none) (s : Progress) : eventsAt g id s = [] := by
  rw [eventsAt, hn]

theorem eventsAt_call (hn : g.node? id = some n) (hc : n.kind = .call c) (s : Progress) :
    eventsAt g id s =
      callEvents g id c 0 s.passes ⟨s.notes.store.openEntry id, s.notes.anomalies⟩ := by
  simp only [eventsAt, hn, hc]

theorem eventsAt_leaf (hn : g.node? id = some n) (hleaf : ∀ c, n.kind ≠ .call c) (s : Progress) :
    eventsAt g id s = (List.range s.passes.length).map fun k => ⟨k, id, []⟩ := by
  simp only [eventsAt, hn]
  cases hk : n.kind with
  | call c => exact absurd hk (hleaf c)
  | var => rfl
  | constant => rfl

/-- A node is a call or it is none. -/
theorem call_or_leaf (n : Node) : (∃ c, n.kind = .call c) ∨ ∀ c, n.kind ≠ .call c := by
  cases hk : n.kind with
  | call c => exact .inl ⟨c, rfl⟩
  | var => exact .inr nofun
  | constant => exact .inr nofun

/-- A visit that succeeds is the visit of a node. -/
theorem exists_node_of_visit {s' : Progress} (h : visit g id s = (s', none)) :
    ∃ n, g.node? id = some n ∧ ((∃ c, n.kind = .call c) ∨ ∀ c, n.kind ≠ .call c) := by
  cases hn : g.node? id with
  | none =>
    rw [visit_missing hn] at h
    exact absurd (congrArg Prod.snd h) (by simp)
  | some n => exact ⟨n, rfl, call_or_leaf n⟩

/-! ## Calls -/

section Calls

variable {done : List NodeId}

theorem call?_call (hn : g.node? id = some n) (hc : n.kind = .call c) : g.call? id = some c := by
  rw [Graph.call?, hn, Option.bind_some, Node.call?, hc]

theorem call?_leaf (hn : g.node? id = some n) (hleaf : ∀ c, n.kind ≠ .call c) :
    g.call? id = none := by
  rw [Graph.call?, hn, Option.bind_some, Node.call?]
  cases hk : n.kind with
  | call c => exact absurd hk (hleaf c)
  | var => rfl
  | constant => rfl

theorem callsIn_append_call (hn : g.node? id = some n) (hc : n.kind = .call c) :
    g.callsIn (done ++ [id]) = g.callsIn done ++ [(id, c)] := by
  rw [Graph.callsIn, List.filterMap_append]
  simp [Graph.callsIn, call?_call hn hc]

theorem callsIn_append_leaf (hn : g.node? id = some n) (hleaf : ∀ c, n.kind ≠ .call c) :
    g.callsIn (done ++ [id]) = g.callsIn done := by
  rw [Graph.callsIn, List.filterMap_append]
  simp [Graph.callsIn, call?_leaf hn hleaf]

theorem mem_callsIn_iff : (id, c) ∈ g.callsIn done ↔ id ∈ done ∧ g.call? id = some c := by
  simp only [Graph.callsIn, List.mem_filterMap, Option.map_eq_some_iff, Prod.mk.injEq]
  constructor
  · rintro ⟨_, hid, _, hcall, rfl, rfl⟩
    exact ⟨hid, hcall⟩
  · rintro ⟨hid, hcall⟩
    exact ⟨id, hid, c, hcall, rfl, rfl⟩

theorem mem_of_mem_callsIn (h : id ∈ (g.callsIn done).map Prod.fst) :
    id ∈ done ∧ ∃ c, g.call? id = some c := by
  obtain ⟨⟨_, c⟩, hcall, rfl⟩ := List.mem_map.mp h
  obtain ⟨hid, hc⟩ := mem_callsIn_iff.mp hcall
  exact ⟨hid, c, hc⟩

end Calls

/-! ## Runs -/

/-- What a run gives when its visits are over. -/
def conclude (g : Graph) (s : Progress) : Except AnalysisError Analysis :=
  match mergeSummaries s.notes.store s.passes ∅ with
  | .error e => .error e
  | .ok produced => .ok ⟨g.name, s.notes.store, summaryOf produced, s.notes.anomalies⟩

/-- A run is the visits of its course, followed by the error of the course or the summaries. -/
theorem run_eq (p : Pipeline) (g : Graph) :
    p.run g =
      match Walk.visitAll (visit g) g.course.state p.start, g.course.error with
      | (_, some e), _ => .error e
      | (_, none), some e => .error (.graph e)
      | (s, none), none => conclude g s := by
  have hfollows := g.walk_follows .graph (visit g) p.start
  have hstate := hfollows.state
  have herror := hfollows.error
  rw [run]
  cases hw : g.walk .graph (visit g) p.start with
  | mk trail s failure =>
    rw [hw] at hstate herror
    cases hv : Walk.visitAll (visit g) g.course.state p.start with
    | mk s' failure' =>
      rw [hv] at hstate herror
      obtain rfl : s = s' := hstate
      cases failure' with
      | some e =>
        obtain rfl : failure = some e := herror
        rfl
      | none =>
        obtain rfl : failure = g.course.error.map .graph := herror
        cases g.course.error with
        | some e => rfl
        | none => rfl

theorem run_of_order (horder : g.order = .ok order)
    (h : Walk.visitAll (visit g) order p.start = (s, none)) : p.run g = conclude g s := by
  obtain ⟨herror, rfl⟩ := Graph.order_eq_ok_iff.mp horder
  rw [run_eq, h, herror]

/-- In a run that succeeds the nodes have an order, and all visits succeed. -/
theorem exists_order_of_run {r : Analysis} (h : p.run g = .ok r) :
    ∃ order s, g.order = .ok order ∧ Walk.visitAll (visit g) order p.start = (s, none) ∧
      r.details = s.notes.store ∧ r.anomalies = s.notes.anomalies := by
  rw [run_eq] at h
  split at h
  case h_1 => cases h
  case h_2 => cases h
  case h_3 s hv herror =>
    rw [conclude] at h
    split at h
    case h_1 => cases h
    case h_2 =>
      cases h
      exact ⟨_, s, Graph.order_eq_ok_iff.mpr ⟨herror, rfl⟩, hv, rfl, rfl⟩

/-- In a run that succeeds all visits do, in the order of the nodes. -/
theorem visitAll_of_run {r : Analysis} (horder : g.order = .ok order) (h : p.run g = .ok r) :
    ∃ s, Walk.visitAll (visit g) order p.start = (s, none) ∧ r.details = s.notes.store := by
  obtain ⟨order', s, horder', hs, hdetails, -⟩ := exists_order_of_run h
  obtain rfl := Except.ok.inj (horder.symm.trans horder')
  exact ⟨s, hs, hdetails⟩

/-- A watched visit is the visit, and its turns are added to those before. -/
theorem visit_of_watch {t t' : Progress × List Event} (h : watch g id t = (t', none)) :
    visit g id t.1 = (t'.1, none) ∧ t'.2 = t.2 ++ eventsAt g id t.1 := by
  rw [watch, Prod.mk.injEq] at h
  obtain ⟨rfl, hnone⟩ := h
  exact ⟨Prod.ext rfl hnone, rfl⟩

/-- Watching the visits of a run that succeeds changes nothing of them. -/
theorem visitAll_watch (horder : g.order = .ok order)
    (h : Walk.visitAll (visit g) order p.start = (s, none)) :
    Walk.visitAll (watch g) order (p.start, []) = ((s, p.events g), none) := by
  have hstep : ∀ id s (t : Progress × List Event) s', t.1 = s → visit g id s = (s', none) →
      ∃ t', watch g id t = (t', none) ∧ t'.1 = s' := by
    rintro id _ t s' rfl hv
    exact ⟨(s', t.2 ++ eventsAt g id t.1), by rw [watch, hv], rfl⟩
  obtain ⟨⟨_, later⟩, hlater, rfl⟩ := Walk.visitAll_rel (t := (p.start, [])) hstep rfl h
  have hevents : p.events g = later := by
    obtain ⟨-, rfl⟩ := Graph.order_eq_ok_iff.mp horder
    rw [events, (g.walk_follows .graph (watch g) (p.start, [])).state, hlater]
  rw [hlater, hevents]

theorem watch_leaf (hn : g.node? id = some n) (hleaf : ∀ c, n.kind ≠ .call c)
    (s : Progress × List Event) :
    watch g id s =
      ((⟨visitLeaf n s.1.passes, s.1.notes⟩,
        s.2 ++ (List.range s.1.passes.length).map fun k => ⟨k, id, []⟩), none) := by
  rw [watch, visit_leaf hn hleaf, eventsAt_leaf hn hleaf]

/-! ## Anomalies -/

/-- After the turn of the first pass come those of the others. -/
theorem callEvents_cons {r : Pass.Running} {rest : List Pass.Running} {state : r.pass.State}
    {store later : DetailStore} {anomalies raised : List Anomaly} {k : Nat}
    (hrun : (r.pass.onCall g id c r.state).run r.pass.access id ⟨store, anomalies⟩ =
      (⟨later, anomalies ++ raised⟩, .ok state)) :
    callEvents g id c k (r :: rest) ⟨store, anomalies⟩ =
      ⟨k, id, raised⟩ :: callEvents g id c (k + 1) rest ⟨later, anomalies ++ raised⟩ := by
  rw [callEvents, hrun]
  simp only [List.drop_left]

@[simp] theorem raisedBy_append (k : Nat) (events later : List Event) :
    raisedBy k (events ++ later) = raisedBy k events ++ raisedBy k later := by
  simp [raisedBy]

/-- A turn adds anomalies to those before it. -/
theorem anomalies_run {α : Type} (h : Hook α) (a : Access) (id : NodeId) (notes : Notes) :
    (h.run a id notes).1.anomalies =
      notes.anomalies ++ (h.run a id notes).1.anomalies.drop notes.anomalies.length := by
  rw [Hook.run_eq, List.drop_left]

theorem anomalies_visitCall (g : Graph) (id : NodeId) (c : Call) (k : Nat)
    (rs : List Pass.Running) (notes : Notes) :
    (visitCall g id c rs notes).1.notes.anomalies =
      notes.anomalies ++ (callEvents g id c k rs notes).flatMap Event.raised := by
  induction rs generalizing notes k with
  | nil => simp [visitCall, callEvents]
  | cons r rest ih =>
    have hadded := anomalies_run (r.pass.onCall g id c r.state) r.pass.access id notes
    rw [visitCall, callEvents]
    cases hrun : (r.pass.onCall g id c r.state).run r.pass.access id notes with
    | mk later result =>
      rw [hrun] at hadded
      cases result with
      | error e => simpa using hadded
      | ok state =>
        show (visitCall g id c rest later).1.notes.anomalies = _
        rw [ih (k + 1) later, hadded, List.flatMap_cons, List.append_assoc]

theorem anomalies_visit (g : Graph) (id : NodeId) (s : Progress) :
    (visit g id s).1.notes.anomalies =
      s.notes.anomalies ++ (eventsAt g id s).flatMap Event.raised := by
  cases hn : g.node? id with
  | none =>
    rw [visit_missing hn, eventsAt_missing hn]
    simp
  | some n =>
    rcases call_or_leaf n with ⟨c, hc⟩ | hleaf
    · rw [visit_call hn hc, eventsAt_call hn hc]
      exact anomalies_visitCall g id c 0 _ _
    · rw [visit_leaf hn hleaf, eventsAt_leaf hn hleaf, List.flatMap_map]
      simp

/-- The anomalies of a run are those that its turns raised. -/
theorem anomalies_eq_events {r : Analysis} (h : p.run g = .ok r) :
    r.anomalies = (p.events g).flatMap Event.raised := by
  obtain ⟨order, s, horder, hv, -, hanomalies⟩ := exists_order_of_run h
  have hkeep : ∀ id (t t' : Progress × List Event),
      t.1.notes.anomalies = t.2.flatMap Event.raised → watch g id t = (t', none) →
        t'.1.notes.anomalies = t'.2.flatMap Event.raised := by
    intro id t t' ht hwatch
    obtain rfl := congrArg Prod.fst hwatch
    show (visit g id t.1).1.notes.anomalies = (t.2 ++ eventsAt g id t.1).flatMap Event.raised
    rw [anomalies_visit, ht, List.flatMap_append]
  have hall : s.notes.anomalies = (p.events g).flatMap Event.raised :=
    Walk.visitAll_invariant (motive := fun t => t.1.notes.anomalies = t.2.flatMap Event.raised)
      hkeep rfl (visitAll_watch horder hv)
  exact hanomalies.trans hall

end Pipeline

/-! ## Settled visits -/

namespace CallVisit

open Pipeline

variable {v : CallVisit} {passes : List Pass} {s : DetailStore} {anomalies : List Anomaly}

/-- In a visit that the passes settle every pass has its turn, in order. -/
theorem Settles.callEvents_eq (h : v.Settles passes) (hturn : InTurn passes)
    (hs : s.field? = v.before) (k : Nat) :
    callEvents v.graph v.node v.call k (passes.map (Pass.running v.states)) ⟨s, anomalies⟩ =
      passes.mapIdx fun i pass => ⟨k + i, v.node, (v.turn pass).raised⟩ := by
  induction passes generalizing v s anomalies k with
  | nil => rfl
  | cons pass rest ih =>
    have hrest : callEvents v.graph v.node v.call (k + 1) (rest.map (Pass.running v.states))
        ⟨s.recordAll v.node (v.turn pass).writes, anomalies ++ (v.turn pass).raised⟩ =
          rest.mapIdx fun i other => ⟨k + (i + 1), v.node, (v.turn other).raised⟩ := by
      refine (ih (h.afterTurn hturn) hturn.tail (field?_recordAll_turn hs) (k + 1)).trans ?_
      refine List.mapIdx_eq_mapIdx_iff.mpr fun i hi => ?_
      rw [turn_afterTurn fun _ => hturn.not_owns_of_owns (List.getElem_mem hi), Nat.add_assoc,
        Nat.add_comm 1 i]
      rfl
    rw [List.map_cons, List.mapIdx_cons, ← hrest]
    exact callEvents_cons (h.run_eq hturn hs)

end CallVisit

namespace Pipeline

variable {passes : List Pass} {pass : Pass}

theorem raisedBy_eq_nil {k : Nat} {events : List Event} (h : ∀ e ∈ events, e.position ≠ k) :
    raisedBy k events = [] := by
  rw [raisedBy, List.filter_eq_nil_iff.mpr fun e he => by simpa using h e he]
  rfl

theorem raisedBy_mapIdx_add (node : NodeId) (f : Pass → List Anomaly) (j : Nat) {k : Nat}
    (h : passes[k]? = some pass) :
    raisedBy (j + k) (passes.mapIdx fun i pass => ⟨j + i, node, f pass⟩) = f pass := by
  induction passes generalizing j k with
  | nil => cases h
  | cons first rest ih =>
    have hrest : (rest.mapIdx fun i pass => (⟨j + (i + 1), node, f pass⟩ : Event)) =
        rest.mapIdx fun i pass => ⟨j + 1 + i, node, f pass⟩ := by
      refine List.mapIdx_eq_mapIdx_iff.mpr fun i _ => ?_
      rw [Nat.add_assoc, Nat.add_comm 1 i]
    rw [List.mapIdx_cons, hrest]
    cases k with
    | zero =>
      obtain rfl : first = pass := Option.some.inj h
      have hlater : raisedBy j (rest.mapIdx fun i pass => ⟨j + 1 + i, node, f pass⟩) = [] := by
        refine raisedBy_eq_nil fun e he => ?_
        obtain ⟨i, _, rfl⟩ := List.mem_mapIdx.mp he
        show j + 1 + i ≠ j
        omega
      rw [← List.singleton_append, raisedBy_append, Nat.add_zero, hlater]
      simp [raisedBy]
    | succ k =>
      rw [← List.singleton_append, raisedBy_append, raisedBy_eq_nil (by simp),
        List.nil_append, ← ih (j + 1) h]
      congr 1
      omega

/-- No turn at a variable or a constant raises an anomaly. -/
@[simp] theorem raisedBy_quiet (k : Nat) (node : NodeId) (positions : List Nat) :
    raisedBy k (positions.map fun k => (⟨k, node, []⟩ : Event)) = [] := by
  simp [raisedBy]

/-- Of the turns at a node one is that of the pass at a position. -/
theorem raisedBy_mapIdx (node : NodeId) (f : Pass → List Anomaly) {k : Nat}
    (h : passes[k]? = some pass) :
    raisedBy k (passes.mapIdx fun i pass => ⟨i, node, f pass⟩) = f pass := by
  have hall := raisedBy_mapIdx_add node f 0 h
  simpa only [Nat.zero_add] using hall

end Pipeline

namespace CallVisit

open Pipeline

variable {v : CallVisit} {passes : List Pass} {n : Node} {s : Progress}

/-- A call is visited if the passes settle the visit. -/
theorem Settles.visit_eq (h : v.Settles passes) (hturn : InTurn passes)
    (hn : v.graph.node? v.node = some n) (hc : n.kind = .call v.call)
    (hs : s.passes = passes.map (Pass.running v.states))
    (hbefore : s.notes.store.field? = v.before) :
    ∃ store : DetailStore, store.field? = v.after ∧
      store.nodes = (s.notes.store.openEntry v.node).nodes ∧
      visit v.graph v.node s =
        (⟨passes.map (Pass.running v.statesAfter),
          ⟨store, s.notes.anomalies ++ passes.flatMap fun pass => (v.turn pass).raised⟩⟩,
          none) := by
  have hopened : (s.notes.store.openEntry v.node).field? = v.before := by
    rw [DetailStore.field?_openEntry, hbefore]
  rw [visit_call hn hc, hs]
  exact h.visitCall_eq hturn hopened (DetailStore.mem_nodes_openEntry _ _) _

/-- The passes have their turns at a call in order if they settle the visit. -/
theorem Settles.watch_eq (h : v.Settles passes) (hturn : InTurn passes)
    (hn : v.graph.node? v.node = some n) (hc : n.kind = .call v.call)
    (hs : s.passes = passes.map (Pass.running v.states))
    (hbefore : s.notes.store.field? = v.before) (events : List Event) :
    ∃ store : DetailStore, store.field? = v.after ∧
      store.nodes = (s.notes.store.openEntry v.node).nodes ∧
      watch v.graph v.node (s, events) =
        ((⟨passes.map (Pass.running v.statesAfter),
            ⟨store, s.notes.anomalies ++ passes.flatMap fun pass => (v.turn pass).raised⟩⟩,
          events ++ passes.mapIdx fun i pass => ⟨i, v.node, (v.turn pass).raised⟩), none) := by
  have hopened : (s.notes.store.openEntry v.node).field? = v.before := by
    rw [DetailStore.field?_openEntry, hbefore]
  obtain ⟨store, hfield, hnodes, heq⟩ := h.visit_eq hturn hn hc hs hbefore
  refine ⟨store, hfield, hnodes, ?_⟩
  rw [watch, heq, eventsAt_call hn hc, hs, h.callEvents_eq hturn hopened 0]
  simp only [Nat.zero_add]

/-- The passes settle a visit of a call that succeeds. -/
theorem settles_of_visit {g : Graph} {id : NodeId} {c : Call} {states : Pass.States} {t : Progress}
    (hturn : InTurn passes) (hn : g.node? id = some n) (hc : n.kind = .call c)
    (hs : s.passes = passes.map (Pass.running states)) (h : visit g id s = (t, none)) :
    Settles ⟨g, id, c, states, s.notes.store.field?, t.notes.store.field?⟩ passes := by
  rw [visit_call hn hc, hs] at h
  rw [← DetailStore.field?_openEntry s.notes.store id]
  exact settles_of_visitCall hturn h

theorem settles_of_watch {g : Graph} {id : NodeId} {c : Call} {states : Pass.States}
    {t : Progress × List Event} {events : List Event} (hturn : InTurn passes)
    (hn : g.node? id = some n) (hc : n.kind = .call c)
    (hs : s.passes = passes.map (Pass.running states)) (h : watch g id (s, events) = (t, none)) :
    Settles ⟨g, id, c, states, s.notes.store.field?, t.1.notes.store.field?⟩ passes :=
  settles_of_visit hturn hn hc hs (visit_of_watch h).1

end CallVisit

end GraphSurvey
