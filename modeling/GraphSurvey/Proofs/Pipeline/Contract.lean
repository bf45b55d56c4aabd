import GraphSurvey.Proofs.Pipeline.Isolation
import GraphSurvey.Proofs.Pipeline.Logging
import GraphSurvey.Proofs.Walk.Order
import Mathlib

/-!
# What every run keeps to

Whatever the passes of a pipeline do, a run that succeeds has an entry for every call and for no
other node, and what is recorded is covered by the declarations of one pass. Every pass has one turn
at every node, in the order of the visits, and it comes after all turns at the arguments of the node
and after those turns at the node itself whose fields the pass reads.

## Main definitions

* `GraphSurvey.Pipeline.Kept` — what holds of a run after some of the nodes.
* `GraphSurvey.Event.turn`, `GraphSurvey.HadTurn` — the turns of passes at nodes.
* `GraphSurvey.Pipeline.Contract` — what a run that succeeds keeps to.

## Main results

* `GraphSurvey.Pipeline.Kept.visit` — every visit keeps it.
* `GraphSurvey.Pipeline.turns_eq` — every pass has one turn at every node, in order.
* `GraphSurvey.Pipeline.run_contract` — every run that succeeds keeps to the contract.
-/

namespace GraphSurvey

/-- The node and the pass whose turn it was. -/
def Event.turn (e : Event) : NodeId × Nat := (e.node, e.position)

/-- The pass at a position had its turn at a node. -/
def HadTurn (events : List Event) (id : NodeId) (k : Nat) : Prop :=
  ∃ e ∈ events, e.node = id ∧ e.position = k

theorem hadTurn_iff {events : List Event} {id : NodeId} {k : Nat} :
    HadTurn events id k ↔ (id, k) ∈ events.map Event.turn := by
  simp only [HadTurn, List.mem_map, Event.turn, Prod.mk.injEq]

namespace Pipeline

open Pass Schedule

variable {passes : List Pass} {p : Pipeline} {g : Graph} {id : NodeId} {n : Node} {c : Call}
  {s s' t : Progress} {order done : List NodeId} {r : Analysis}

/-! ## What is recorded -/

/-- At a call the passes record fields of the call, each covered by the declarations of one of
them. -/
theorem exists_writes_of_visitCall {rs : List Running} {notes : Notes}
    (h : visitCall g id c rs notes = (t, none)) :
    ∃ writes : List (String × Value), t.notes.store = notes.store.recordAll id writes ∧
      ∀ w ∈ writes, ∃ r ∈ rs, r.pass.access.writeError? w.1 w.2.kind = none := by
  induction rs generalizing notes t with
  | nil =>
    cases h
    exact ⟨[], rfl, by simp⟩
  | cons r rest ih =>
    obtain ⟨notes', state, t', hrun, hrest, rfl⟩ := visitCall_cons_eq_none h
    obtain ⟨later, hstore, hlater⟩ := ih hrest
    rw [Hook.run_eq, Prod.mk.injEq] at hrun
    obtain ⟨rfl, -⟩ := hrun
    refine ⟨_ ++ later, hstore.trans (DetailStore.recordAll_append _ _ _ _).symm, fun w hw => ?_⟩
    rcases List.mem_append.mp hw with hfirst | hw
    · exact ⟨r, List.mem_cons_self, Hook.writeError?_of_mem_writes hfirst⟩
    · obtain ⟨r', hr', hcovered⟩ := hlater w hw
      exact ⟨r', List.mem_cons_of_mem _ hr', hcovered⟩

/-- No pass is lost at a call. -/
theorem map_pass_visitCall {rs : List Running} {notes : Notes}
    (h : visitCall g id c rs notes = (t, none)) :
    t.passes.map Running.pass = rs.map Running.pass := by
  induction rs generalizing notes t with
  | nil =>
    cases h
    rfl
  | cons r rest ih =>
    obtain ⟨notes', state, t', -, hrest, rfl⟩ := visitCall_cons_eq_none h
    rw [List.map_cons, List.map_cons, ih hrest]

/-- What holds of a run after some of the nodes, whatever the passes do: the calls among the nodes
have entries, and every recorded value is covered by the declarations of a pass. -/
structure Kept (p : Pipeline) (g : Graph) (done : List NodeId) (s : Progress) : Prop where
  passes : s.passes.map Running.pass = p.passes
  nodes : s.notes.store.nodes = (g.callsIn done).map Prod.fst
  covered : ∀ id field v, s.notes.store.field? id field = some v →
    ∃ pass ∈ p.passes, pass.access.writeError? field v.kind = none

theorem kept_start (p : Pipeline) (g : Graph) : Kept p g [] p.start where
  passes := by
    rw [start, List.map_map]
    exact List.map_id _
  nodes := rfl
  covered _ _ _ h := by cases h

theorem Kept.not_mem_nodes (h : Kept p g done s) (hid : id ∉ done) :
    id ∉ s.notes.store.nodes := by
  rw [h.nodes]
  exact fun hmem => hid (mem_of_mem_callsIn hmem).1

theorem Kept.visit_call (h : Kept p g done s) (hid : id ∉ done) (hn : g.node? id = some n)
    (hc : n.kind = .call c) (hvisit : visit g id s = (s', none)) :
    Kept p g (done ++ [id]) s' := by
  rw [Pipeline.visit_call hn hc] at hvisit
  obtain ⟨writes, hstore, hwrites⟩ := exists_writes_of_visitCall hvisit
  have hopened : id ∈ (s.notes.store.openEntry id).nodes := DetailStore.mem_nodes_openEntry _ _
  refine ⟨(map_pass_visitCall hvisit).trans h.passes, ?_, fun other field v hv => ?_⟩
  · rw [hstore, DetailStore.nodes_recordAll hopened,
      DetailStore.nodes_openEntry (h.not_mem_nodes hid), callsIn_append_call hn hc, h.nodes,
      List.map_append]
    rfl
  · -- a value is one that was recorded now, or it was there before
    rw [hstore, DetailStore.field?_recordAll, DetailStore.field?_openEntry] at hv
    rcases View.mem_or_eq_of_recordAll hv with hw | hheld
    · obtain ⟨r, hr, hcovered⟩ := hwrites _ hw
      exact ⟨r.pass, h.passes ▸ List.mem_map_of_mem hr, hcovered⟩
    · exact h.covered other field v hheld

theorem Kept.visit_leaf (h : Kept p g done s) (hn : g.node? id = some n)
    (hleaf : ∀ c, n.kind ≠ .call c) (hvisit : visit g id s = (s', none)) :
    Kept p g (done ++ [id]) s' := by
  rw [Pipeline.visit_leaf hn hleaf, Prod.mk.injEq] at hvisit
  obtain ⟨rfl, -⟩ := hvisit
  refine ⟨?_, ?_, h.covered⟩
  · rw [← h.passes, visitLeaf, List.map_map]
    rfl
  · rw [callsIn_append_leaf hn hleaf]
    exact h.nodes

/-- A visit of a node that was not visited before keeps what holds of a run. -/
theorem Kept.visit (h : Kept p g done s) (hid : id ∉ done)
    (hvisit : Pipeline.visit g id s = (s', none)) : Kept p g (done ++ [id]) s' := by
  obtain ⟨n, hn, ⟨c, hc⟩ | hleaf⟩ := exists_node_of_visit hvisit
  · exact h.visit_call hid hn hc hvisit
  · exact h.visit_leaf hn hleaf hvisit

/-! ## Turns -/

/-- At a call the passes have their turns in their order. -/
theorem map_turn_callEvents {rs : List Running} {notes : Notes}
    (h : visitCall g id c rs notes = (t, none)) (k : Nat) :
    (callEvents g id c k rs notes).map Event.turn =
      (List.range' k rs.length).map (Prod.mk id) := by
  induction rs generalizing notes t k with
  | nil => rfl
  | cons r rest ih =>
    obtain ⟨notes', state, t', hrun, hrest, -⟩ := visitCall_cons_eq_none h
    rw [callEvents, hrun, List.length_cons, List.range'_succ]
    simp only [List.map_cons, ih hrest]
    rfl

/-- At a node that is visited every pass has its turn. -/
theorem map_turn_eventsAt (h : visit g id s = (s', none)) :
    (eventsAt g id s).map Event.turn = (List.range s.passes.length).map (Prod.mk id) := by
  obtain ⟨n, hn, ⟨c, hc⟩ | hleaf⟩ := exists_node_of_visit h
  · rw [visit_call hn hc] at h
    rw [eventsAt_call hn hc, map_turn_callEvents h, List.range_eq_range']
  · rw [eventsAt_leaf hn hleaf, List.map_map]
    rfl

/-- What holds of a run after some nodes, together with the turns at these nodes. -/
def KeptTurns (p : Pipeline) (g : Graph) (done : List NodeId) (t : Progress × List Event) : Prop :=
  Kept p g done t.1 ∧ t.2.map Event.turn = done ×ˢ List.range p.passes.length

theorem KeptTurns.watch {t t' : Progress × List Event} (h : KeptTurns p g done t)
    (hid : id ∉ done) (hwatch : watch g id t = (t', none)) :
    KeptTurns p g (done ++ [id]) t' := by
  obtain ⟨hkept, hturns⟩ := h
  obtain ⟨hvisit, hevents⟩ := visit_of_watch hwatch
  have hlength : t.1.passes.length = p.passes.length := by
    rw [← hkept.passes, List.length_map]
  refine ⟨hkept.visit hid hvisit, ?_⟩
  rw [hevents, List.map_append, hturns, map_turn_eventsAt hvisit, hlength]
  simp [SProd.sprod, List.product]

/-- After all visits of an order in which every node stands once. -/
theorem keptTurns_of_visitAll (horder : g.order = .ok order)
    (hs : Walk.visitAll (visit g) order p.start = (s, none)) :
    KeptTurns p g order (s, p.events g) := by
  refine Walk.visitAll_visited_invariant (motive := KeptTurns p g) ?_ ?_
    (visitAll_watch horder hs)
  · intro done id rest t t' heq hdone hwatch
    exact hdone.watch (Graph.not_mem_before_of_order horder heq) hwatch
  · exact ⟨kept_start p g, rfl⟩

/-- What stands at the front of a list without an element stands before it. -/
theorem subset_before {α : Type} {front rest before after : List α} {x : α}
    (h : front ++ rest = before ++ x :: after) (hx : x ∉ front) : front ⊆ before := by
  rcases List.append_eq_append_iff.mp h with ⟨between, rfl, -⟩ | ⟨between, rfl, hrest⟩
  · exact List.subset_append_left _ _
  · cases between with
    | nil => simp
    | cons y between =>
      obtain ⟨rfl, -⟩ := List.cons.inj hrest
      exact absurd (List.mem_append_right _ List.mem_cons_self) hx

/-- When every pass has its turn at every node, in order, the turns of all passes at the nodes that
stand before a node and those of earlier passes at the node itself come before a turn at it. -/
theorem mem_before_turn {first later : List NodeId} {m k : Nat} {before after : List (NodeId × Nat)}
    (hid : id ∉ first) (h : (first ++ id :: later) ×ˢ List.range m = before ++ (id, k) :: after) :
    (∀ a ∈ first, ∀ j < m, (a, j) ∈ before) ∧ ∀ j < k, (id, j) ∈ before := by
  have hk : k < m := by
    have hmem : (id, k) ∈ (first ++ id :: later) ×ˢ List.range m := by
      rw [h]
      simp
    exact List.mem_range.mp (List.mem_product.mp hmem).2
  -- the turns in question are a front of the list, and the turn itself comes after it
  have hrange : List.range k ++ List.range' k (m - k) = List.range m := by
    have happend := List.range'_append_1 (s := 0) (m := k) (n := m - k)
    rw [Nat.zero_add, Nat.add_sub_cancel' hk.le] at happend
    rw [List.range_eq_range', List.range_eq_range']
    exact happend
  have hfront : (first ++ id :: later) ×ˢ List.range m =
      (first ×ˢ List.range m ++ (List.range k).map (Prod.mk id)) ++
        ((List.range' k (m - k)).map (Prod.mk id) ++ later ×ˢ List.range m) := by
    have happend : (first ++ id :: later) ×ˢ List.range m =
        first ×ˢ List.range m ++ ((List.range m).map (Prod.mk id) ++ later ×ˢ List.range m) := by
      simp [SProd.sprod, List.product]
    have hturns : (List.range m).map (Prod.mk id) =
        (List.range k).map (Prod.mk id) ++ (List.range' k (m - k)).map (Prod.mk id) := by
      rw [← List.map_append, hrange]
    rw [happend, hturns]
    simp only [List.append_assoc]
  have hnot : (id, k) ∉ first ×ˢ List.range m ++ (List.range k).map (Prod.mk id) := by
    simp [hid]
  have hsub := subset_before (hfront.symm.trans h) hnot
  constructor
  · intro a ha j hj
    exact hsub (List.mem_append_left _ (List.mem_product.mpr ⟨ha, List.mem_range.mpr hj⟩))
  · intro j hj
    exact hsub (List.mem_append_right _ (List.mem_map_of_mem (List.mem_range.mpr hj)))

/-- In a run that succeeds every pass has one turn at every node, in the order of the visits. -/
theorem turns_eq (horder : g.order = .ok order) (hr : p.run g = .ok r) :
    (p.events g).map Event.turn = order ×ˢ List.range p.passes.length := by
  obtain ⟨s, hs, -⟩ := visitAll_of_run horder hr
  exact (keptTurns_of_visitAll horder hs).2

/-- A turn comes after all turns at the nodes that stand before its node, and after the turns of
earlier passes at the node itself. -/
theorem hadTurn_before {before after : List Event} {e : Event} (horder : g.order = .ok order)
    (hr : p.run g = .ok r) (heq : p.events g = before ++ e :: after) :
    (∀ a, g.HasArg e.node a → ∀ k < p.passes.length, HadTurn before a k) ∧
      ∀ k < e.position, HadTurn before e.node k := by
  have hturns := turns_eq horder hr
  have hmem : e.turn ∈ order ×ˢ List.range p.passes.length := by
    rw [← hturns, heq]
    simp
  obtain ⟨first, later, rfl⟩ := List.append_of_mem (List.mem_product.mp hmem).1
  have hid : e.node ∉ first := Graph.not_mem_before_of_order horder rfl
  rw [heq, List.map_append, List.map_cons] at hturns
  obtain ⟨hargs, hnode⟩ := mem_before_turn hid hturns.symm
  constructor
  · intro a ha k hk
    exact hadTurn_iff.mpr (hargs a (Graph.arg_mem_of_order horder rfl ha) k hk)
  · intro k hk
    exact hadTurn_iff.mpr (hnode k hk)

/-! ## The contract -/

/-- The pass at a position is the one that declares to write a field. -/
def OwnedBy (p : Pipeline) (field : String) (o : Fin p.passes.length) : Prop :=
  ∀ i, Writes (accesses p.passes) i field ↔ i = o

/-- What a run that succeeds keeps to, with the order of its visits. -/
structure Contract (p : Pipeline) (g : Graph) (r : Analysis) (order : List NodeId) : Prop where
  /-- The calls have entries, in the order of the visits. -/
  nodes : r.details.nodes = (g.callsIn order).map Prod.fst
  leaf : ∀ id n, g.node? id = some n → (∀ c, n.kind ≠ .call c) → id ∉ r.details.nodes
  /-- What is recorded is declared by one pass, with its kind. -/
  field : ∀ id field v, r.details.field? id field = some v →
    ∃ o, p.OwnedBy field o ∧
      ∀ decl ∈ (accesses p.passes o).writes, decl.name = field → decl.kind = v.kind
  /-- With logs the passes give the same. -/
  logging : p.logging.run g = .ok r
  passes : (p.progress g).passes.map Running.pass = p.passes
  hook : ∀ id ∈ order, (g.hookCall? id).isSome
  /-- Every pass was called at every node once, in the order of the visits. -/
  log : p.logging.progress g = (p.progress g).logged (order.filterMap g.hookCall?)
  turns : (p.events g).map Event.turn = order ×ˢ List.range p.passes.length
  /-- A turn comes after the turns of all passes at the arguments. -/
  args : ∀ (before : List Event) (e : Event) (after : List Event),
    p.events g = before ++ e :: after →
      ∀ a, g.HasArg e.node a → ∀ k < p.passes.length, HadTurn before a k
  /-- A turn comes after those of the owners of the fields that the pass declares to read. -/
  owners : ∀ (before : List Event) (e : Event) (after : List Event),
    p.events g = before ++ e :: after →
      ∀ i : Fin p.passes.length, e.position = i → ∀ field ∈ (accesses p.passes i).reads,
        ∃ o, p.OwnedBy field o ∧ (o ≠ i → HadTurn before e.node o)

theorem ownedBy_of_writes (hp : ofPasses passes = .ok p) {field : String}
    {o : Fin p.passes.length} (ho : Writes (accesses p.passes) o field) : p.OwnedBy field o :=
  writes_iff_eq (orderable_passes hp).1.once ho

/-- A value that is covered by the declarations of a pass is declared by it alone. -/
theorem exists_ownedBy (hp : ofPasses passes = .ok p) {pass : Pass} (hpass : pass ∈ p.passes)
    {field : String} {kind : ValueKind} (h : pass.access.writeError? field kind = none) :
    ∃ o, p.OwnedBy field o ∧
      ∀ decl ∈ (accesses p.passes o).writes, decl.name = field → decl.kind = kind := by
  obtain ⟨o, rfl⟩ := List.mem_iff_get.mp hpass
  refine ⟨o, ownedBy_of_writes hp (get_owns_iff.mp (Access.owns_of_writeError? h)), ?_⟩
  intro decl hdecl hname
  exact Access.kind_of_writeError? (nodup_writes (orderable_passes hp).1.once o) h hdecl hname

/-- The owner of a field that a pass reads has its turn before the pass. -/
theorem exists_owner_lt (hp : ofPasses passes = .ok p) {i : Fin p.passes.length} {field : String}
    (hread : field ∈ (accesses p.passes i).reads) :
    ∃ o, p.OwnedBy field o ∧ (o ≠ i → o < i) := by
  obtain ⟨o, ho⟩ := (orderable_passes hp).1.met i field hread
  exact ⟨o, ownedBy_of_writes hp ho, fun hne => lt_of_dependsOn hp ⟨hne, field, hread, ho⟩⟩

/-- A run of a pipeline that succeeds keeps to the contract, whatever its passes do. The order of
its visits has every node that the outputs reach, once. -/
theorem run_contract (hp : ofPasses passes = .ok p) (hr : p.run g = .ok r) :
    ∃ order, g.order = .ok order ∧ order.Nodup ∧ (∀ id, id ∈ order ↔ g.Reachable id) ∧
      Contract p g r order := by
  obtain ⟨order, s, horder, hs, hdetails, -⟩ := exists_order_of_run hr
  have hkept := (keptTurns_of_visitAll horder hs).1
  refine ⟨order, horder, Graph.nodup_of_order horder, Graph.mem_order_iff horder, ?_⟩
  refine
    { nodes := hdetails ▸ hkept.nodes
      leaf := ?leaf
      field := ?field
      logging := run_logging hr
      passes := ?passes
      hook := ?hook
      log := progress_logging horder hr
      turns := turns_eq horder hr
      args := fun before e after heq => (hadTurn_before horder hr heq).1
      owners := ?owners }
  case leaf =>
    intro id n hn hleaf hmem
    rw [hdetails, hkept.nodes] at hmem
    obtain ⟨-, c, hcall⟩ := mem_of_mem_callsIn hmem
    exact absurd (hcall.symm.trans (call?_leaf hn hleaf)) (by simp)
  case field =>
    intro id field v hv
    rw [hdetails] at hv
    obtain ⟨pass, hpass, hcovered⟩ := hkept.covered id field v hv
    exact exists_ownedBy hp hpass hcovered
  case passes =>
    rw [progress_eq horder hs]
    exact hkept.passes
  case hook =>
    intro id hid
    have hsize := (Graph.argsFirst_of_order horder).lt_size (List.mem_reverse.mpr hid)
    have hn : g.node? id = some g.nodes[id.index] := Array.getElem?_eq_getElem hsize
    rw [Graph.hookCall?, hn]
    rfl
  case owners =>
    intro before e after heq i hi field hread
    obtain ⟨o, howned, hlt⟩ := exists_owner_lt hp hread
    refine ⟨o, howned, fun hne => ?_⟩
    have ho : (o : Nat) < e.position := by
      rw [hi]
      exact hlt hne
    exact (hadTurn_before horder hr heq).2 o ho

/-- A pass that ignores what it is told: it sets a field of another pass, then its own to a value of
another kind, and then its own as declared. -/
def careless : Pass :=
  .extractor ⟨"careless", [⟨"note", .int⟩], []⟩ fun _ _ _ =>
    .set FieldName.op (.int 1) fun _ => .set "note" (.text "x") fun _ => Hook.write "note" (.int 1)

/-- A pass that copies a field of another pass. -/
def copying : Pass :=
  .extractor ⟨"copying", [⟨"copy", .text⟩], [FieldName.op]⟩ fun _ id _ => do
    match ← Hook.read id FieldName.op with
    | some v => Hook.write "copy" v
    | none => pure ()

/-- The pass that copies comes last, though it is given first. -/
def carelessPipeline : Pipeline := ⟨[careless, .opName, copying]⟩

theorem run_contract_careless :
    ofPasses [copying, careless, .opName] = .ok carelessPipeline ∧
    ∃ r, carelessPipeline.run shapelessArgument = .ok r ∧
      carelessPipeline.logging.run shapelessArgument = .ok r ∧
      r.details.nodes = [⟨1⟩, ⟨2⟩] ∧
      r.details.field? ⟨1⟩ FieldName.op = some (.text "split") ∧
      r.details.field? ⟨1⟩ "note" = some (.int 1) ∧
      r.details.field? ⟨1⟩ "copy" = some (.text "split") ∧
      (carelessPipeline.events shapelessArgument).map Event.turn =
        [(⟨0⟩, 0), (⟨0⟩, 1), (⟨0⟩, 2), (⟨1⟩, 0), (⟨1⟩, 1), (⟨1⟩, 2), (⟨2⟩, 0), (⟨2⟩, 1), (⟨2⟩, 2)] ∧
      ∀ (before : List Event) (e : Event) (after : List Event),
        carelessPipeline.events shapelessArgument = before ++ e :: after →
          e.position = 2 → HadTurn before e.node 1 := by
  have hp : ofPasses [copying, careless, .opName] = .ok carelessPipeline := by cbv
  have hfields : (carelessPipeline.run shapelessArgument).map
      (fun r => (r.details.field? ⟨1⟩ FieldName.op, r.details.field? ⟨1⟩ "note",
        r.details.field? ⟨1⟩ "copy")) =
          .ok (some (.text "split"), some (.int 1), some (.text "split")) := by cbv
  have horder : shapelessArgument.order = .ok [⟨0⟩, ⟨1⟩, ⟨2⟩] := by cbv
  refine ⟨hp, ?_⟩
  cases hr : carelessPipeline.run shapelessArgument with
  | error e =>
    rw [hr] at hfields
    cases hfields
  | ok r =>
    rw [hr] at hfields
    obtain ⟨hop, hrest⟩ := Prod.mk.inj (Except.ok.inj hfields)
    obtain ⟨hnote, hcopy⟩ := Prod.mk.inj hrest
    obtain ⟨order, horder', -, -, hcontract⟩ := run_contract hp hr
    obtain rfl := Except.ok.inj (horder.symm.trans horder')
    refine ⟨r, rfl, hcontract.logging, hcontract.nodes, hop, hnote, hcopy, hcontract.turns, ?_⟩
    intro before e after heq hposition
    -- the field that is copied is declared by the pass at position 1 only
    obtain ⟨o, howned, hturn⟩ := hcontract.owners before e after heq ⟨2, by decide⟩ hposition
      FieldName.op List.mem_cons_self
    obtain rfl : ⟨1, by decide⟩ = o :=
      (howned ⟨1, by decide⟩).mp ⟨⟨FieldName.op, .text⟩, List.mem_cons_self, rfl⟩
    exact hturn (by decide)

end Pipeline

end GraphSurvey
