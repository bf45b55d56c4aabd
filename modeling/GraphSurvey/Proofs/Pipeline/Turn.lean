import GraphSurvey.Pipeline.Run
import GraphSurvey.Proofs.Pass.Effect
import GraphSurvey.Proofs.Schedule.Order
import Mathlib

/-!
# The turns of passes at a call

At a call every pass has its turn. When no pass may read a field of a later one, what a pass finds
in its turn is settled by the visit as a whole: its own fields are as they were before the visit,
and all others are as they will be after it. So a visit succeeds exactly when what the fields hold
after it agrees with what every pass does in its turn, and the order of the turns no longer matters.

## Main definitions

* `GraphSurvey.CallVisit` — a visit of a call with what the fields hold before and after it.
* `GraphSurvey.CallVisit.turn` — what a pass does in its turn.
* `GraphSurvey.CallVisit.Settles` — the fields after the visit agree with the turns of the passes.
* `GraphSurvey.InTurn`, `GraphSurvey.ReadsEarlier` — no pass may read a field of a later one, or
  declares to read one.
* `GraphSurvey.Met` — every field that is read has an owner.

## Main results

* `GraphSurvey.CallVisit.Settles.visitCall_eq` — a visit that the passes settle succeeds.
* `GraphSurvey.CallVisit.settles_of_visitCall` — the passes settle a visit that succeeds.
* `GraphSurvey.Pipeline.inTurn_passes`, `GraphSurvey.Pipeline.met_passes` — so it is in every
  pipeline.
-/

namespace GraphSurvey

/-- A state of every pass. -/
abbrev Pass.States := (pass : Pass) → pass.State

/-- A pass in its state. -/
def Pass.running (states : Pass.States) (pass : Pass) : Pass.Running := ⟨pass, states pass⟩

/-- No pass may read a field of a later one. -/
def InTurn (passes : List Pass) : Prop :=
  passes.Pairwise fun first later =>
    ∀ field, first.access.MayRead field → ¬ later.access.Owns field

/-- No pass declares to read a field of a later one. -/
def ReadsEarlier (passes : List Pass) : Prop :=
  passes.Pairwise fun first later => ∀ field ∈ first.access.reads, ¬ later.access.Owns field

/-- Every field that a pass reads is owned by one of the passes. -/
def Met (passes : List Pass) : Prop :=
  ∀ pass ∈ passes, ∀ field ∈ pass.access.reads, ∃ owner ∈ passes, owner.access.Owns field

/-- A visit of a call: the states in which the passes come to it, and what the fields hold before
and after it. -/
structure CallVisit where
  graph : Graph
  node : NodeId
  call : Call
  states : Pass.States
  before : View
  after : View

namespace CallVisit

open Classical in
/-- What a pass finds in its turn. -/
noncomputable def seen (v : CallVisit) (a : Access) : View := fun node field =>
  if a.Owns field then v.before node field else v.after node field

/-- What a pass does in its turn. -/
noncomputable def turn (v : CallVisit) (pass : Pass) : Effect pass.State :=
  (pass.onCall v.graph v.node v.call (v.states pass)).effect pass.access v.node
    (v.seen pass.access)

/-- The state of a pass after its turn. -/
noncomputable def statesAfter (v : CallVisit) : Pass.States := fun pass =>
  match (v.turn pass).result with
  | .ok state => state
  | .error _ => v.states pass

/-- The passes settle the visit: all their turns succeed, and the fields hold afterwards what they
leave in them. -/
structure Settles (v : CallVisit) (passes : List Pass) : Prop where
  ok : ∀ pass ∈ passes, ∃ state, (v.turn pass).result = .ok state
  own : ∀ pass ∈ passes, ∀ field, pass.access.Owns field → ∀ node,
    v.after node field = v.before.recordAll v.node (v.turn pass).writes node field
  /-- A field without an owner holds what it held. -/
  foreign : ∀ field, (∀ pass ∈ passes, ¬ pass.access.Owns field) → ∀ node,
    v.after node field = v.before node field

variable {v : CallVisit} {pass other : Pass} {rest passes : List Pass} {field : String}

theorem seen_of_owns {a : Access} (h : a.Owns field) (node : NodeId) :
    v.seen a node field = v.before node field := if_pos h

theorem seen_of_not_owns {a : Access} (h : ¬ a.Owns field) (node : NodeId) :
    v.seen a node field = v.after node field := if_neg h

theorem result_turn (h : v.Settles passes) (hpass : pass ∈ passes) :
    (v.turn pass).result = .ok (v.statesAfter pass) := by
  obtain ⟨state, hstate⟩ := h.ok pass hpass
  rw [statesAfter, hstate]

/-- Whether passes settle a visit does not depend on their order. -/
theorem Settles.of_perm (h : v.Settles passes) (hperm : passes.Perm rest) : v.Settles rest where
  ok pass hpass := h.ok pass (hperm.mem_iff.mpr hpass)
  own pass hpass := h.own pass (hperm.mem_iff.mpr hpass)
  foreign field hfield := h.foreign field fun pass hpass => hfield pass (hperm.mem_iff.mp hpass)

/-! ## After the first turn -/

/-- What is left of a visit after the turn of a pass. -/
noncomputable def afterTurn (v : CallVisit) (pass : Pass) : CallVisit :=
  { v with before := v.before.recordAll v.node (v.turn pass).writes }

theorem field?_recordAll_turn {s : DetailStore} (hs : s.field? = v.before) :
    (s.recordAll v.node (v.turn pass).writes).field? = (v.afterTurn pass).before := by
  rw [DetailStore.field?_recordAll, hs]
  rfl

theorem afterTurn_before_of_not_owns (h : ¬ pass.access.Owns field) (node : NodeId) :
    (v.afterTurn pass).before node field = v.before node field :=
  Hook.recordAll_effect_of_not_owns h

/-- The turn of a pass changes nothing for a pass whose fields it does not own. -/
theorem turn_afterTurn (h : ∀ field, other.access.Owns field → ¬ pass.access.Owns field) :
    (v.afterTurn pass).turn other = v.turn other := by
  refine Hook.effect_congr _ fun field _ node => ?_
  by_cases hown : other.access.Owns field
  · rw [seen_of_owns hown, seen_of_owns hown, afterTurn_before_of_not_owns (h field hown)]
  · rw [seen_of_not_owns hown, seen_of_not_owns hown]
    rfl

theorem statesAfter_afterTurn
    (h : ∀ field, other.access.Owns field → ¬ pass.access.Owns field) :
    (v.afterTurn pass).statesAfter other = v.statesAfter other := by
  rw [statesAfter, statesAfter, turn_afterTurn h]
  rfl

end CallVisit

namespace InTurn

variable {pass other : Pass} {rest : List Pass} {field : String}

theorem not_owns_of_mayRead (h : InTurn (pass :: rest)) (hread : pass.access.MayRead field) :
    ∀ other ∈ rest, ¬ other.access.Owns field :=
  fun other hother => (List.pairwise_cons.mp h).1 other hother field hread

theorem not_owns_of_owns (h : InTurn (pass :: rest)) (hother : other ∈ rest)
    (hown : other.access.Owns field) : ¬ pass.access.Owns field :=
  fun hpass => h.not_owns_of_mayRead (.inl hpass) other hother hown

theorem tail (h : InTurn (pass :: rest)) : InTurn rest := (List.pairwise_cons.mp h).2

end InTurn

namespace Pipeline

variable {g : Graph} {id : NodeId} {c : Call} {r : Pass.Running} {rest : List Pass.Running}
  {notes notes' : Notes} {state : r.pass.State} {t : Progress} {e : Option AnalysisError}

/-- After the turn of the first pass come those of the others. -/
theorem visitCall_cons
    (hrun : (r.pass.onCall g id c r.state).run r.pass.access id notes = (notes', .ok state))
    (hrest : visitCall g id c rest notes' = (t, e)) :
    visitCall g id c (r :: rest) notes = (⟨⟨r.pass, state⟩ :: t.passes, t.notes⟩, e) := by
  rw [visitCall, hrun]
  simp only [hrest]

/-- In a visit that succeeds the turn of the first pass does. -/
theorem visitCall_cons_eq_none (h : visitCall g id c (r :: rest) notes = (t, none)) :
    ∃ notes' state t', (r.pass.onCall g id c r.state).run r.pass.access id notes =
        (notes', .ok state) ∧
      visitCall g id c rest notes' = (t', none) ∧
      t = ⟨⟨r.pass, state⟩ :: t'.passes, t'.notes⟩ := by
  rw [visitCall] at h
  split at h
  case h_1 => exact absurd (congrArg Prod.snd h) (by simp)
  case h_2 notes' state hrun =>
    rw [Prod.mk.injEq] at h
    exact ⟨notes', state, _, hrun, Prod.ext rfl h.2, h.1.symm⟩

end Pipeline

namespace CallVisit

open Pipeline

variable {v : CallVisit} {pass : Pass} {rest passes : List Pass} {s : DetailStore}
  {anomalies : List Anomaly}

theorem Settles.afterTurn (h : v.Settles (pass :: rest)) (hturn : InTurn (pass :: rest)) :
    (v.afterTurn pass).Settles rest where
  ok other hother := by
    rw [turn_afterTurn fun _ => hturn.not_owns_of_owns hother]
    exact h.ok other (List.mem_cons_of_mem _ hother)
  own other hother field hown node := by
    have hpass := hturn.not_owns_of_owns hother hown
    rw [turn_afterTurn fun _ => hturn.not_owns_of_owns hother]
    have hafter := h.own other (List.mem_cons_of_mem _ hother) field hown node
    exact hafter.trans (View.recordAll_congr _ (afterTurn_before_of_not_owns hpass node).symm)
  foreign field hfield node := by
    by_cases hpass : pass.access.Owns field
    · exact h.own pass List.mem_cons_self field hpass node
    · rw [afterTurn_before_of_not_owns hpass]
      exact h.foreign field (List.forall_mem_cons.mpr ⟨hpass, hfield⟩) node

theorem Settles.of_afterTurn (hturn : InTurn (pass :: rest))
    (hpass : ∃ state, (v.turn pass).result = .ok state) (h : (v.afterTurn pass).Settles rest) :
    v.Settles (pass :: rest) where
  ok other hother := by
    rcases List.mem_cons.mp hother with rfl | hother
    · exact hpass
    · rw [← turn_afterTurn fun _ => hturn.not_owns_of_owns hother]
      exact h.ok other hother
  own other hother field hown node := by
    rcases List.mem_cons.mp hother with rfl | hother
    · exact h.foreign field (hturn.not_owns_of_mayRead (.inl hown)) node
    · have hfirst := hturn.not_owns_of_owns hother hown
      have hafter := h.own other hother field hown node
      rw [turn_afterTurn fun _ => hturn.not_owns_of_owns hother] at hafter
      exact hafter.trans (View.recordAll_congr _ (afterTurn_before_of_not_owns hfirst node))
  foreign field hfield node := by
    obtain ⟨hfirst, hrest⟩ := List.forall_mem_cons.mp hfield
    exact (h.foreign field hrest node).trans (afterTurn_before_of_not_owns hfirst node)

/-- A pass whose turn is the first finds what it finds in the visit as a whole. -/
theorem effect_eq_turn (hturn : InTurn (pass :: rest))
    (hforeign : ∀ field, (∀ other ∈ pass :: rest, ¬ other.access.Owns field) → ∀ node,
      v.after node field = v.before node field) :
    (pass.onCall v.graph v.node v.call (v.states pass)).effect pass.access v.node v.before =
      v.turn pass := by
  refine Hook.effect_congr _ fun field hread node => ?_
  by_cases hown : pass.access.Owns field
  · rw [seen_of_owns hown]
  · rw [seen_of_not_owns hown, hforeign field
      (List.forall_mem_cons.mpr ⟨hown, hturn.not_owns_of_mayRead hread⟩)]

/-- The first turn of a visit that the passes settle. -/
theorem Settles.run_eq (h : v.Settles (pass :: rest)) (hturn : InTurn (pass :: rest))
    (hs : s.field? = v.before) :
    (pass.onCall v.graph v.node v.call (v.states pass)).run pass.access v.node ⟨s, anomalies⟩ =
      (⟨s.recordAll v.node (v.turn pass).writes, anomalies ++ (v.turn pass).raised⟩,
        .ok (v.statesAfter pass)) := by
  rw [Hook.run_eq, hs, effect_eq_turn hturn h.foreign, result_turn h List.mem_cons_self]

/-- A visit that the passes settle succeeds, and every pass has done what it does in its turn. -/
theorem Settles.visitCall_eq (h : v.Settles passes) (hturn : InTurn passes)
    (hs : s.field? = v.before) (hnode : v.node ∈ s.nodes) (anomalies : List Anomaly) :
    ∃ s' : DetailStore, s'.field? = v.after ∧ s'.nodes = s.nodes ∧
      visitCall v.graph v.node v.call (passes.map (Pass.running v.states)) ⟨s, anomalies⟩ =
        (⟨passes.map (Pass.running v.statesAfter),
          ⟨s', anomalies ++ passes.flatMap fun pass => (v.turn pass).raised⟩⟩, none) := by
  induction passes generalizing v s anomalies with
  | nil =>
    have hafter : v.after = v.before := by
      funext node field
      exact h.foreign field (by simp) node
    exact ⟨s, hs.trans hafter.symm, rfl, by simp [visitCall]⟩
  | cons pass rest ih =>
    have hnode₁ : v.node ∈ (s.recordAll v.node (v.turn pass).writes).nodes := by
      rwa [DetailStore.nodes_recordAll hnode]
    obtain ⟨s', hfield, hnodes, heq⟩ := ih (h.afterTurn hturn) hturn.tail
      (field?_recordAll_turn hs) hnode₁ (anomalies ++ (v.turn pass).raised)
    refine ⟨s', hfield, hnodes.trans (DetailStore.nodes_recordAll hnode _), ?_⟩
    have hstates : rest.map (Pass.running (v.afterTurn pass).statesAfter) =
        rest.map (Pass.running v.statesAfter) := by
      refine List.map_congr_left fun other hother => ?_
      rw [Pass.running, statesAfter_afterTurn fun _ => hturn.not_owns_of_owns hother]
      rfl
    have hraised : (rest.flatMap fun other => ((v.afterTurn pass).turn other).raised) =
        rest.flatMap fun other => (v.turn other).raised := by
      refine List.flatMap_congr fun other hother => ?_
      rw [turn_afterTurn fun _ => hturn.not_owns_of_owns hother]
    rw [hstates, hraised] at heq
    rw [List.map_cons, List.flatMap_cons, ← List.append_assoc]
    exact visitCall_cons (h.run_eq hturn hs) heq

/-- The passes settle a visit that succeeds. -/
theorem settles_of_visitCall {g : Graph} {id : NodeId} {c : Call} {states : Pass.States}
    {t : Progress} (hturn : InTurn passes)
    (h : visitCall g id c (passes.map (Pass.running states)) ⟨s, anomalies⟩ = (t, none)) :
    Settles ⟨g, id, c, states, s.field?, t.notes.store.field?⟩ passes := by
  induction passes generalizing s anomalies t with
  | nil =>
    cases h
    exact ⟨by simp, by simp, fun _ _ _ => rfl⟩
  | cons pass rest ih =>
    rw [List.map_cons] at h
    obtain ⟨notes, state, t', hrun, hrest, rfl⟩ := visitCall_cons_eq_none h
    rw [Hook.run_eq, Prod.mk.injEq] at hrun
    obtain ⟨rfl, hresult⟩ := hrun
    have hsettles := ih hturn.tail hrest
    rw [DetailStore.field?_recordAll] at hsettles
    let v : CallVisit := ⟨g, id, c, states, s.field?, t'.notes.store.field?⟩
    have hforeign : ∀ field, (∀ other ∈ pass :: rest, ¬ other.access.Owns field) → ∀ node,
        v.after node field = v.before node field := by
      intro field hfield node
      obtain ⟨hpass, hrest⟩ := List.forall_mem_cons.mp hfield
      exact (hsettles.foreign field hrest node).trans (Hook.recordAll_effect_of_not_owns hpass)
    have heffect := effect_eq_turn hturn hforeign
    refine Settles.of_afterTurn (v := v) hturn ⟨state, ?_⟩ ?_
    · rw [← heffect]
      exact hresult
    · rw [CallVisit.afterTurn, ← heffect]
      exact hsettles

end CallVisit

/-! ## The passes of a pipeline -/

namespace Pipeline

open Schedule

variable {passes : List Pass} {p : Pipeline} {field : String}

theorem get_owns_iff {i : Fin passes.length} :
    (passes.get i).access.Owns field ↔ Writes (accesses passes) i field := Iff.rfl

/-- The fields that are read have owners, in terms of the positions of the passes. -/
theorem met_iff : Met passes ↔
    ∀ i, ∀ field ∈ (accesses passes i).reads, ∃ o, Writes (accesses passes) o field := by
  constructor
  · intro h i field hfield
    obtain ⟨owner, howner, hown⟩ := h _ (List.get_mem passes i) field hfield
    obtain ⟨o, rfl⟩ := List.mem_iff_get.mp howner
    exact ⟨o, hown⟩
  · intro h pass hpass field hfield
    obtain ⟨i, rfl⟩ := List.mem_iff_get.mp hpass
    obtain ⟨o, ho⟩ := h i field hfield
    exact ⟨passes.get o, List.get_mem _ o, ho⟩

/-- When passes can be put into an order, no two of them own one field. -/
theorem pairwise_not_owns (h : Orderable (accesses passes)) :
    passes.Pairwise fun first later =>
      ∀ field, first.access.Owns field → ¬ later.access.Owns field := by
  refine List.pairwise_iff_get.mpr fun i j hlt field hfirst hlater => ?_
  have hi := (owner?_eq_some_iff h.once).mpr (get_owns_iff.mp hfirst)
  have hj := (owner?_eq_some_iff h.once).mpr (get_owns_iff.mp hlater)
  exact hlt.ne (Option.some.inj (hi.symm.trans hj))

/-- Passes that read earlier fields depend on earlier passes. -/
theorem lt_of_readsEarlier (hreads : ReadsEarlier passes) {i o : Fin passes.length}
    (hdep : DependsOn (accesses passes) i o) : o < i := by
  obtain ⟨hne, field, hfield, hown⟩ := hdep
  rcases lt_trichotomy o i with hlt | heq | hlt
  · exact hlt
  · exact absurd heq hne
  · exact absurd hown (List.pairwise_iff_get.mp hreads i o hlt field hfield)

/-- Accepted passes are kept as they stand if they read earlier fields. -/
theorem passes_eq_of_readsEarlier (h : ofPasses passes = .ok p) (hreads : ReadsEarlier passes) :
    p.passes = passes := by
  obtain ⟨order, horder, hpasses⟩ := ofPasses_eq_ok_iff.mp h
  have hfirst : OwnersFirst (accesses passes) (List.finRange passes.length) :=
    ownersFirst_finRange fun i o hdep => lt_of_readsEarlier hreads hdep
  rw [hpasses, order_eq_finRange horder hfirst]
  exact List.map_get_finRange passes

/-- Passes that read earlier fields can be put into an order if no field is declared twice and every
field that is read is owned. -/
theorem orderable_of_readsEarlier (honce : ((declared (accesses passes)).map Prod.fst).Nodup)
    (hmet : Met passes) (hreads : ReadsEarlier passes) : Orderable (accesses passes) where
  once := honce
  met := met_iff.mp hmet
  acyclic i hcycle := by
    have hlt (j) (hpath : Relation.TransGen (DependsOn (accesses passes)) i j) : j < i := by
      induction hpath with
      | single hdep => exact lt_of_readsEarlier hreads hdep
      | tail _ hdep ih => exact (lt_of_readsEarlier hreads hdep).trans ih
    exact lt_irrefl i (hlt i hcycle)

/-- No pass of a pipeline may read a field of a later one. -/
theorem inTurn_passes (h : ofPasses passes = .ok p) : InTurn p.passes := by
  have hpairs := pairwise_not_owns (orderable_passes h).1
  refine List.pairwise_iff_get.mpr fun i j hlt field hread hown => ?_
  rcases hread with hread | hread
  · exact List.pairwise_iff_get.mp hpairs i j hlt field hread hown
  · exact absurd (lt_of_dependsOn h ⟨hlt.ne', field, hread, hown⟩) hlt.asymm

/-- Every field that a pass of a pipeline reads is owned by one of its passes. -/
theorem met_passes (h : ofPasses passes = .ok p) : Met p.passes :=
  met_iff.mpr (orderable_passes h).1.met

end Pipeline

end GraphSurvey
