import GraphSurvey.Pass.Standard
import GraphSurvey.Proofs.Pipeline.Isolation
import GraphSurvey.Proofs.Schedule.Admission
import Mathlib

/-!
# The order in which passes are given

Two lists with the same passes make two pipelines, whose passes may take their turns in different
orders. Whether the passes settle a visit does not depend on the order of their turns, so the visits
of both succeed or both fail, and after a visit that succeeds the passes are in the same states and
the stores are the same. The anomalies of a node are the same up to their order. In the end the
summaries are merged, which fails in every order if two passes produce one field.

## Main definitions

* `GraphSurvey.AgreeByNode` — the same anomalies, up to the order of those of one node.
* `GraphSurvey.Dictionary.addAll?` — new names added one after the other.
* `GraphSurvey.Pipeline.Agree` — what two runs of the same passes have in common.

## Main results

* `GraphSurvey.Pipeline.mergeSummaries_perm` — summaries are merged in any order.
* `GraphSurvey.Pipeline.Agree.of_visit` — a visit of one run succeeds in the other, and keeps what
  the runs have in common.
* `GraphSurvey.Pipeline.run_of_perm` — the order in which passes are given makes no difference.
-/

namespace GraphSurvey

/-! ## Anomalies -/

/-- The anomalies come of the same nodes in the same order, and of every node they are the same up
to their order. -/
def AgreeByNode (l l' : List Anomaly) : Prop :=
  l.map Anomaly.node = l'.map Anomaly.node ∧
    ∀ id, (l.filter fun a => a.node = id).Perm (l'.filter fun a => a.node = id)

namespace AgreeByNode

variable {l l' m m' : List Anomaly}

theorem append (h : AgreeByNode l l') (h' : AgreeByNode m m') :
    AgreeByNode (l ++ m) (l' ++ m') := by
  refine ⟨?_, fun id => ?_⟩
  · rw [List.map_append, List.map_append, h.1, h'.1]
  · rw [List.filter_append, List.filter_append]
    exact (h.2 id).append (h'.2 id)

/-- Anomalies of one node agree in any order. -/
theorem of_perm (id : NodeId) (h : l.Perm l') (hnode : ∀ a ∈ l, a.node = id) :
    AgreeByNode l l' := by
  refine ⟨?_, fun _ => h.filter _⟩
  have hmap : l.map Anomaly.node = List.replicate l.length id := by
    rw [List.map_eq_replicate_iff]
    exact hnode
  have hmap' : l'.map Anomaly.node = List.replicate l'.length id := by
    rw [List.map_eq_replicate_iff]
    exact fun a ha => hnode a (h.mem_iff.mpr ha)
  rw [hmap, hmap', h.length_eq]

end AgreeByNode

namespace Hook

variable {α : Type} {a : Access} {id : NodeId}

/-- What a hook raises is about the node at which it runs. -/
theorem node_of_mem_raised {h : Hook α} {view : View} {finding : Anomaly}
    (hmem : finding ∈ (h.effect a id view).raised) : finding.node = id := by
  induction h generalizing view with
  | done r => cases hmem
  | fail e => cases hmem
  | set field v next ih =>
    rw [effect] at hmem
    split at hmem
    case h_1 => exact ih none hmem
    case h_2 e _ => exact ih (some e) hmem
  | get other field next ih =>
    rw [effect] at hmem
    split at hmem
    case h_1 => exact ih _ hmem
    case h_2 e _ => exact ih (.error e) hmem
  | anomaly message next ih =>
    rcases List.mem_cons.mp hmem with rfl | hmem
    · rfl
    · exact ih hmem

end Hook

/-! ## Summaries -/

namespace Dictionary

variable {α : Type}

/-- Adds entries one after the other, unless there is a name already. -/
def addAll? : List (String × α) → Dictionary α → Option (Dictionary α)
  | [], d => some d
  | (name, a) :: rest, d =>
    match d.get? name with
    | some _ => none
    | none => addAll? rest (d.insert name a)

variable {l l' : List (String × α)} {d d' : Dictionary α} {name : String} {a : α}

theorem addAll?_cons_eq_some_iff :
    addAll? ((name, a) :: l) d = some d' ↔
      d.get? name = none ∧ addAll? l (d.insert name a) = some d' := by
  rw [addAll?]
  split
  case h_1 _ h => simp [h]
  case h_2 h => simp [h]

theorem addAll?_append (l l' : List (String × α)) (d : Dictionary α) :
    addAll? (l ++ l') d = (addAll? l d).bind (addAll? l') := by
  induction l generalizing d with
  | nil => rfl
  | cons e rest ih =>
    rw [List.cons_append, addAll?, addAll?]
    split
    · rfl
    · exact ih _

/-- Entries may be added in any order. -/
theorem addAll?_perm (h : l.Perm l') (hl : addAll? l d = some d') : addAll? l' d = some d' := by
  induction h generalizing d with
  | nil => exact hl
  | cons e _ ih =>
    obtain ⟨hnew, hrest⟩ := addAll?_cons_eq_some_iff.mp hl
    exact addAll?_cons_eq_some_iff.mpr ⟨hnew, ih hrest⟩
  | swap e e' rest =>
    obtain ⟨hnew', hl⟩ := addAll?_cons_eq_some_iff.mp hl
    obtain ⟨hnew, hrest⟩ := addAll?_cons_eq_some_iff.mp hl
    have hne : e.1 ≠ e'.1 := by
      intro heq
      rw [heq, get?_insert_self] at hnew
      cases hnew
    rw [get?_insert_of_ne hne] at hnew
    refine addAll?_cons_eq_some_iff.mpr ⟨hnew, addAll?_cons_eq_some_iff.mpr ⟨?_, ?_⟩⟩
    · rwa [get?_insert_of_ne hne.symm]
    · rwa [insert_comm hne]
  | trans _ _ ih ih' => exact ih' (ih hl)

end Dictionary

namespace Pipeline

open CallVisit

/-- The fields that a pass produces, with its name. -/
def fieldsProduced (details : DetailStore) (r : Pass.Running) : List (String × (Value × String)) :=
  match r.pass.onSummarize r.state details with
  | none => []
  | some fragment => fragment.entries.map fun e => (e.1, (e.2, r.pass.name))

theorem mergeFields_eq_ok_iff {pass : String} {entries : List (String × Value)}
    {produced all : Produced} :
    mergeFields pass entries produced = .ok all ↔
      Dictionary.addAll? (entries.map fun e => (e.1, (e.2, pass))) produced = some all := by
  induction entries generalizing produced with
  | nil => simp [mergeFields, Dictionary.addAll?]
  | cons e rest ih =>
    obtain ⟨field, v⟩ := e
    rw [mergeFields, List.map_cons, Dictionary.addAll?_cons_eq_some_iff]
    split
    case h_1 h => simp [h]
    case h_2 h => simp [h, ih]

/-- To merge summaries is to add the fields that the passes produce. -/
theorem mergeSummaries_eq_ok_iff {details : DetailStore} {rs : List Pass.Running}
    {produced all : Produced} :
    mergeSummaries details rs produced = .ok all ↔
      Dictionary.addAll? (rs.flatMap (fieldsProduced details)) produced = some all := by
  induction rs generalizing produced with
  | nil => simp [mergeSummaries, Dictionary.addAll?]
  | cons r rest ih =>
    rw [mergeSummaries, List.flatMap_cons, Dictionary.addAll?_append, fieldsProduced]
    cases r.pass.onSummarize r.state details with
    | none => exact ih
    | some fragment =>
      rw [Option.bind_eq_some_iff]
      simp only [← mergeFields_eq_ok_iff]
      cases mergeFields r.pass.name fragment.entries produced with
      | error e => simp
      | ok more => simp [ih]

/-- Summaries are merged in any order. -/
theorem mergeSummaries_perm {details : DetailStore} {rs rs' : List Pass.Running} {all : Produced}
    (h : rs.Perm rs') (hall : mergeSummaries details rs ∅ = .ok all) :
    mergeSummaries details rs' ∅ = .ok all :=
  mergeSummaries_eq_ok_iff.mpr <|
    Dictionary.addAll?_perm (h.flatMap_right _) (mergeSummaries_eq_ok_iff.mp hall)

/-! ## Two runs -/

variable {ps qs : List Pass} {p q : Pipeline} {g : Graph} {id : NodeId} {s s' t : Progress}
  {r : Analysis}

/-- What the runs of the same passes in different orders have in common. -/
structure Agree (ps qs : List Pass) (s t : Progress) : Prop where
  states : ∃ states, s.passes = ps.map (Pass.running states) ∧
    t.passes = qs.map (Pass.running states)
  store : s.notes.store = t.notes.store
  anomalies : AgreeByNode s.notes.anomalies t.notes.anomalies

/-- A visit of a call that succeeds in one run succeeds in the other: whether the passes settle it
does not depend on their order. -/
theorem Agree.of_visit_call {n : Node} {c : Call} (h : Agree ps qs s t) (hperm : ps.Perm qs)
    (hps : InTurn ps) (hqs : InTurn qs) (hn : g.node? id = some n) (hc : n.kind = .call c)
    (hvisit : visit g id s = (s', none)) : ∃ t', visit g id t = (t', none) ∧ Agree ps qs s' t' := by
  obtain ⟨states, hs, ht⟩ := h.states
  have hsettles := settles_of_visit hps hn hc hs hvisit
  generalize s'.notes.store.field? = after at hsettles
  let v : CallVisit := ⟨g, id, c, states, s.notes.store.field?, after⟩
  have hfield : t.notes.store.field? = v.before := by rw [← h.store]
  obtain ⟨store, hafter, hnodes, heq⟩ := hsettles.visit_eq hps hn hc hs rfl
  obtain ⟨store', hafter', hnodes', heq'⟩ :=
    (hsettles.of_perm hperm).visit_eq hqs hn hc ht hfield
  obtain rfl := congrArg Prod.fst (hvisit.symm.trans heq)
  refine ⟨_, heq', ⟨v.statesAfter, rfl, rfl⟩, ?_, ?_⟩
  · refine DetailStore.ext_field? ?_ (hafter.trans hafter'.symm)
    rw [hnodes, hnodes', h.store]
  · refine h.anomalies.append (.of_perm id (hperm.flatMap_right _) fun a ha => ?_)
    obtain ⟨pass, -, ha⟩ := List.mem_flatMap.mp ha
    exact Hook.node_of_mem_raised ha

theorem Agree.of_visit_leaf {n : Node} (h : Agree ps qs s t) (hn : g.node? id = some n)
    (hleaf : ∀ c, n.kind ≠ .call c) (hvisit : visit g id s = (s', none)) :
    ∃ t', visit g id t = (t', none) ∧ Agree ps qs s' t' := by
  obtain ⟨states, hs, ht⟩ := h.states
  rw [visit_leaf hn hleaf, Prod.mk.injEq] at hvisit
  obtain ⟨rfl, -⟩ := hvisit
  refine ⟨_, visit_leaf hn hleaf t, ⟨fun pass => pass.onLeaf n (states pass), ?_, ?_⟩, h.store,
    h.anomalies⟩
  · rw [hs, visitLeaf, List.map_map]
    rfl
  · rw [ht, visitLeaf, List.map_map]
    rfl

/-- A visit that succeeds in one run succeeds in the other and keeps what they have in common. -/
theorem Agree.of_visit (h : Agree ps qs s t) (hperm : ps.Perm qs) (hps : InTurn ps)
    (hqs : InTurn qs) (hvisit : visit g id s = (s', none)) :
    ∃ t', visit g id t = (t', none) ∧ Agree ps qs s' t' := by
  obtain ⟨n, hn, ⟨c, hc⟩ | hleaf⟩ := exists_node_of_visit hvisit
  · exact h.of_visit_call hperm hps hqs hn hc hvisit
  · exact h.of_visit_leaf hn hleaf hvisit

/-- Two runs that agree after all visits come to the same conclusion. -/
theorem Agree.conclude (h : Agree ps qs s t) (hperm : ps.Perm qs)
    (hr : Pipeline.conclude g s = .ok r) :
    ∃ r', Pipeline.conclude g t = .ok r' ∧ r.model = r'.model ∧ r.details = r'.details ∧
      r.summary = r'.summary ∧ AgreeByNode r.anomalies r'.anomalies := by
  obtain ⟨states, hs, ht⟩ := h.states
  rw [Pipeline.conclude] at hr
  split at hr
  case h_1 => cases hr
  case h_2 all hall =>
    cases hr
    rw [hs, h.store] at hall
    have hall' := mergeSummaries_perm (hperm.map (Pass.running states)) hall
    have hconclude : Pipeline.conclude g t =
        .ok ⟨g.name, t.notes.store, summaryOf all, t.notes.anomalies⟩ := by
      rw [Pipeline.conclude, ht, hall']
    exact ⟨_, hconclude, rfl, h.store, rfl, h.anomalies⟩

/-- If one run succeeds, the other does. -/
theorem exists_run_of_perm (hperm : p.passes.Perm q.passes) (hp : InTurn p.passes)
    (hq : InTurn q.passes) (hr : p.run g = .ok r) :
    ∃ r', q.run g = .ok r' ∧ r.model = r'.model ∧ r.details = r'.details ∧
      r.summary = r'.summary ∧ AgreeByNode r.anomalies r'.anomalies := by
  obtain ⟨order, s, horder, hs, -⟩ := exists_order_of_run hr
  have hstart : Agree p.passes q.passes p.start q.start :=
    ⟨⟨Pass.start, rfl, rfl⟩, rfl, rfl, fun _ => .refl _⟩
  have hstep : ∀ id s t s', Agree p.passes q.passes s t → visit g id s = (s', none) →
      ∃ t', visit g id t = (t', none) ∧ Agree p.passes q.passes s' t' :=
    fun id s t s' h hvisit => h.of_visit hperm hp hq hvisit
  obtain ⟨t, ht, hagree⟩ := Walk.visitAll_rel hstep hstart hs
  rw [run_of_order horder hs] at hr
  rw [run_of_order horder ht]
  exact hagree.conclude hperm hr

/-- The order in which passes are given makes no difference: with one list the other is accepted,
and over every graph their runs both fail, or both succeed with the same details in the same order,
the same summary and, of every node, the same anomalies up to their order. -/
theorem run_of_perm {passes passes' : List Pass} (h : passes.Perm passes') :
    ((∃ p, ofPasses passes = .ok p) ↔ ∃ q, ofPasses passes' = .ok q) ∧
    ∀ p q, ofPasses passes = .ok p → ofPasses passes' = .ok q → ∀ g,
      (∃ e e', p.run g = .error e ∧ q.run g = .error e') ∨
      ∃ r r', p.run g = .ok r ∧ q.run g = .ok r' ∧ r.model = r'.model ∧
        r.details = r'.details ∧ r.summary = r'.summary ∧
        AgreeByNode r.anomalies r'.anomalies := by
  refine ⟨?_, fun p q hp hq g => ?_⟩
  · rw [exists_ofPasses_iff, exists_ofPasses_iff, orderable_iff_of_perm h]
  · have hperm : p.passes.Perm q.passes := ((perm_passes hp).trans h).trans (perm_passes hq).symm
    cases hr : p.run g with
    | ok r =>
      obtain ⟨r', hr', hsame⟩ := exists_run_of_perm hperm (inTurn_passes hp) (inTurn_passes hq) hr
      exact .inr ⟨r, r', rfl, hr', hsame⟩
    | error e =>
      cases hr' : q.run g with
      | error e' => exact .inl ⟨e, e', rfl, rfl⟩
      | ok r' =>
        obtain ⟨r, hok, -⟩ :=
          exists_run_of_perm hperm.symm (inTurn_passes hq) (inTurn_passes hp) hr'
        exact absurd (hr.symm.trans hok) (by simp)

/-- A pass that reports the operator of every call. -/
def operatorReport : Pass :=
  .extractor ⟨"operator", [], []⟩ fun _ _ c => Hook.report c.op

theorem run_of_perm_operatorReport :
    ∃ r r' : Analysis,
      (⟨[.outputShape, operatorReport]⟩ : Pipeline).run shapelessArgument = .ok r ∧
      (⟨[operatorReport, .outputShape]⟩ : Pipeline).run shapelessArgument = .ok r' ∧
      r.details = r'.details ∧ AgreeByNode r.anomalies r'.anomalies ∧
      r.anomalies.map Anomaly.pass = ["output_shape", "operator", "operator"] ∧
      r'.anomalies.map Anomaly.pass = ["operator", "output_shape", "operator"] := by
  have hp : ofPasses [.outputShape, operatorReport] = .ok ⟨[.outputShape, operatorReport]⟩ := by
    cbv
  have hq : ofPasses [operatorReport, .outputShape] = .ok ⟨[operatorReport, .outputShape]⟩ := by
    cbv
  have hraised : ((⟨[.outputShape, operatorReport]⟩ : Pipeline).run shapelessArgument).map
      (fun r => r.anomalies.map Anomaly.pass) = .ok ["output_shape", "operator", "operator"] := by
    cbv
  have hraised' : ((⟨[operatorReport, .outputShape]⟩ : Pipeline).run shapelessArgument).map
      (fun r => r.anomalies.map Anomaly.pass) = .ok ["operator", "output_shape", "operator"] := by
    cbv
  rcases (run_of_perm (.swap _ _ [])).2 _ _ hp hq shapelessArgument with
    ⟨e, e', he, -⟩ | ⟨r, r', hr, hr', -, hdetails, -, hanomalies⟩
  · rw [he] at hraised
    cases hraised
  · rw [hr] at hraised
    rw [hr'] at hraised'
    exact ⟨r, r', hr, hr', hdetails, hanomalies, Except.ok.inj hraised, Except.ok.inj hraised'⟩

end Pipeline

end GraphSurvey
