import GraphSurvey.Graph.Walk
import GraphSurvey.Pass.Basic
import GraphSurvey.Pipeline.Schedule

/-!
# Running passes over graphs

A pipeline is a list of passes in the order in which they run. Over one graph it runs in a single
walk: at a call every pass does what it does at calls, in order, and at a variable or a constant
what it does at leaves. When all nodes were visited, the passes summarise in the same order. The
first error ends the run, and nothing of it remains.

## Main definitions

* `GraphSurvey.Pipeline.ofPasses` — the pipeline of a list of passes, or what is wrong with it.
* `GraphSurvey.Pipeline.run` — the analysis of a graph.
-/

namespace GraphSurvey

/-- Passes in the order in which they run. -/
structure Pipeline where
  passes : List Pass

/-- What the analysis of a graph gives. -/
structure Analysis where
  model : String
  details : DetailStore
  summary : Summary
  anomalies : List Anomaly

namespace Pipeline

/-- What the passes of a list declare. -/
def accesses (passes : List Pass) (i : Fin passes.length) : Access := (passes.get i).access

/-- Takes passes out of their slots in the given order. What was taken is not there again. -/
def takeSlots {n : Nat} (slots : Fin n → Option Pass) : List (Fin n) → List Pass
  | [] => []
  | i :: rest =>
    match slots i with
    | some pass => pass :: takeSlots (fun j => if j = i then none else slots j) rest
    | none => takeSlots slots rest

/-- Puts passes into the order in which they run. -/
def ofPasses (passes : List Pass) : Except AnalysisError Pipeline :=
  match Schedule.order (accesses passes) with
  | .ok order => .ok ⟨takeSlots (fun i => some (passes.get i)) order⟩
  | .error e => .error e

/-- The names of the passes in the order in which they run. -/
def passNames (p : Pipeline) : List String := p.passes.map Pass.name

/-- The fields that the passes may record. -/
def fields (p : Pipeline) : List FieldDecl := p.passes.flatMap fun pass => pass.access.writes

/-! ## The walk -/

/-- The passes with their states, and what they have left so far. -/
structure Progress where
  passes : List Pass.Running
  notes : Notes

/-- The passes before a run. -/
def start (p : Pipeline) : Progress := ⟨p.passes.map Pass.begin, ⟨∅, []⟩⟩

/-- Every pass at a call, up to the first error. -/
def visitCall (g : Graph) (id : NodeId) (c : Call) :
    List Pass.Running → Notes → Progress × Option AnalysisError
  | [], notes => (⟨[], notes⟩, none)
  | r :: rest, notes =>
    match (r.pass.onCall g id c r.state).run r.pass.access id notes with
    | (notes, .error e) => (⟨r :: rest, notes⟩, some e)
    | (notes, .ok state) =>
      match visitCall g id c rest notes with
      | (⟨rest, notes⟩, e) => (⟨⟨r.pass, state⟩ :: rest, notes⟩, e)

/-- Every pass at a variable or a constant. -/
def visitLeaf (n : Node) (passes : List Pass.Running) : List Pass.Running :=
  passes.map fun r => ⟨r.pass, r.pass.onLeaf n r.state⟩

/-- Every pass at a node. A call has an entry in the store even if nothing is recorded for it. -/
def visit (g : Graph) : Walk.Visitor Progress AnalysisError := fun id s =>
  match g.node? id with
  | none => (s, some (.graph (.nodeNotFound id)))
  | some n =>
    match n.kind with
    | .call c =>
      visitCall g id c s.passes { s.notes with store := s.notes.store.openEntry id }
    | .var .. | .constant .. => ({ s with passes := visitLeaf n s.passes }, none)

/-! ## The summary -/

/-- The fields of a summary with the passes that produced them. -/
abbrev Produced := Dictionary (Value × String)

/-- Adds the fields that one pass produced. -/
def mergeFields (pass : String) :
    List (String × Value) → Produced → Except AnalysisError Produced
  | [], produced => .ok produced
  | (field, v) :: rest, produced =>
    match produced.get? field with
    | some (_, first) => .error (.summaryCollision field first pass)
    | none => mergeFields pass rest (produced.insert field (v, pass))

/-- Adds the fields that the passes of a list produce. -/
def mergeSummaries (details : DetailStore) :
    List Pass.Running → Produced → Except AnalysisError Produced
  | [], produced => .ok produced
  | r :: rest, produced =>
    match r.pass.onSummarize r.state details with
    | none => mergeSummaries details rest produced
    | some fragment =>
      match mergeFields r.pass.name fragment.entries produced with
      | .error e => .error e
      | .ok produced => mergeSummaries details rest produced

/-- The summary without the producers. -/
def summaryOf (produced : Produced) : Summary :=
  Dictionary.ofList (produced.entries.map fun e => (e.1, e.2.1))

/-- Analyses a graph. -/
def run (p : Pipeline) (g : Graph) : Except AnalysisError Analysis :=
  match g.walk .graph (visit g) p.start with
  | ⟨_, _, some e⟩ => .error e
  | ⟨_, s, none⟩ =>
    match mergeSummaries s.notes.store s.passes ∅ with
    | .error e => .error e
    | .ok produced => .ok ⟨g.name, s.notes.store, summaryOf produced, s.notes.anomalies⟩

end Pipeline

end GraphSurvey
