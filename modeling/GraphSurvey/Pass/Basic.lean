import GraphSurvey.Pass.Access

/-!
# Passes

A pass is a description of one unit of extraction. What it gathers while a graph is walked is in a
state of its own type, which starts anew with every run.

## Main definitions

* `GraphSurvey.Pass` — a pass.
* `GraphSurvey.Pass.Running` — a pass with its state during a run.
-/

namespace GraphSurvey

/-- A unit of extraction. -/
structure Pass where
  access : Access
  State : Type
  start : State
  /-- What the pass does at a call, after the arguments of the call were visited. -/
  onCall : Graph → NodeId → Call → State → Hook State
  /-- What the pass does at a variable or a constant. -/
  onLeaf : Node → State → State
  /-- What the pass says of the graph when all nodes were visited. -/
  onSummarize : State → DetailStore → Option Summary

namespace Pass

/-- The name of the pass. -/
def name (p : Pass) : String := p.access.pass

/-- A pass that keeps no state and does nothing but extract fields from calls. -/
def extractor (access : Access) (onCall : Graph → NodeId → Call → Hook Unit) : Pass where
  access := access
  State := Unit
  start := ()
  onCall g id c _ := onCall g id c
  onLeaf _ s := s
  onSummarize _ _ := none

/-- A pass and its state in a run. -/
structure Running where
  pass : Pass
  state : pass.State

/-- The pass at the start of a run. -/
def begin (p : Pass) : Running := ⟨p, p.start⟩

end Pass

end GraphSurvey
