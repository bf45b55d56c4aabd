import GraphSurvey.Proofs.Pass.Effect
import Mathlib

/-!
# Hooks are confined

Whatever a hook does at a node, and however it goes on when a call is refused, it changes the fields
of this node that its pass declares and nothing else, and it learns nothing from fields that its
pass may not read. To speak of the calls of a hook, they are logged with the answers they get: the
hook with a log does what the hook does, and its result is that of the hook with the log.

## Main definitions

* `GraphSurvey.Exchange` — a call of a hook with the answer it gets.
* `GraphSurvey.Hook.logged` — the hook that also logs its calls.
* `GraphSurvey.Hook.take` — the hook that stops after some of its calls.
* `GraphSurvey.Confined` — what a hook may have changed.

## Main results

* `GraphSurvey.Hook.effect_logged`, `GraphSurvey.Hook.log_take` — what logging and stopping do.
* `GraphSurvey.Hook.fst_run_eq` — what a hook leaves is what its calls leave.
* `GraphSurvey.Hook.error?_of_mem_log` — the declarations decide which calls are refused.
* `GraphSurvey.Hook.run_confined` — a hook changes what its pass declares, and depends on what it
  may read.
-/

namespace GraphSurvey

/-! ## Calls and their answers -/

/-- A call that a hook makes, with the answer it gets. -/
inductive Exchange where
  | set (field : String) (v : Value) (refusal : Option AnalysisError)
  | get (node : NodeId) (field : String) (answer : Except AnalysisError (Option Value))
  | anomaly (message : String)

namespace Exchange

/-- The error with which the call is refused. -/
def error? : Exchange → Option AnalysisError
  | .set _ _ refusal => refusal
  | .get _ _ (.error e) => some e
  | .get _ _ (.ok _) => none
  | .anomaly _ => none

/-- The call is refused. -/
def Refused (x : Exchange) : Prop := x.error?.isSome

/-- The declarations cover the call: the first declaration of a field that is set has the kind of
the value, and a field that is got is one that the pass may read. -/
def Covered (a : Access) : Exchange → Prop
  | .set field v _ => ∃ decl, a.owned? field = some decl ∧ decl.kind = v.kind
  | .get _ field _ => a.MayRead field
  | .anomaly _ => True

/-- The field that the call sets, with its value. -/
def written? : Exchange → Option (String × Value)
  | .set field v none => some (field, v)
  | _ => none

/-- The anomaly that the call raises. -/
def raised? (a : Access) (id : NodeId) : Exchange → Option Anomaly
  | .anomaly message => some ⟨id, a.pass, message⟩
  | _ => none

/-- The value that the call offers for a field, if it is of the declared kind. -/
def offered? (decl : FieldDecl) : Exchange → Option Value
  | .set field v _ => if field = decl.name ∧ v.kind = decl.kind then some v else none
  | _ => none

theorem written?_of_refused {x : Exchange} (h : x.Refused) : x.written? = none := by
  cases x with
  | set field v refusal =>
    cases refusal with
    | none => cases h
    | some e => rfl
  | get => rfl
  | anomaly => rfl

theorem raised?_of_refused {x : Exchange} (a : Access) (id : NodeId) (h : x.Refused) :
    x.raised? a id = none := by
  cases x with
  | set => rfl
  | get => rfl
  | anomaly => cases h

end Exchange

/-- What calls at a node leave. -/
def Notes.afterCalls (a : Access) (id : NodeId) (n : Notes) (calls : List Exchange) : Notes where
  store := n.store.recordAll id (calls.filterMap Exchange.written?)
  anomalies := n.anomalies ++ calls.filterMap (Exchange.raised? a id)

/-- A call that is refused changes nothing. -/
theorem Notes.afterCalls_append_of_refused {a : Access} {id : NodeId} {n : Notes}
    {calls : List Exchange} {x : Exchange} (h : x.Refused) :
    n.afterCalls a id (calls ++ [x]) = n.afterCalls a id calls := by
  simp only [afterCalls, List.filterMap_append, List.filterMap_cons, List.filterMap_nil,
    Exchange.written?_of_refused h, Exchange.raised?_of_refused a id h, List.append_nil]

/-- What a hook of a pass may have changed at a node with its calls, and what it did change. -/
structure Confined (a : Access) (id : NodeId) (calls : List Exchange) (n n' : Notes) : Prop where
  /-- The details of every other node are as before. -/
  others : ∀ other, other ≠ id → n'.store.get? other = n.store.get? other
  /-- Every field that the pass does not declare is as before. -/
  undeclared : ∀ other field, ¬ a.Owns field →
    n'.store.field? other field = n.store.field? other field
  /-- The entries that there were have kept their order. -/
  order : n.store.nodes <+: n'.store.nodes
  /-- A declared field of the node holds the last value of the declared kind that was offered for
  it, and is as before if there is none. -/
  declared : ∀ field decl, a.owned? field = some decl →
    n'.store.field? id field =
      (calls.filterMap (Exchange.offered? decl)).getLast?.or (n.store.field? id field)
  /-- The anomalies that are reported come after those that were. -/
  anomalies : n'.anomalies = n.anomalies ++ calls.filterMap (Exchange.raised? a id)

namespace Access

/-- The error with which a call is refused by the declarations. -/
def error? (a : Access) : Exchange → Option AnalysisError
  | .set field v _ => a.writeError? field v.kind
  | .get _ field _ => a.readError? field
  | .anomaly _ => none

theorem error?_eq_none_iff {a : Access} {x : Exchange} : a.error? x = none ↔ x.Covered a := by
  cases x with
  | set field v refusal => exact writeError?_eq_none_iff
  | get node field answer => exact readError?_eq_none_iff
  | anomaly message => exact iff_of_true rfl trivial

end Access

namespace Hook

variable {α : Type} {a : Access} {id : NodeId}

/-! ## The log of a hook -/

/-- The program with one more call in its log. -/
def noting {ρ : Type} (x : Exchange) (h : Hook (ρ × List Exchange)) : Hook (ρ × List Exchange) :=
  h.bind fun out => .done (out.1, x :: out.2)

/-- The hook that also logs its calls. Its result is how the hook ends, with the log. -/
def logged : Hook α → Hook (Except AnalysisError α × List Exchange)
  | .done r => .done (.ok r, [])
  | .fail e => .done (.error e, [])
  | .set field v next =>
    .set field v fun refusal => (next refusal).logged.noting (.set field v refusal)
  | .get node field next =>
    .get node field fun answer => (next answer).logged.noting (.get node field answer)
  | .anomaly message next => .anomaly message (next.logged.noting (.anomaly message))

/-- The calls of a hook at a node, with their answers, if the fields hold what the view says. -/
def log (a : Access) (id : NodeId) : Hook α → View → List Exchange
  | .done _, _ => []
  | .fail _, _ => []
  | .set field v next, view =>
    match a.writeError? field v.kind with
    | none => .set field v none :: (next none).log a id (view.record id field v)
    | some e => .set field v (some e) :: (next (some e)).log a id view
  | .get other field next, view =>
    match a.readError? field with
    | none => .get other field (.ok (view other field)) ::
        (next (.ok (view other field))).log a id view
    | some e => .get other field (.error e) :: (next (.error e)).log a id view
  | .anomaly message next, view => .anomaly message :: next.log a id view

/-- The hook that stops after the given number of calls. -/
def take : Nat → Hook α → Hook Unit
  | 0, _ => .done ()
  | _ + 1, .done _ => .done ()
  | _ + 1, .fail _ => .done ()
  | k + 1, .set field v next => .set field v fun refusal => (next refusal).take k
  | k + 1, .get node field next => .get node field fun answer => (next answer).take k
  | k + 1, .anomaly message next => .anomaly message (next.take k)

/-- A program that notes a call has the effect of the program. -/
theorem effect_noting {ρ : Type} {h : Hook (ρ × List Exchange)} {view : View}
    {writes : List (String × Value)} {raised : List Anomaly} {result : ρ} {log : List Exchange}
    (x : Exchange) (hh : h.effect a id view = ⟨writes, raised, .ok (result, log)⟩) :
    (h.noting x).effect a id view = ⟨writes, raised, .ok (result, x :: log)⟩ := by
  have hdone := effect_bind (f := fun out => .done (out.1, x :: out.2)) hh rfl
  rwa [List.append_nil, List.append_nil] at hdone

/-- The hook with a log does what the hook does, and its result has the calls. -/
theorem effect_logged (a : Access) (id : NodeId) (h : Hook α) (view : View) :
    h.logged.effect a id view =
      ⟨(h.effect a id view).writes, (h.effect a id view).raised,
        .ok ((h.effect a id view).result, h.log a id view)⟩ := by
  induction h generalizing view with
  | done r => rfl
  | fail e => rfl
  | set field v next ih =>
    rw [logged, effect, effect, log]
    cases a.writeError? field v.kind with
    | none => simp only [effect_noting _ (ih none _)]
    | some e => exact effect_noting _ (ih (some e) view)
  | get other field next ih =>
    rw [logged, effect, effect, log]
    cases a.readError? field with
    | none => exact effect_noting _ (ih _ view)
    | some e => exact effect_noting _ (ih (.error e) view)
  | anomaly message next ih =>
    rw [logged, effect, effect, log]
    simp only [effect_noting _ (ih view)]

/-- A hook that stops makes the first calls of the hook and gets their answers. -/
theorem log_take (k : Nat) (h : Hook α) (view : View) :
    (h.take k).log a id view = (h.log a id view).take k := by
  induction h generalizing k view with
  | done r => cases k <;> rfl
  | fail e => cases k <;> rfl
  | set field v next ih =>
    cases k with
    | zero => rfl
    | succ k =>
      rw [take, log, log]
      cases a.writeError? field v.kind with
      | none => simp only [ih, List.take_succ_cons]
      | some e => simp only [ih, List.take_succ_cons]
  | get other field next ih =>
    cases k with
    | zero => rfl
    | succ k =>
      rw [take, log, log]
      cases a.readError? field with
      | none => simp only [ih, List.take_succ_cons]
      | some e => simp only [ih, List.take_succ_cons]
  | anomaly message next ih =>
    cases k with
    | zero => rfl
    | succ k => rw [take, log, log, ih, List.take_succ_cons]

/-! ## What the calls leave -/

/-- What a hook sets and raises is what its calls set and raise. -/
theorem effect_eq_of_log (a : Access) (id : NodeId) (h : Hook α) (view : View) :
    (h.effect a id view).writes = (h.log a id view).filterMap Exchange.written? ∧
      (h.effect a id view).raised = (h.log a id view).filterMap (Exchange.raised? a id) := by
  induction h generalizing view with
  | done r => exact ⟨rfl, rfl⟩
  | fail e => exact ⟨rfl, rfl⟩
  | set field v next ih =>
    rw [effect, log]
    cases a.writeError? field v.kind with
    | none =>
      obtain ⟨hwrites, hraised⟩ := ih none (view.record id field v)
      exact ⟨congrArg ((field, v) :: ·) hwrites, hraised⟩
    | some e => exact ih (some e) view
  | get other field next ih =>
    rw [effect, log]
    cases a.readError? field with
    | none => exact ih _ view
    | some e => exact ih (.error e) view
  | anomaly message next ih =>
    obtain ⟨hwrites, hraised⟩ := ih view
    exact ⟨hwrites, congrArg ((⟨id, a.pass, message⟩ : Anomaly) :: ·) hraised⟩

/-- The notes after a hook are those after its calls. -/
theorem fst_run_eq (h : Hook α) (n : Notes) :
    (h.run a id n).1 = n.afterCalls a id (h.log a id n.store.field?) := by
  obtain ⟨hwrites, hraised⟩ := effect_eq_of_log a id h n.store.field?
  rw [run_eq, hwrites, hraised, Notes.afterCalls]

/-- The calls that are refused are those that the declarations refuse. -/
theorem error?_of_mem_log {h : Hook α} {view : View} {x : Exchange} (hx : x ∈ h.log a id view) :
    x.error? = a.error? x := by
  induction h generalizing view with
  | done r => cases hx
  | fail e => cases hx
  | set field v next ih =>
    rw [log] at hx
    split at hx
    case h_1 herror =>
      rcases List.mem_cons.mp hx with rfl | hx
      · exact herror.symm
      · exact ih none hx
    case h_2 e herror =>
      rcases List.mem_cons.mp hx with rfl | hx
      · exact herror.symm
      · exact ih (some e) hx
  | get other field next ih =>
    rw [log] at hx
    split at hx
    case h_1 herror =>
      rcases List.mem_cons.mp hx with rfl | hx
      · exact herror.symm
      · exact ih _ hx
    case h_2 e herror =>
      rcases List.mem_cons.mp hx with rfl | hx
      · exact herror.symm
      · exact ih (.error e) hx
  | anomaly message next ih =>
    rcases List.mem_cons.mp hx with rfl | hx
    · rfl
    · exact ih hx

/-- A declared field is set by the calls that offer a value of the declared kind for it. -/
theorem written?_of_mem_log {h : Hook α} {view : View} {x : Exchange} (hx : x ∈ h.log a id view)
    {field : String} {decl : FieldDecl} (hdecl : a.owned? field = some decl) :
    (x.written?.bind fun w => if w.1 = field then some w.2 else none) = x.offered? decl := by
  have hname : decl.name = field := by simpa using List.find?_some hdecl
  cases x with
  | set name v refusal =>
    have herror : refusal = a.writeError? name v.kind := error?_of_mem_log hx
    by_cases hfield : name = field
    · rw [hfield, Access.writeError?, hdecl] at herror
      by_cases hkind : decl.kind = v.kind
      · simp [Exchange.written?, Exchange.offered?, herror, hfield, hname, hkind]
      · simp [Exchange.written?, Exchange.offered?, herror, hkind, Ne.symm hkind]
    · cases refusal with
      | none => simp [Exchange.written?, Exchange.offered?, hname, hfield]
      | some e => simp [Exchange.written?, Exchange.offered?, hname, hfield]
  | get => rfl
  | anomaly => rfl

/-! ## Confinement -/

/-- A hook changes what its pass may change. -/
theorem confined_run (h : Hook α) (n : Notes) :
    Confined a id (h.log a id n.store.field?) n (h.run a id n).1 where
  others other hother := by
    rw [run_eq]
    exact DetailStore.get?_recordAll_of_ne hother _
  undeclared other field hfield := by
    rw [run_eq, DetailStore.field?_recordAll]
    exact recordAll_effect_of_not_owns hfield
  order := by
    rw [run_eq]
    exact DetailStore.nodes_isPrefix_recordAll _ _ _
  declared field decl hdecl := by
    rw [fst_run_eq, Notes.afterCalls, DetailStore.field?_recordAll, View.recordAll_eq_getLast?,
      List.filterMap_filterMap]
    congr 2
    exact List.filterMap_congr fun x hx => written?_of_mem_log hx hdecl
  anomalies := by rw [fst_run_eq, Notes.afterCalls]

/-- A call that is refused leaves the notes as they are. -/
theorem fst_run_take_succ {h : Hook α} {n : Notes} {k : Nat} {x : Exchange}
    (hx : (h.log a id n.store.field?)[k]? = some x) (hrefused : x.Refused) :
    ((h.take (k + 1)).run a id n).1 = ((h.take k).run a id n).1 := by
  rw [fst_run_eq, fst_run_eq, log_take, log_take, List.take_add_one, hx]
  exact Notes.afterCalls_append_of_refused hrefused

/-- A hook touches only the fields of its node that its pass declares, whatever it calls and
however it goes on: what it changes is confined to them, a call is refused if the declarations do
not cover it, and then it changes nothing, and how the calls are answered depends on nothing but the
fields that the pass may read. -/
theorem run_confined (h : Hook α) (a : Access) (id : NodeId) (n : Notes) :
    ∃ n' result calls,
      h.run a id n = (n', result) ∧
      h.logged.run a id n = (n', .ok (result, calls)) ∧
      Confined a id calls n n' ∧
      (∀ k x, calls[k]? = some x →
        (x.Refused ↔ ¬ x.Covered a) ∧
        (x.Refused → ((h.take (k + 1)).run a id n).1 = ((h.take k).run a id n).1)) ∧
      ∀ m : Notes,
        (∀ field, a.MayRead field →
          ∀ other, m.store.field? other field = n.store.field? other field) →
        (h.logged.run a id m).2 = .ok (result, calls) := by
  have hlogged := effect_logged a id h n.store.field?
  refine ⟨(h.run a id n).1, (h.run a id n).2, h.log a id n.store.field?, rfl, ?_, confined_run h n,
    fun k x hx => ⟨?_, fst_run_take_succ hx⟩, fun m hm => ?_⟩
  · rw [run_eq, run_eq, hlogged]
  · rw [← Access.error?_eq_none_iff, ← error?_of_mem_log (List.mem_of_getElem? hx),
      Exchange.Refused, Option.isSome_iff_ne_none]
  · rw [run_eq, effect_congr h.logged hm, hlogged, run_eq]

end Hook

end GraphSurvey
