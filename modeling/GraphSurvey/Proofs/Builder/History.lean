import GraphSurvey.Proofs.Builder.Operation
import GraphSurvey.Proofs.Graph.Growth

/-!
# Sessions that are made

A session is made by opening contexts, adding variables and literals to them, and performing
operations on the handles that were returned so far. Whatever such an act does, it opens an empty
context, appends one node to a context and returns a handle to it, or changes nothing. So a node
stays as it is once it is there, and every handle names a node of its context with its type.

## Main definitions

* `GraphSurvey.Act`, `GraphSurvey.Act.run` — the acts of a session and what they do.
* `GraphSurvey.Session.Made` — the sessions that are made, with the handles that were returned.
* `GraphSurvey.Session.Coherent` — every handle names a node of its type.

## Main results

* `GraphSurvey.Operation.perform_cases`, `GraphSurvey.Act.run_cases` — everything that an operation
  and an act can do.
* `GraphSurvey.Session.Coherent.extends_run` — nodes stay where they are.
* `GraphSurvey.Session.Made.coherent` — the handles of a session that is made are coherent.
-/

namespace GraphSurvey

/-! ## One more node -/

namespace Session

variable {s : Session} {c k : ContextId} {id : NodeId} {n : Node} {kind : NodeKind}

/-- The session with one more context, which has a graph without nodes. -/
def opened (s : Session) (name : String) : Session := ⟨s.graphs.push (Graph.empty name)⟩

/-- The session with one more node in a context. -/
def append (s : Session) (c : ContextId) (kind : NodeKind) : Session :=
  s.setGraph c ((s.graph c).push kind)

theorem graph_append (h : c.index < s.graphs.size) (k : ContextId) :
    (s.append c kind).graph k = if k = c then (s.graph c).push kind else s.graph k := by
  obtain ⟨c⟩ := c
  obtain ⟨k⟩ := k
  simp only [graph, append, setGraph, ContextId.mk.injEq, Array.getD_eq_getD_getElem?,
    Array.getElem?_setIfInBounds, if_pos h, eq_comm (a := k)]
  split <;> rfl

theorem size_append (s : Session) (c : ContextId) (kind : NodeKind) :
    (s.append c kind).graphs.size = s.graphs.size :=
  Array.size_setIfInBounds ..

/-- A context that is opened has no nodes, and the others stay as they are. -/
theorem node?_opened (s : Session) (name : String) (k : ContextId) (id : NodeId) :
    ((s.opened name).graph k).node? id = (s.graph k).node? id := by
  simp only [graph, opened, Array.getD_eq_getD_getElem?, Array.getElem?_push]
  split <;> simp_all [Graph.node?, Graph.empty]

theorem extends_opened (s : Session) (name : String) (k : ContextId) :
    (s.graph k).Extends ((s.opened name).graph k) :=
  fun id _ hn => (node?_opened s name k id).trans hn

/-- The nodes of all contexts stay where they are when one is added. -/
theorem extends_append (hc : c.index < s.graphs.size) (kind : NodeKind) (k : ContextId) :
    (s.graph k).Extends ((s.append c kind).graph k) := by
  rw [graph_append hc]
  split
  case isTrue heq =>
    subst heq
    exact Graph.extends_push _ kind
  case isFalse => exact .refl _

/-- The node that is added is at the position after the others. -/
theorem node?_append_self (hc : c.index < s.graphs.size) :
    ((s.append c kind).graph c).node? (s.graph c).nextId =
      some ⟨(s.graph c).nextId, kind⟩ := by
  rw [graph_append hc, if_pos rfl, Graph.node?_push, if_pos rfl]

/-- A call that is added to a context is one of its calls. -/
theorem mem_calls_append_self {call : Call} (hc : c.index < s.graphs.size) :
    ((s.graph c).nextId, call) ∈ ((s.append c (.call call)).graph c).calls :=
  Graph.mem_calls_iff.mpr ⟨_, node?_append_self hc⟩

/-- A node is the one that was added, or it was there before. -/
theorem of_node?_append (hc : c.index < s.graphs.size)
    (h : ((s.append c kind).graph k).node? id = some n) :
    (k = c ∧ n = ⟨(s.graph c).nextId, kind⟩) ∨ (s.graph k).node? id = some n := by
  rw [graph_append hc] at h
  split at h
  case isFalse => exact .inr h
  case isTrue heq =>
    subst heq
    rw [Graph.node?_push] at h
    split at h
    · exact .inl ⟨rfl, (Option.some.inj h).symm⟩
    · exact .inr h

end Session

/-- A call is appended to the context of a handle unless an argument is missing there. The first one
that is missing is the error, and the session stays as it is. -/
theorem Tensor.apply_eq (x : Tensor) (c : Call) (s : Session) :
    x.apply c s =
      match (s.graph x.context).missing? c.args with
      | some missing => (.error (.graph (.nodeNotFound missing)), s)
      | none => (.ok ⟨x.context, (s.graph x.context).nextId, c.result⟩,
          s.append x.context (.call c)) := by
  have hadd : (s.graph x.context).addCall c =
      match (s.graph x.context).missing? c.args with
      | some missing => .error (.nodeNotFound missing)
      | none => .ok ((s.graph x.context).nextId, (s.graph x.context).push (.call c)) :=
    Graph.addNode_eq _ (.call c)
  rw [apply, hadd]
  cases (s.graph x.context).missing? c.args <;> rfl

/-- An operation fails and leaves the session as it is, or it appends its call, whose arguments are
then all in the graph, to the context of its first operand. -/
theorem Operation.perform_cases (o : Operation) (s : Session) :
    (∃ e, o.perform s = (.error e, s)) ∨
    ∃ x rest ty, o.operands = x :: rest ∧ o.type = .ok ty ∧
      (s.graph x.context).missing? (o.call ty).args = none ∧
      o.perform s = (.ok ⟨x.context, (s.graph x.context).nextId, ty⟩,
        s.append x.context (.call (o.call ty))) := by
  cases hty : o.type with
  | error e => exact .inl ⟨e, perform_of_error hty s⟩
  | ok ty =>
    obtain ⟨x, rest, hoperands, hperform⟩ := perform_of_ok hty s
    rw [hperform, Tensor.apply_eq]
    cases hmissing : (s.graph x.context).missing? (o.call ty).args with
    | some missing => exact .inl ⟨_, rfl⟩
    | none => exact .inr ⟨x, rest, ty, hoperands, rfl, hmissing, rfl⟩

/-! ## Acts -/

/-- What is done next in a session. -/
inductive Act where
  | openContext (name : String)
  | addVar (c : ContextId) (name : String) (role : VarRole) (ty : ResultType)
  | addLiteral (c : ContextId) (name : String) (value : Literal)
  | operation (o : Operation)

namespace Act

/-- What the act returns and the session after it. -/
def run : Act → Session → Option Tensor × Session
  | openContext name, s => (none, ((Assembly.newContext name).run s).2)
  | addVar c name role ty, s =>
    let (x, s') := (Assembly.newVar c name role ty).run s
    (some x, s')
  | addLiteral c name value, s =>
    let (x, s') := (Assembly.newLiteral c name value).run s
    (some x, s')
  | operation o, s =>
    let (r, s') := o.perform s
    (r.toOption, s')

/-- The act can be done when the given handles were returned: its context is there, and its operands
are among the handles. The operations are those that are allowed. -/
def Legal (allowed : Operation → Prop) (s : Session) (held : List Tensor) : Act → Prop
  | openContext _ => True
  | addVar c .. | addLiteral c .. => c.index < s.graphs.size
  | operation o => allowed o ∧ ∀ x ∈ o.operands, x ∈ held

/-- The act adds a node of the given kind to a context. -/
inductive Appends : Act → ContextId → NodeKind → Prop
  | var (c : ContextId) (name : String) (role : VarRole) (ty : ResultType) :
    Appends (addVar c name role ty) c (.var name role ty)
  | literal (c : ContextId) (name : String) (value : Literal) :
    Appends (addLiteral c name value) c (.constant name value)
  | call {o : Operation} {x : Tensor} {rest : List Tensor} {ty : ResultType}
    (hoperands : o.operands = x :: rest) (hty : o.type = .ok ty) :
    Appends (operation o) x.context (.call (o.call ty))

/-- An act changes nothing, opens a context, or appends one node to a context and returns a handle
to it. -/
theorem run_cases (a : Act) (s : Session) :
    a.run s = (none, s) ∨ (∃ name, a.run s = (none, s.opened name)) ∨
      ∃ c kind, a.Appends c kind ∧ a.run s =
        (some ⟨c, (s.graph c).nextId, (⟨(s.graph c).nextId, kind⟩ : Node).declaredType⟩,
          s.append c kind) := by
  cases a with
  | openContext name => exact .inr (.inl ⟨name, rfl⟩)
  | addVar c name role ty => exact .inr (.inr ⟨c, _, .var c name role ty, rfl⟩)
  | addLiteral c name value => exact .inr (.inr ⟨c, _, .literal c name value, rfl⟩)
  | operation o =>
    rcases o.perform_cases s with ⟨e, h⟩ | ⟨x, rest, ty, hoperands, hty, -, h⟩
    · exact .inl (by rw [run, h]; rfl)
    · exact .inr (.inr ⟨x.context, _, .call hoperands hty, by rw [run, h]; rfl⟩)

end Act

/-! ## Sessions -/

namespace Session

/-- The session is made by allowed acts, which have returned the given handles, the latest first. -/
inductive Made (allowed : Operation → Prop) : Session → List Tensor → Prop
  | empty : Made allowed .empty []
  | act {s : Session} {held : List Tensor} {a : Act} (h : Made allowed s held)
    (ha : a.Legal allowed s held) : Made allowed (a.run s).2 ((a.run s).1.toList ++ held)

/-- Every handle names a node of its context with its type. -/
structure Coherent (s : Session) (held : List Tensor) : Prop where
  context : ∀ x ∈ held, x.context.index < s.graphs.size
  type : ∀ x ∈ held, (s.graph x.context).typeOf? x.node = some x.type

variable {allowed : Operation → Prop} {s : Session} {held : List Tensor} {a : Act}

/-- A node is added only to a context that is there. -/
theorem Coherent.context_of_appends {c : ContextId} {kind : NodeKind} (h : s.Coherent held)
    (ha : a.Legal allowed s held) (happends : a.Appends c kind) : c.index < s.graphs.size := by
  cases happends with
  | var | literal => exact ha
  | @call o x rest ty hoperands hty => exact h.context x (ha.2 x (by simp [hoperands]))

/-- What an act does leaves the nodes that are there where they are. -/
theorem Coherent.extends_run (h : s.Coherent held) (ha : a.Legal allowed s held) (k : ContextId) :
    (s.graph k).Extends ((a.run s).2.graph k) := by
  rcases a.run_cases s with hrun | ⟨name, hrun⟩ | ⟨c, kind, happends, hrun⟩
  · rw [hrun]
    exact .refl _
  · rw [hrun]
    exact extends_opened s name k
  · rw [hrun]
    exact extends_append (h.context_of_appends ha happends) kind k

/-- What an act does leaves the contexts that are there. -/
theorem size_le_run (a : Act) (s : Session) : s.graphs.size ≤ (a.run s).2.graphs.size := by
  rcases a.run_cases s with hrun | ⟨name, hrun⟩ | ⟨c, kind, -, hrun⟩
  · rw [hrun]
  · rw [hrun, opened, Array.size_push]
    exact Nat.le_succ _
  · rw [hrun, size_append]

/-- The handle that an act returns names the node that it has added. -/
theorem Coherent.returned (h : s.Coherent held) (ha : a.Legal allowed s held) {x : Tensor}
    (hx : x ∈ (a.run s).1) : x.context.index < s.graphs.size ∧
      ((a.run s).2.graph x.context).typeOf? x.node = some x.type := by
  rcases a.run_cases s with hrun | ⟨name, hrun⟩ | ⟨c, kind, happends, hrun⟩
  · rw [hrun] at hx
    cases hx
  · rw [hrun] at hx
    cases hx
  · rw [hrun] at hx ⊢
    obtain rfl := Option.some.inj hx
    have hc := h.context_of_appends ha happends
    exact ⟨hc, by rw [Graph.typeOf?, node?_append_self hc, Option.map_some]⟩

/-- An act keeps the handles coherent, with the one that it returns. -/
theorem Coherent.run (h : s.Coherent held) (ha : a.Legal allowed s held) :
    (a.run s).2.Coherent ((a.run s).1.toList ++ held) where
  context x hx := by
    refine Nat.lt_of_lt_of_le ?_ (size_le_run a s)
    rcases List.mem_append.mp hx with hx | hx
    · exact (h.returned ha (Option.mem_toList.mp hx)).1
    · exact h.context x hx
  type x hx := by
    rcases List.mem_append.mp hx with hx | hx
    · exact (h.returned ha (Option.mem_toList.mp hx)).2
    · exact (h.extends_run ha x.context).typeOf? (h.type x hx)

/-- The handles of a session that is made are coherent. -/
theorem Made.coherent (h : s.Made allowed held) : s.Coherent held := by
  induction h with
  | empty => exact ⟨nofun, nofun⟩
  | act _ ha ih => exact ih.run ha

/-- An operation on handles of one context succeeds if its result has a type, since the nodes of its
operands are all there. -/
theorem Coherent.perform_operation (h : s.Coherent held) {o : Operation} {x : Tensor}
    {rest : List Tensor} {ty : ResultType} (hoperands : o.operands = x :: rest)
    (hheld : ∀ y ∈ o.operands, y ∈ held) (hcontext : ∀ y ∈ o.operands, y.context = x.context)
    (hty : o.type = .ok ty) :
    o.perform s =
      (.ok ⟨x.context, (s.graph x.context).nextId, ty⟩,
        s.append x.context (.call (o.call ty))) := by
  obtain ⟨y, _, hy, hperform⟩ := Operation.perform_of_ok hty s
  obtain ⟨rfl, -⟩ := List.cons.inj (hy.symm.trans hoperands)
  have hargs : (s.graph y.context).missing? (o.call ty).args = none := by
    rw [Graph.missing?_eq_none_iff]
    intro a ha
    obtain ⟨z, hz, rfl⟩ := List.mem_map.mp ha
    obtain ⟨n, hn, -⟩ := Option.map_eq_some_iff.mp (h.type z (hheld z hz))
    rw [hcontext z hz] at hn
    exact Graph.node?_lt hn
  rw [hperform, Tensor.apply_eq, hargs]
  rfl

/-- An operation on handles of one context succeeds exactly if its result has a type. -/
theorem Coherent.perform_accepted_iff (h : s.Coherent held) {o : Operation} {x : Tensor}
    {rest : List Tensor} (hoperands : o.operands = x :: rest) (hheld : ∀ y ∈ o.operands, y ∈ held)
    (hcontext : ∀ y ∈ o.operands, y.context = x.context) :
    (∃ y s', o.perform s = (.ok y, s')) ↔ ∃ ty, o.type = .ok ty := by
  constructor
  · rintro ⟨y, s', hrun⟩
    cases hty : o.type with
    | error e => cases congrArg Prod.fst (hrun.symm.trans (Operation.perform_of_error hty s))
    | ok ty => exact ⟨ty, rfl⟩
  · rintro ⟨ty, hty⟩
    exact ⟨_, _, h.perform_operation hoperands hheld hcontext hty⟩

theorem Coherent.run_operation (h : s.Coherent held) {o : Operation} {x : Tensor}
    {rest : List Tensor} {ty : ResultType} (hoperands : o.operands = x :: rest)
    (hheld : ∀ y ∈ o.operands, y ∈ held) (hcontext : ∀ y ∈ o.operands, y.context = x.context)
    (hty : o.type = .ok ty) :
    (Act.operation o).run s =
      (some ⟨x.context, (s.graph x.context).nextId, ty⟩,
        s.append x.context (.call (o.call ty))) := by
  rw [Act.run, h.perform_operation hoperands hheld hcontext hty]
  rfl

end Session

end GraphSurvey
