import GraphSurvey.Proofs.Builder.History
import GraphSurvey.Proofs.Walk.WellFormed

/-!
# Operations across contexts

Operations may have operands of several contexts. Only the context of the first operand gets the
call, and all other contexts stay as they are. The call names its arguments by their positions,
which are looked up in the context that gets the call. So the graphs of a session are well-formed
whatever operands meet, but an operand of another context stands for the node that happens to be at
its position.

## Main definitions

* `GraphSurvey.Session.GrowsBy` — a session with one more node in one context.

## Main results

* `GraphSurvey.Session.Made.wellFormed` — the graphs of a session that is made are well-formed.
* `GraphSurvey.Session.Made.handles_and_growth` — what every session keeps.
* `GraphSurvey.Session.Made.operation_wired` — what the arguments of a call are.
-/

namespace GraphSurvey.Session

variable {allowed : Operation → Prop} {s s' : Session} {held : List Tensor} {a : Act}
  {c : ContextId} {kind : NodeKind}

/-! ## One more node -/

/-- The second session is the first one with one more node in one context. -/
structure GrowsBy (s s' : Session) (c : ContextId) (kind : NodeKind) : Prop where
  size : s'.graphs.size = s.graphs.size
  graph : ∀ k, s'.graph k = if k = c then (s.graph c).push kind else s.graph k

theorem growsBy_append (hc : c.index < s.graphs.size) (kind : NodeKind) :
    s.GrowsBy (s.append c kind) c kind :=
  ⟨size_append s c kind, graph_append hc⟩

/-- The graphs of a session stay well-formed when a node is added after its arguments. -/
theorem wellFormed_append (h : ∀ k, (s.graph k).WellFormed) (hc : c.index < s.graphs.size)
    (hargs : ∀ a ∈ kind.args, a.index < (s.graph c).nodes.size) (k : ContextId) :
    ((s.append c kind).graph k).WellFormed := by
  rw [graph_append hc]
  split
  · exact (h c).push hargs
  · exact h k

/-- An act keeps the graphs of a session well-formed. -/
theorem wellFormed_run (h : ∀ k, (s.graph k).WellFormed) (hs : s.Coherent held)
    (ha : a.Legal allowed s held) (k : ContextId) : ((a.run s).2.graph k).WellFormed := by
  cases a with
  | openContext name => exact (h k).of_node?_eq (node?_opened s name k)
  | addVar c name role ty =>
    have hargs : ∀ x ∈ (NodeKind.var name role ty).args, x.index < (s.graph c).nodes.size := nofun
    exact wellFormed_append h ha hargs k
  | addLiteral c name value =>
    have hargs : ∀ x ∈ (NodeKind.constant name value).args, x.index < (s.graph c).nodes.size :=
      nofun
    exact wellFormed_append h ha hargs k
  | operation o =>
    rcases o.perform_cases s with ⟨e, hrun⟩ | ⟨x, rest, ty, hoperands, -, hmissing, hrun⟩
    · rw [Act.run, hrun]
      exact h k
    · have hx : x ∈ held := ha.2 x (by simp [hoperands])
      have hargs : ∀ y ∈ (NodeKind.call (o.call ty)).args,
          y.index < (s.graph x.context).nodes.size :=
        Graph.missing?_eq_none_iff.mp hmissing
      rw [Act.run, hrun]
      exact wellFormed_append h (hs.context x hx) hargs k

/-- The graphs of a session that is made are well-formed. -/
theorem Made.wellFormed (h : s.Made allowed held) (k : ContextId) : (s.graph k).WellFormed := by
  induction h generalizing k with
  | empty => exact Graph.wellFormed_empty ""
  | act hs ha ih => exact wellFormed_run ih hs.coherent ha k

/-- The node of a handle, which is there and has the type of the handle. -/
theorem Coherent.exists_node (h : s.Coherent held) {x : Tensor} (hx : x ∈ held) :
    ∃ n, (s.graph x.context).node? x.node = some n ∧ n.declaredType = x.type :=
  Option.map_eq_some_iff.mp (h.type x hx)

/-! ## Two contexts -/

/-- An image in one context. -/
def image : Tensor := ⟨⟨0⟩, ⟨0⟩, .tensor [1, 784]⟩

/-- A matrix in another context. -/
def weight : Tensor := ⟨⟨1⟩, ⟨0⟩, .tensor [256, 784]⟩

/-- A session with an image in one context and a matrix in another. -/
def twoNets : Session :=
  ⟨#[⟨"net", #[⟨⟨0⟩, .var "image" .input (.tensor [1, 784])⟩], []⟩,
    ⟨"other", #[⟨⟨0⟩, .var "weight" .parameter (.tensor [256, 784])⟩], []⟩]⟩

/-- The product of the image and the matrix. -/
def product : Tensor := ⟨⟨0⟩, ⟨1⟩, .tensor [1, 256]⟩

/-- The session after the product was formed. Both arguments of the call are the image. -/
def twoNetsAfter : Session :=
  twoNets.append ⟨0⟩ (.call (.plain "nn.dense" [⟨0⟩, ⟨0⟩] (.tensor [1, 256])))

theorem twoNets_made : twoNets.Made (fun _ => True) [weight, image] := by
  have hnet : Made (fun _ => True) _ _ := Made.act (a := .openContext "net") .empty trivial
  have himage := hnet.act (a := .addVar ⟨0⟩ "image" .input (.tensor [1, 784]))
    (by exact Nat.one_pos)
  have hother := himage.act (a := .openContext "other") trivial
  exact hother.act (a := .addVar ⟨1⟩ "weight" .parameter (.tensor [256, 784]))
    (by exact Nat.one_lt_two)

theorem perform_product :
    (Operation.dense image weight).perform twoNets = (.ok product, twoNetsAfter) := rfl

theorem operands_product : ∀ x ∈ (Operation.dense image weight).operands, x ∈ [weight, image] := by
  simp [Operation.operands]

theorem twoNetsAfter_made : twoNetsAfter.Made (fun _ => True) [product, weight, image] :=
  twoNets_made.act (a := .operation (.dense image weight)) ⟨trivial, operands_product⟩

/-! ## What sessions keep -/

/-- Every handle that was ever returned in a session names a node of its own context that has its
type. A variable or a literal adds one node to its context and nothing else. So does an operation
to the context of its first operand, wherever the others are from, or it fails and leaves all
contexts as they are. And the graph of a handle's context, with its node as the output, has all
labels in order and is walked to the end, with that node as the last. -/
theorem Made.handles_and_growth (h : s.Made allowed held) :
    (∀ x ∈ held, ∃ n, (s.graph x.context).node? x.node = some n ∧ n.declaredType = x.type) ∧
    (∀ c, c.index < s.graphs.size →
      (∀ name role ty,
        s.GrowsBy ((Assembly.newVar c name role ty).run s).2 c (.var name role ty)) ∧
      ∀ name value,
        s.GrowsBy ((Assembly.newLiteral c name value).run s).2 c (.constant name value)) ∧
    (∀ o : Operation, (∀ x ∈ o.operands, x ∈ held) →
      (∃ e, o.perform s = (.error e, s)) ∨
      ∃ x rest call s', o.operands = x :: rest ∧ s.GrowsBy s' x.context (.call call) ∧
        o.perform s = (.ok ⟨x.context, (s.graph x.context).nextId, call.result⟩, s')) ∧
    ∀ x ∈ held, (s.finish x.context x).checkIds = .ok () ∧
      ∃ before, (s.finish x.context x).order = .ok (before ++ [x.node]) := by
  have hcoherent := h.coherent
  refine ⟨fun x => hcoherent.exists_node, fun c hc => ⟨fun _ _ _ => growsBy_append hc _,
    fun _ _ => growsBy_append hc _⟩, fun o hheld => ?_, fun x hx => ?_⟩
  · rcases o.perform_cases s with hfailed | ⟨x, rest, ty, hoperands, -, -, hrun⟩
    · exact .inl hfailed
    · have hx : x ∈ held := hheld x (by simp [hoperands])
      exact .inr ⟨x, rest, o.call ty, _, hoperands, growsBy_append (hcoherent.context x hx) _, hrun⟩
  · obtain ⟨n, hn, -⟩ := hcoherent.exists_node hx
    have hgraph := h.wellFormed x.context
    exact ⟨(hgraph.withOutputs [x.node]).checkIds,
      hgraph.exists_order_setOutput (Graph.node?_lt hn)⟩

theorem handles_and_growth_twoNets :
    twoNetsAfter.Made (fun _ => True) [product, weight, image] ∧
      (twoNetsAfter.finish ⟨0⟩ product).checkIds = .ok () ∧
      ∃ before, (twoNetsAfter.finish ⟨0⟩ product).order = .ok (before ++ [⟨1⟩]) := by
  obtain ⟨-, -, -, hfinish⟩ := Made.handles_and_growth twoNetsAfter_made
  exact ⟨twoNetsAfter_made, hfinish product List.mem_cons_self⟩

/-- The call that an operation appends has the positions of the operands for its arguments, and the
type of the operation for its result. An operand of the context that gets the call is the argument
at its place, a node with the type of the operand; for an operand of another context it is the
node of the receiving context that is at the same position. -/
theorem Made.operation_wired (h : s.Made allowed held) {o : Operation}
    (hheld : ∀ x ∈ o.operands, x ∈ held) {r : Tensor} (hrun : o.perform s = (.ok r, s')) :
    ∃ call, (s'.graph r.context).node? r.node = some ⟨r.node, .call call⟩ ∧
      call.args = o.operands.map Tensor.node ∧ o.type = .ok call.result ∧
      ∀ x ∈ o.operands,
        (s'.graph r.context).typeOf? x.node = (s.graph r.context).typeOf? x.node ∧
        ((s.graph r.context).typeOf? x.node).isSome ∧
        (x.context = r.context → (s'.graph r.context).typeOf? x.node = some x.type) := by
  rcases o.perform_cases s with ⟨e, hfailed⟩ | ⟨x, rest, ty, hoperands, hty, hmissing, hrun'⟩
  · cases (Prod.mk.inj (hfailed.symm.trans hrun)).1
  · obtain ⟨hr, rfl⟩ := Prod.mk.inj (hrun'.symm.trans hrun)
    obtain rfl := Except.ok.inj hr
    have hcoherent := h.coherent
    have hc : x.context.index < s.graphs.size := hcoherent.context x (hheld x (by simp [hoperands]))
    refine ⟨o.call ty, node?_append_self hc, rfl, hty, fun y hy => ?_⟩
    have hlt : y.node.index < (s.graph x.context).nodes.size :=
      Graph.missing?_eq_none_iff.mp hmissing _ (List.mem_map_of_mem hy)
    obtain ⟨ty', hty'⟩ : ∃ ty', (s.graph x.context).typeOf? y.node = some ty' :=
      ⟨_, congrArg (Option.map Node.declaredType) (Array.getElem?_eq_getElem hlt)⟩
    have hkept := (extends_append hc (.call (o.call ty)) x.context).typeOf? hty'
    refine ⟨hkept.trans hty'.symm, by rw [hty']; rfl, fun hsame => ?_⟩
    have hyty := hcoherent.type y (hheld y hy)
    rw [hsame] at hyty
    exact (extends_append hc (.call (o.call ty)) x.context).typeOf? hyty

theorem operation_wired_twoNets :
    twoNets.Made (fun _ => True) [weight, image] ∧
      (∀ x ∈ (Operation.dense image weight).operands, x ∈ [weight, image]) ∧
      (Operation.dense image weight).perform twoNets = (.ok product, twoNetsAfter) ∧
      ∃ call, (twoNetsAfter.graph ⟨0⟩).node? ⟨1⟩ = some ⟨⟨1⟩, .call call⟩ ∧
        call.args = [⟨0⟩, ⟨0⟩] ∧ (twoNetsAfter.graph ⟨0⟩).typeOf? image.node = some image.type := by
  obtain ⟨call, hcall, hargs, -, hoperands⟩ :=
    twoNets_made.operation_wired operands_product perform_product
  exact ⟨twoNets_made, operands_product, perform_product, call, hcall, hargs,
    (hoperands image List.mem_cons_self).2.2 rfl⟩

/-- An operand of another context is not wired to the node that it names. The product of the image
and the matrix has the type of that product, and for its second argument a node that is no matrix of
the operand's type: the image. -/
theorem foreign_operand_not_wired :
    ∃ (s : Session) (held : List Tensor) (o : Operation) (r : Tensor) (s' : Session) (call : Call),
      s.Made (fun _ => True) held ∧ (∀ x ∈ o.operands, x ∈ held) ∧ o.operands = [image, weight] ∧
      o.perform s = (.ok r, s') ∧ (s'.graph r.context).node? r.node = some ⟨r.node, .call call⟩ ∧
      call.args = [image.node, weight.node] ∧ call.result = .tensor [1, 256] ∧
      (s'.graph r.context).typeOf? weight.node = some (.tensor [1, 784]) ∧
      weight.type = .tensor [256, 784] ∧
      (s'.graph r.context).typeOf? weight.node ≠ some weight.type :=
  ⟨twoNets, [weight, image], .dense image weight, product, twoNetsAfter, _, twoNets_made,
    operands_product, rfl, perform_product, rfl, rfl, rfl, rfl, rfl, nofun⟩

end GraphSurvey.Session
