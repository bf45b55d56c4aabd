import GraphSurvey.Proofs.Builder.Contexts
import GraphSurvey.Proofs.Builder.Layers

/-!
# Sessions with layers

Layers are made in the contexts of a session while it goes on, and some are changed afterwards. What
happens then does not touch the parameters of a layer, so that it can be used at any time on any
handle of its context. It appends all of its calls or none.

## Main definitions

* `GraphSurvey.Fixture` — a layer with its context and its blueprint.
* `GraphSurvey.Session.Equipped` — the sessions with layers that can be made.
* `GraphSurvey.Session.GrowsByCalls` — a session with a number of calls more in one context.
* `GraphSurvey.Fixture.Appends` — all that a layer does when it succeeds.

## Main results

* `GraphSurvey.Session.Equipped.made`, `GraphSurvey.Session.Equipped.builtAs` — what a session with
  layers keeps.
* `GraphSurvey.Session.Equipped.layer_appends_all_or_nothing` — a layer succeeds as soon as its
  first operation does, and changes nothing otherwise.
-/

namespace GraphSurvey

/-! ## Layers that are made and changed -/

namespace Layer

/-- The second layer is the first one with another choice. -/
inductive Changed : Layer → Layer → Prop
  | stride (l : ConvTranspose2d) (stride : Nat × Nat) :
    Changed (.convTranspose2d l) (.convTranspose2d (l.withStride stride))
  | padding (l : ConvTranspose2d) (padding : Nat × Nat) :
    Changed (.convTranspose2d l) (.convTranspose2d (l.withPadding padding))
  | outputPadding (l : ConvTranspose2d) (padding : Nat × Nat) :
    Changed (.convTranspose2d l) (.convTranspose2d (l.withOutputPadding padding))
  | epsilon (l : BatchNorm) (epsilon : Binary64) :
    Changed (.batchNorm l) (.batchNorm (l.withEpsilon epsilon))

/-- No change touches the parameters of a layer. -/
theorem BuiltAs.of_changed {c : ContextId} {held : List Tensor} {b : Blueprint} {l l' : Layer}
    (h : BuiltAs c held b l) (hchanged : Changed l l') : BuiltAs c held b l' := by
  cases hchanged with
  | stride | padding | outputPadding =>
    cases h with
    | convTranspose2d weight bias => exact .convTranspose2d weight bias
  | epsilon =>
    cases h with
    | batchNorm gamma beta mean var => exact .batchNorm gamma beta mean var

end Layer

/-- A layer with the context in which it was made and what it was asked to be. -/
structure Fixture where
  context : ContextId
  blueprint : Blueprint
  layer : Layer

namespace Session

variable {allowed : Operation → Prop} {s s' s₁ : Session} {held : List Tensor}
  {fixtures : List Fixture} {c : ContextId} {n : Nat}

/-- The session is made by allowed acts and by making layers in its contexts. It has returned the
given handles, the latest first, and the given layers with all that were made of them by changes. -/
inductive Equipped (allowed : Operation → Prop) :
    Session → List Tensor → List Fixture → Prop
  | empty : Equipped allowed .empty [] []
  | act {s : Session} {held : List Tensor} {fixtures : List Fixture} {a : Act}
    (h : Equipped allowed s held fixtures) (ha : a.Legal allowed s held) :
    Equipped allowed (a.run s).2 ((a.run s).1.toList ++ held) fixtures
  | make {s : Session} {held : List Tensor} {fixtures : List Fixture} {c : ContextId}
    (h : Equipped allowed s held fixtures) (hc : c.index < s.graphs.size) (name : String)
    (b : Blueprint) :
    Equipped allowed ((b.make c name).run s).2 (((b.make c name).run s).1.handles ++ held)
      (⟨c, b, ((b.make c name).run s).1⟩ :: fixtures)
  | change {s : Session} {held : List Tensor} {fixtures : List Fixture} {f : Fixture} {l : Layer}
    (h : Equipped allowed s held fixtures) (hf : f ∈ fixtures) (hl : f.layer.Changed l) :
    Equipped allowed s held ({ f with layer := l } :: fixtures)

/-- A parameter is a variable that is added to a context. -/
theorem Made.newParameter (h : s.Made allowed held) (hc : c.index < s.graphs.size) (name : String)
    (shape : Shape) :
    let (x, s') := (Assembly.newParameter c name shape).run s
    s'.Made allowed (x :: held) ∧ c.index < s'.graphs.size ∧ x.IsHeld c (x :: held) shape := by
  have hmade := h.act (a := .addVar c name .parameter (.tensor shape)) hc
  exact ⟨hmade, by rwa [← size_append s c (.var name .parameter (.tensor shape))] at hc,
    List.mem_cons_self, rfl, rfl⟩

/-- Making a layer adds its parameters, with the shapes that its blueprint asks for. -/
theorem Made.make (h : s.Made allowed held) (hc : c.index < s.graphs.size) (name : String)
    (b : Blueprint) :
    let (l, s') := (b.make c name).run s
    s'.Made allowed (l.handles ++ held) ∧ l.BuiltAs c (l.handles ++ held) b := by
  cases b with
  | linear inputs outputs =>
    obtain ⟨h₁, hc₁, hweights⟩ := h.newParameter hc (name ++ ".weights") [outputs, inputs]
    obtain ⟨h₂, -, hbias⟩ := h₁.newParameter hc₁ (name ++ ".bias") [outputs]
    exact ⟨h₂, .linear (hweights.mono (List.subset_cons_self ..)) hbias⟩
  | conv2d config =>
    obtain ⟨h₁, hc₁, hweight⟩ := h.newParameter hc (name ++ ".weight") config.weightShape
    obtain ⟨inputs, outputs, window, groups, bias⟩ := config
    cases bias with
    | false => exact ⟨h₁, .conv2d rfl hweight (fun _ hb => nomatch hb) rfl⟩
    | true =>
      obtain ⟨h₂, -, hbias⟩ := h₁.newParameter hc₁ (name ++ ".bias") [outputs]
      refine ⟨h₂, .conv2d rfl (hweight.mono (List.subset_cons_self ..)) (fun b hb => ?_) rfl⟩
      obtain rfl := Option.some.inj hb
      exact hbias
  | convTranspose2d inputs outputs kernel =>
    obtain ⟨h₁, hc₁, hweight⟩ := h.newParameter hc (name ++ ".weight")
      [inputs, outputs, kernel.1, kernel.2]
    obtain ⟨h₂, -, hbias⟩ := h₁.newParameter hc₁ (name ++ ".bias") [outputs]
    exact ⟨h₂, .convTranspose2d (hweight.mono (List.subset_cons_self ..)) hbias⟩
  | batchNorm channels =>
    obtain ⟨h₁, hc₁, hgamma⟩ := h.newParameter hc (name ++ ".gamma") [channels]
    obtain ⟨h₂, hc₂, hbeta⟩ := h₁.newParameter hc₁ (name ++ ".beta") [channels]
    obtain ⟨h₃, hc₃, hmean⟩ := h₂.newParameter hc₂ (name ++ ".moving_mean") [channels]
    obtain ⟨h₄, -, hvar⟩ := h₃.newParameter hc₃ (name ++ ".moving_var") [channels]
    refine ⟨h₄, .batchNorm (hgamma.mono ?_) (hbeta.mono ?_) (hmean.mono ?_) hvar⟩
    · exact fun x hx => .tail _ (.tail _ (.tail _ hx))
    · exact fun x hx => .tail _ (.tail _ hx)
    · exact List.subset_cons_self ..

/-- A session with layers is one that is made without them, by adding their parameters. -/
theorem Equipped.made (h : s.Equipped allowed held fixtures) : s.Made allowed held := by
  induction h with
  | empty => exact .empty
  | act _ ha ih => exact ih.act ha
  | make _ hc name b ih => exact (ih.make hc name b).1
  | change _ _ _ ih => exact ih

/-- The parameters of all layers are handles of the session, with the shapes that were asked for. -/
theorem Equipped.builtAs (h : s.Equipped allowed held fixtures) {f : Fixture} (hf : f ∈ fixtures) :
    f.layer.BuiltAs f.context held f.blueprint := by
  induction h generalizing f with
  | empty => cases hf
  | act _ _ ih => exact (ih hf).mono (List.subset_append_right ..)
  | make h hc name b ih =>
    rcases List.mem_cons.mp hf with rfl | hf
    · exact (h.made.make hc name b).2
    · exact (ih hf).mono (List.subset_append_right ..)
  | change _ hf' hl ih =>
    rcases List.mem_cons.mp hf with rfl | hf
    · exact (ih hf').of_changed hl
    · exact ih hf

/-! ## All calls or none -/

/-- The second session is the first one with a number of calls more in one context. -/
structure GrowsByCalls (s s' : Session) (c : ContextId) (n : Nat) : Prop where
  size : s'.graphs.size = s.graphs.size
  others : ∀ k, k ≠ c → s'.graph k = s.graph k
  calls : ∃ calls : List Call, calls.length = n ∧
    s'.graph c = calls.foldl (fun g call => g.push (.call call)) (s.graph c)

theorem growsByCalls_zero (s : Session) (c : ContextId) : s.GrowsByCalls s c 0 :=
  ⟨rfl, fun _ _ => rfl, [], rfl, rfl⟩

/-- One call more. -/
theorem GrowsByCalls.append {call : Call} (h : s.GrowsByCalls s₁ c n)
    (h' : s₁.GrowsBy s' c (.call call)) : s.GrowsByCalls s' c (n + 1) where
  size := h'.size.trans h.size
  others k hk := by rw [h'.graph, if_neg hk, h.others k hk]
  calls := by
    obtain ⟨calls, hlength, hcalls⟩ := h.calls
    refine ⟨calls ++ [call], by rw [List.length_append, hlength]; rfl, ?_⟩
    rw [h'.graph, if_pos rfl, hcalls, List.foldl_append]
    rfl

/-- The second session is the first one with a call more, which is the last node of its context, and
the handle to it goes with the others. -/
structure AddsCall (s s' : Session) (held : List Tensor) (c : ContextId) (y : Tensor) : Prop where
  grows : ∃ call, s.GrowsBy s' c (.call call)
  context : y.context = c
  last : (s'.graph c).nodes.size = y.node.index + 1
  coherent : s'.Coherent (y :: held)

/-- An operation on a handle and on further ones of its context adds its call if its result has a
type. -/
theorem Coherent.exists_addsCall (h : s.Coherent held) {o : Operation} {x : Tensor}
    {params : List Tensor} {ty : ResultType} (hoperands : o.operands = x :: params)
    (hx : x ∈ held) (hparams : ∀ p ∈ params, p ∈ held ∧ p.context = x.context)
    (hty : o.type = .ok ty) :
    ∃ y s', o.perform s = (.ok y, s') ∧ y.type = ty ∧ s.AddsCall s' held x.context y := by
  have hheld : ∀ p ∈ o.operands, p ∈ held := by
    rw [hoperands]
    exact List.forall_mem_cons.mpr ⟨hx, fun p hp => (hparams p hp).1⟩
  have hcontext : ∀ p ∈ o.operands, p.context = x.context := by
    rw [hoperands]
    exact List.forall_mem_cons.mpr ⟨rfl, fun p hp => (hparams p hp).2⟩
  have hc : x.context.index < s.graphs.size := h.context x hx
  have hperform := h.perform_operation hoperands hheld hcontext hty
  have hlegal : (Act.operation o).Legal (fun _ => True) s held := ⟨trivial, hheld⟩
  have hcoherent := h.run hlegal
  rw [Act.run, hperform] at hcoherent
  refine ⟨_, _, hperform, rfl, ⟨_, growsBy_append hc _⟩, rfl, ?_, hcoherent⟩
  rw [graph_append hc, if_pos rfl]
  exact Array.size_push _

end Session

/-- The layer appends as many calls to its context as its blueprint says, and nothing else. It
returns a handle to the last one, whose type is as the blueprint says. -/
structure Fixture.Appends (f : Fixture) (s s' : Session) (x z : Tensor) : Prop where
  grows : s.GrowsByCalls s' f.context f.blueprint.calls
  context : z.context = f.context
  last : (s'.graph f.context).nodes.size = z.node.index + 1
  typed : (s'.graph f.context).typeOf? z.node = some z.type
  maps : f.blueprint.Maps x.type z.type

namespace Session

variable {allowed : Operation → Prop} {s : Session} {held : List Tensor} {fixtures : List Fixture}

/-- A layer whose first operation has a result appends all of its calls. -/
theorem Coherent.layer_appends (h : s.Coherent held) {f : Fixture}
    (hbuilt : f.layer.BuiltAs f.context held f.blueprint) {x : Tensor} (hx : x ∈ held)
    (hcontext : x.context = f.context) {ty : ResultType}
    (hty : (f.layer.first x).type = .ok ty) :
    ∃ y s₁ z s', (f.layer.first x).perform s = (.ok y, s₁) ∧
      f.layer.forward x s = (.ok z, s') ∧ f.Appends s s' x z := by
  obtain ⟨params, hoperands, hparams⟩ := f.layer.first_operands x
  have hheld := hbuilt.handles_held
  rw [← hcontext] at hheld
  obtain ⟨y, s₁, hfirst, hyty, hadds⟩ :=
    h.exists_addsCall hoperands hx (fun p hp => hheld p (hparams hp)) hty
  rw [hcontext] at hadds
  obtain ⟨⟨call, hgrows⟩, hycontext, hlast, hcoherent⟩ := hadds
  have hone := (growsByCalls_zero s f.context).append hgrows
  have hforward := Layer.forward_of_ok hfirst
  refine ⟨y, s₁, ?_⟩
  rcases hbuilt.second_type hty hyty with
    ⟨hnone, hcalls, hmaps⟩ | ⟨o, ty', hsome, hty', hcalls, hmaps⟩
  · rw [Layer.rest, hnone] at hforward
    have htyped := hcoherent.type y List.mem_cons_self
    rw [hycontext] at htyped
    exact ⟨y, s₁, hfirst, hforward, hcalls ▸ hone, hycontext, hlast, htyped, hyty ▸ hmaps⟩
  · -- the result of the first operation is one of the handles for the second
    obtain ⟨params', hoperands', hparams'⟩ := Layer.second_operands hsome
    have hheld' := (hbuilt.mono (List.subset_cons_self y held)).handles_held
    rw [← hycontext] at hheld'
    obtain ⟨z, s', hsecond, hzty, hadds'⟩ :=
      hcoherent.exists_addsCall hoperands' List.mem_cons_self (fun p hp => hheld' p (hparams' hp))
        hty'
    rw [hycontext] at hadds'
    obtain ⟨⟨call', hgrows'⟩, hzcontext, hlast', hcoherent'⟩ := hadds'
    rw [Layer.rest, hsome] at hforward
    have htyped := hcoherent'.type z List.mem_cons_self
    rw [hzcontext] at htyped
    exact ⟨z, s', hfirst, hforward.trans hsecond, hcalls ▸ hone.append hgrows', hzcontext, hlast',
      htyped, hzty ▸ hmaps⟩

/-- A layer that was made in a session, and perhaps changed, does all or nothing on every handle of
its context. Either its first operation fails, and so does the layer, and the session is as it was.
Or the first operation succeeds, and then the layer does: it appends the calls of its blueprint to
its context and returns the last one, which has the type that the blueprint says. -/
theorem Equipped.layer_appends_all_or_nothing (h : s.Equipped allowed held fixtures) {f : Fixture}
    (hf : f ∈ fixtures) {x : Tensor} (hx : x ∈ held) (hcontext : x.context = f.context) :
    (∃ e, (f.layer.first x).perform s = (.error e, s) ∧ f.layer.forward x s = (.error e, s)) ∨
    ∃ y s₁ z s', (f.layer.first x).perform s = (.ok y, s₁) ∧
      f.layer.forward x s = (.ok z, s') ∧ f.Appends s s' x z := by
  cases hty : (f.layer.first x).type with
  | error e =>
    have hfirst := Operation.perform_of_error hty s
    exact .inl ⟨e, hfirst, Layer.forward_of_error hfirst⟩
  | ok ty => exact .inr (h.made.coherent.layer_appends (h.builtAs hf) hx hcontext hty)

/-! ## A picture and a convolution -/

/-- A session with a picture of a shape. -/
def pictureNet (shape : Shape) : Session :=
  ⟨#[⟨"net", #[⟨⟨0⟩, .var "picture" .input (.tensor shape)⟩], []⟩]⟩

/-- The picture. -/
def picture (shape : Shape) : Tensor := ⟨⟨0⟩, ⟨0⟩, .tensor shape⟩

/-- A convolution that is made in the session with the picture. -/
def pictureConv (config : ConvConfig) (shape : Shape) : Fixture where
  context := ⟨0⟩
  blueprint := .conv2d config
  layer := ((Blueprint.make ⟨0⟩ "conv" (.conv2d config)).run (pictureNet shape)).1

/-- The session with the picture and the convolution. -/
def convNet (config : ConvConfig) (shape : Shape) : Session :=
  ((Blueprint.make ⟨0⟩ "conv" (.conv2d config)).run (pictureNet shape)).2

/-- The handles of the session. -/
def convHandles (config : ConvConfig) (shape : Shape) : List Tensor :=
  (pictureConv config shape).layer.handles ++ [picture shape]

theorem pictureNet_equipped (shape : Shape) :
    (pictureNet shape).Equipped (fun _ => True) [picture shape] [] := by
  have hopen : Equipped (fun _ => True) _ _ _ := .act (a := .openContext "net") .empty trivial
  exact hopen.act (a := .addVar ⟨0⟩ "picture" .input (.tensor shape)) (by exact Nat.one_pos)

theorem convNet_equipped (config : ConvConfig) (shape : Shape) :
    (convNet config shape).Equipped (fun _ => True) (convHandles config shape)
      [pictureConv config shape] :=
  (pictureNet_equipped shape).make Nat.one_pos "conv" (.conv2d config)

theorem picture_mem (config : ConvConfig) (shape : Shape) :
    picture shape ∈ convHandles config shape :=
  List.mem_append_right _ List.mem_cons_self

/-- A convolution of three channels to four, with a bias. -/
def threeToFour : ConvConfig := .plain 3 4 (3, 3)

theorem layer_appends_all_or_nothing_convNet :
    (convNet threeToFour [1, 3, 8, 8]).Equipped (fun _ => True)
      (convHandles threeToFour [1, 3, 8, 8]) [pictureConv threeToFour [1, 3, 8, 8]] ∧
    (∃ z s', (pictureConv threeToFour [1, 3, 8, 8]).layer.forward (picture [1, 3, 8, 8])
        (convNet threeToFour [1, 3, 8, 8]) = (.ok z, s') ∧
      (pictureConv threeToFour [1, 3, 8, 8]).Appends (convNet threeToFour [1, 3, 8, 8]) s'
        (picture [1, 3, 8, 8]) z) ∧
    ∃ e, (pictureConv threeToFour [1, 3, 2, 2]).layer.forward (picture [1, 3, 2, 2])
      (convNet threeToFour [1, 3, 2, 2]) = (.error e, convNet threeToFour [1, 3, 2, 2]) := by
  have hlarge := convNet_equipped threeToFour [1, 3, 8, 8]
  have hsmall := convNet_equipped threeToFour [1, 3, 2, 2]
  refine ⟨hlarge, ?_, ?_⟩
  · rcases hlarge.layer_appends_all_or_nothing List.mem_cons_self (picture_mem _ _) rfl with
      ⟨e, hfirst, -⟩ | ⟨y, s₁, z, s', -, hforward, happends⟩
    · cases congrArg (fun r => r.1.toOption.isSome) hfirst
    · exact ⟨z, s', hforward, happends⟩
  · rcases hsmall.layer_appends_all_or_nothing List.mem_cons_self (picture_mem _ _) rfl with
      ⟨e, -, hforward⟩ | ⟨y, s₁, z, s', hfirst, -⟩
    · exact ⟨e, hforward⟩
    · cases congrArg (fun r => r.1.toOption.isSome) hfirst

end Session

end GraphSurvey
