import GraphSurvey.Proofs.Builder.Equipment

/-!
# Types of steps

Whether a step of a session succeeds, and of which type its result is, can be told from the types of
its operands, without the session. This holds of an operation, and so of a layer, and of layers one
after the other. What a step leaves is again a session that is made, with more handles, so that the
next step can be told from the type of the first one.

## Main definitions

* `GraphSurvey.ConvConfig.resultShape` — the shape of the result of a convolution.
* `GraphSurvey.Layer.resultType`, `GraphSurvey.Layer.resultTypes` — the type of the result of a
  layer, and of layers one after the other.
* `GraphSurvey.Session.Returned` — what a step that succeeds leaves.
* `GraphSurvey.Session.RunsTyped` — a step does what a computed type says.

## Main results

* `GraphSurvey.Session.RunsTyped.bind` — one step after the other.
* `GraphSurvey.Session.Made.forward_runsTyped`, `GraphSurvey.Session.Made.sequence_runsTyped` — a
  layer, and layers one after the other.
* `GraphSurvey.Session.Made.runsTyped_make` — a step for which a layer is made first.
-/

namespace GraphSurvey

/-! ## Types of layers -/

/-- The shape of the result of a convolution of data with the weight that it is made with. -/
def ConvConfig.resultShape (config : ConvConfig) (data : Shape) : Except BuildError Shape :=
  Shape.conv2d data config.weightShape config.window config.groups

namespace Layer

/-- The type of the result of a layer, from the type of its input. -/
def resultType : Layer → ResultType → Except BuildError ResultType
  | .linear l, x => do
    TypeRule.biasAdd (← TypeRule.dense x l.weights.type) l.bias.type (x.rank - 1)
  | .conv2d l, x => do
    let y ← TypeRule.conv2d x l.weight.type l.config.window l.config.groups
    match l.bias with
    | some bias => TypeRule.biasAdd y bias.type 1
    | none => return y
  | .convTranspose2d l, x => do
    TypeRule.biasAdd (← TypeRule.conv2dTranspose x l.weight.type l.window l.outputPadding)
      l.bias.type 1
  | .maxPool2d window, x => TypeRule.pool2d "nn.max_pool2d" x window
  | .avgPool2d window, x => TypeRule.pool2d "nn.avg_pool2d" x window
  | .adaptiveAvgPool2d size, x => TypeRule.adaptiveAvgPool2d x size
  | .batchNorm l, x => do TypeRule.tupleGetItem (← TypeRule.batchNorm x l.gamma.type) 0
  | .relu, x | .leakyRelu _, x | .sigmoid, x | .tanh, x | .softmax _, x => .ok x

/-- The type of what a layer does with the result of its first operation, of which only the type
counts. -/
def restType (l : Layer) (x : Tensor) (ty : ResultType) : Except BuildError ResultType :=
  match l.second? x { x with type := ty } with
  | some o => o.type
  | none => .ok ty

theorem restType_eq (l : Layer) (x y : Tensor) :
    l.restType x y.type =
      match l.second? x y with
      | some o => o.type
      | none => .ok y.type := by
  cases l with
  | conv2d l =>
    obtain ⟨weight, bias, config⟩ := l
    cases bias <;> rfl
  | _ => rfl

/-- The type of a layer is the type of its first operation, followed by that of the rest. -/
theorem resultType_eq (l : Layer) (x : Tensor) :
    l.resultType x.type = (l.first x).type >>= l.restType x := by
  cases l with
  | conv2d l =>
    obtain ⟨weight, bias, config⟩ := l
    cases bias <;> rfl
  | maxPool2d | avgPool2d | adaptiveAvgPool2d => exact (bind_pure _).symm
  | _ => rfl

/-- The type of the result of layers one after the other. -/
def resultTypes (ty : ResultType) : List Layer → Except BuildError ResultType
  | [] => .ok ty
  | l :: rest => do resultTypes (← l.resultType ty) rest

theorem resultTypes_append (ty : ResultType) (front rest : List Layer) :
    resultTypes ty (front ++ rest) = resultTypes ty front >>= (resultTypes · rest) := by
  induction front generalizing ty with
  | nil => rfl
  | cons l front ih =>
    cases hl : l.resultType ty with
    | error e => simp only [List.cons_append, resultTypes, hl]; rfl
    | ok ty' =>
      simp only [List.cons_append, resultTypes, hl]
      exact ih ty'

namespace BuiltAs

variable {c : ContextId} {held : List Tensor} {config : ConvConfig} {channels : Nat} {l : Layer}
  {data : Shape}

/-- A convolution without a bias has the type of its first operation. -/
theorem resultType_conv2d (h : l.BuiltAs c held (.conv2d config)) (hbias : config.bias = false) :
    l.resultType (.tensor data) = ResultType.tensor <$> config.resultShape data := by
  cases h with
  | @conv2d _ l choices weight bias hasBias =>
    have hnone : l.bias = none :=
      Option.isNone_iff_eq_none.mp (Option.isSome_eq_false_iff.mp (hasBias.trans hbias))
    simp only [resultType, hnone, choices, weight.type]
    exact bind_pure _

/-- A normalisation keeps the type of an image with the channels that it was made for. -/
theorem resultType_batchNorm (h : l.BuiltAs c held (.batchNorm channels))
    (hchannels : data[1]? = some channels) :
    l.resultType (.tensor data) = .ok (.tensor data) := by
  cases h with
  | @batchNorm _ l gamma =>
    have hnorm := TypeRule.batchNorm_eq_ok_iff.mpr
      ⟨data, channels, rfl, hchannels, gamma.type, rfl⟩
    simp only [resultType, hnorm]
    rfl

end BuiltAs

end Layer

/-! ## Steps with a type -/

namespace Session

variable {s : Session} {held held' : List Tensor} {c : ContextId} {m : Build Tensor}
  {r : Except BuildError ResultType} {x : Tensor}

/-- The second session goes on from one with the given handles, of which it has all and more. One of
them is of the context and of the type. -/
structure Returned (held : List Tensor) (c : ContextId) (ty : ResultType) (y : Tensor)
    (s' : Session) (held' : List Tensor) : Prop where
  made : s'.Made (fun _ => True) held'
  keeps : held ⊆ held'
  mem : y ∈ held'
  context : y.context = c
  type : y.type = ty

/-- The step does what a computed type says: it fails with the error, or it returns a handle of the
context with the type. -/
def RunsTyped (s : Session) (held : List Tensor) (c : ContextId) (m : Build Tensor) :
    Except BuildError ResultType → Prop
  | .error e => ∃ s', m s = (.error e, s')
  | .ok ty => ∃ y s' held', m s = (.ok y, s') ∧ Returned held c ty y s' held'

/-- The handles that are kept may be fewer. -/
theorem RunsTyped.of_subset (h : s.RunsTyped held' c m r) (hsub : held ⊆ held') :
    s.RunsTyped held c m r := by
  cases r with
  | error e => exact h
  | ok ty =>
    obtain ⟨y, s', held'', hrun, hreturned⟩ := h
    exact ⟨y, s', held'', hrun, { hreturned with keeps := List.Subset.trans hsub hreturned.keeps }⟩

/-- One step after the other has the type that the second one has for the type of the first one. -/
theorem RunsTyped.bind {f : Tensor → Build Tensor} {g : ResultType → Except BuildError ResultType}
    (hm : s.RunsTyped held c m r)
    (hf : ∀ y s' held', Returned held c y.type y s' held' → r = .ok y.type →
      s'.RunsTyped held' c (f y) (g y.type)) : s.RunsTyped held c (m >>= f) (r >>= g) := by
  cases r with
  | error e =>
    obtain ⟨s', hrun⟩ := hm
    exact ⟨s', Build.bind_run f hrun⟩
  | ok ty =>
    obtain ⟨y, s', held', hrun, hreturned⟩ := hm
    obtain rfl := hreturned.type
    have hrest := (hf y s' held' hreturned rfl).of_subset hreturned.keeps
    have hbind : (m >>= f) s = f y s' := Build.bind_run f hrun
    -- both steps are run in the session that the first one starts from
    unfold RunsTyped at hrest ⊢
    rw [hbind]
    exact hrest

/-- A step that succeeds has a type, and that is the type of what it returns. -/
theorem RunsTyped.of_run {y : Tensor} {s' : Session} (h : s.RunsTyped held c m r)
    (hrun : m s = (.ok y, s')) : r = .ok y.type ∧ ∃ held', Returned held c y.type y s' held' := by
  cases r with
  | error e =>
    obtain ⟨_, hrun'⟩ := h
    cases congrArg Prod.fst (hrun.symm.trans hrun')
  | ok ty =>
    obtain ⟨_, _, held', hrun', hreturned⟩ := h
    cases hrun.symm.trans hrun'
    obtain rfl := hreturned.type
    exact ⟨rfl, held', hreturned⟩

/-- A step succeeds exactly if it has a type. -/
theorem RunsTyped.accepted_iff (h : s.RunsTyped held c m r) :
    (∃ y s', m s = (.ok y, s')) ↔ ∃ ty, r = .ok ty := by
  constructor
  · rintro ⟨y, s', hrun⟩
    exact ⟨y.type, (h.of_run hrun).1⟩
  · rintro ⟨ty, rfl⟩
    obtain ⟨y, s', _, hrun, -⟩ := h
    exact ⟨y, s', hrun⟩

/-- A step that is given a handle of the session returns it. -/
theorem Made.pure_runsTyped (h : s.Made (fun _ => True) held) (hx : x ∈ held ∧ x.context = c) :
    s.RunsTyped held c (pure x) (.ok x.type) :=
  ⟨x, s, held, rfl, h, List.Subset.refl held, hx.1, hx.2, rfl⟩

/-- An operation on handles of a context does what its type says. -/
theorem Made.perform_runsTyped (h : s.Made (fun _ => True) held) {o : Operation}
    {params : List Tensor} (hoperands : o.operands = x :: params)
    (hheld : ∀ p ∈ o.operands, p ∈ held ∧ p.context = c) :
    s.RunsTyped held c o.perform o.type := by
  have hx := hheld x (hoperands ▸ List.mem_cons_self)
  cases hty : o.type with
  | error e => exact ⟨s, Operation.perform_of_error hty s⟩
  | ok ty =>
    have hperform := h.coherent.perform_operation hoperands (fun p hp => (hheld p hp).1)
      (fun p hp => (hheld p hp).2.trans hx.2.symm) hty
    have hmade := h.act (a := .operation o) ⟨trivial, fun p hp => (hheld p hp).1⟩
    rw [Act.run, hperform] at hmade
    exact ⟨_, _, _, hperform, hmade, List.subset_cons_self .., List.mem_cons_self, hx.2, rfl⟩

/-- A layer with parameters in a context does on a handle of the context what its type says. -/
theorem Made.forward_runsTyped (h : s.Made (fun _ => True) held) {l : Layer}
    (hl : ∀ p ∈ l.handles, p ∈ held ∧ p.context = c) (hx : x ∈ held ∧ x.context = c) :
    s.RunsTyped held c (l.forward x) (l.resultType x.type) := by
  obtain ⟨params, hoperands, hparams⟩ := l.first_operands x
  have hfirst : s.RunsTyped held c (l.first x).perform (l.first x).type := by
    refine h.perform_runsTyped hoperands ?_
    rw [hoperands]
    exact List.forall_mem_cons.mpr ⟨hx, fun p hp => hl p (hparams hp)⟩
  rw [l.forward_eq, l.resultType_eq]
  refine hfirst.bind fun y s' held' hy _ => ?_
  rw [Layer.rest, l.restType_eq]
  cases hsecond : l.second? x y with
  | none => exact hy.made.pure_runsTyped ⟨hy.mem, hy.context⟩
  | some o =>
    obtain ⟨params', hoperands', hparams'⟩ := Layer.second_operands hsecond
    refine hy.made.perform_runsTyped hoperands' ?_
    rw [hoperands']
    refine List.forall_mem_cons.mpr ⟨⟨hy.mem, hy.context⟩, fun p hp => ?_⟩
    exact ⟨hy.keeps (hl p (hparams' hp)).1, (hl p (hparams' hp)).2⟩

/-- Layers one after the other do what their types say. -/
theorem Made.sequence_runsTyped (h : s.Made (fun _ => True) held) {layers : List Layer}
    (hlayers : ∀ l ∈ layers, ∀ p ∈ l.handles, p ∈ held ∧ p.context = c)
    (hx : x ∈ held ∧ x.context = c) :
    s.RunsTyped held c (Layer.sequence x layers) (Layer.resultTypes x.type layers) := by
  induction layers generalizing s held x with
  | nil => exact h.pure_runsTyped hx
  | cons l rest ih =>
    obtain ⟨hl, hrest⟩ := List.forall_mem_cons.mp hlayers
    refine (h.forward_runsTyped hl hx).bind fun y s' held' hy _ => ?_
    refine ih hy.made (fun l' hl' p hp => ?_) ⟨hy.mem, hy.context⟩
    exact ⟨hy.keeps (hrest l' hl' p hp).1, (hrest l' hl' p hp).2⟩

/-! ## Layers that are made on the way -/

/-- The context of a handle is there. -/
theorem Made.context_lt (h : s.Made (fun _ => True) held) {shape : Shape}
    (hx : x.IsHeld c held shape) : c.index < s.graphs.size :=
  hx.context ▸ h.coherent.context x hx.mem

/-- A layer is made and then used in a step. -/
theorem Made.runsTyped_make {α : Type} {step : Assembly α} {f : α → Build Tensor} {name : String}
    (h : s.Made (fun _ => True) held) (hc : c.index < s.graphs.size) (toLayer : α → Layer)
    (b : Blueprint) (hstep : b.make c name = toLayer <$> step)
    (hf : ∀ (l) (s' : Session) (held'), s'.Made (fun _ => True) held' → held ⊆ held' →
      (toLayer l).BuiltAs c held' b → s'.RunsTyped held' c (f l) r) :
    s.RunsTyped held c (liftM step >>= f) r := by
  have hmake := h.make hc name b
  rw [hstep] at hmake
  exact (hf _ _ _ hmake.1 (List.subset_append_right ..) hmake.2).of_subset
    (List.subset_append_right ..)

end Session

end GraphSurvey
