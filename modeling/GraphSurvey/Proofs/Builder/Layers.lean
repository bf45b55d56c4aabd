import GraphSurvey.Builder.Layer
import GraphSurvey.Proofs.Builder.Operation
import GraphSurvey.Proofs.Shape.Transposed
import Mathlib

/-!
# Layers as pairs of operations

A layer with parameters is two operations, the second of which takes the result of the first one.
The shapes of the parameters are fixed when the layer is made, and they are such that the second
operation has a result for whatever result the first one has.

## Main definitions

* `GraphSurvey.Layer.first`, `GraphSurvey.Layer.second?` — the operations of a layer.
* `GraphSurvey.ConvConfig.weightShape` — the shape of the weight of a convolution.
* `GraphSurvey.Blueprint`, `GraphSurvey.Blueprint.make` — what a layer is asked to be.
* `GraphSurvey.Blueprint.Maps` — the type of the result of a layer.
* `GraphSurvey.Layer.BuiltAs` — the parameters of a layer have the shapes that were asked for.

## Main results

* `GraphSurvey.Layer.forward_eq` — a layer is its first operation followed by the second one.
* `GraphSurvey.Layer.BuiltAs.second_type` — the second operation has a result whenever the first one
  has.
-/

namespace GraphSurvey

/-! ## Types of results -/

/-- The number of axes of a tensor. -/
def ResultType.rank : ResultType → Nat
  | .tensor s => s.length
  | _ => 0

/-- A row is added to data along an axis of its length, and the data keep their shape. -/
theorem Shape.biasAdd_eq_ok_iff {data bias y : Shape} {axis : Nat} :
    biasAdd data bias axis = .ok y ↔
      ∃ width, bias = [width] ∧ data[axis]? = some width ∧ y = data := by
  constructor
  · intro h
    unfold biasAdd at h
    split at h
    case h_1 width =>
      split at h
      case isTrue hwidth => exact ⟨width, rfl, hwidth, (Except.ok.inj h).symm⟩
      case isFalse => cases h
    case h_2 => cases h
  · rintro ⟨width, rfl, hwidth, rfl⟩
    exact if_pos hwidth

namespace TypeRule

variable {op : String} {x ty : ResultType} {weight bias s : Shape} {window : Window}
  {groups axis n : Nat} {extra : Nat × Nat}

/-- A type that is computed from the shape of a tensor is the type of a tensor. -/
theorem exists_of_tensor {f : Shape → Except BuildError Shape}
    (h : (do return .tensor (← f (← shape op x))) = (.ok ty : Except BuildError ResultType)) :
    ∃ s r, x = .tensor s ∧ f s = .ok r ∧ ty = .tensor r := by
  cases x with
  | tensor s =>
    cases hf : f s with
    | error e => simp [shape, hf, bind, Except.bind] at h
    | ok r =>
      simp only [shape, hf, bind, Except.bind, pure, Except.pure, Except.ok.injEq] at h
      exact ⟨s, r, rfl, hf, h.symm⟩
  | tuple _ | named _ => cases h

theorem exists_of_dense (h : dense x (.tensor weight) = .ok ty) :
    ∃ s r, x = .tensor s ∧ Shape.dense s weight = .ok r ∧ ty = .tensor r :=
  exists_of_tensor (f := fun s => Shape.dense s weight) h

theorem exists_of_conv2d (h : conv2d x (.tensor weight) window groups = .ok ty) :
    ∃ s r, x = .tensor s ∧ Shape.conv2d s weight window groups = .ok r ∧ ty = .tensor r :=
  exists_of_tensor (f := fun s => Shape.conv2d s weight window groups) h

theorem exists_of_conv2dTranspose (h : conv2dTranspose x (.tensor weight) window extra = .ok ty) :
    ∃ s r, x = .tensor s ∧ Shape.conv2dTranspose s weight window extra = .ok r ∧ ty = .tensor r :=
  exists_of_tensor (f := fun s => Shape.conv2dTranspose s weight window extra) h

/-- The type of a normalisation depends on its input and its scale. -/
theorem batchNorm_eq_ok_iff {x gamma ty : ResultType} :
    batchNorm x gamma = .ok ty ↔ ∃ data channels, x = .tensor data ∧
      data[1]? = some channels ∧ gamma = .tensor [channels] ∧ ty = .tuple [x, gamma, gamma] := by
  constructor
  · intro h
    cases x with
    | tensor data =>
      cases gamma with
      | tensor row =>
        cases hbias : Shape.biasAdd data row 1 with
        | error e => simp [batchNorm, shape, hbias, bind, Except.bind] at h
        | ok y =>
          obtain ⟨channels, rfl, hchannels, -⟩ := Shape.biasAdd_eq_ok_iff.mp hbias
          simp only [batchNorm, shape, hbias, bind, Except.bind, pure, Except.pure,
            Except.ok.injEq] at h
          exact ⟨data, channels, rfl, hchannels, rfl, h.symm⟩
      | tuple _ | named _ => cases h
    | tuple _ | named _ => cases h
  · rintro ⟨data, channels, rfl, hchannels, rfl, rfl⟩
    have hbias : Shape.biasAdd data [channels] 1 = .ok data :=
      Shape.biasAdd_eq_ok_iff.mpr ⟨channels, rfl, hchannels, rfl⟩
    simp only [batchNorm, shape, hbias, bind, Except.bind, pure, Except.pure]

/-- A row is added along an axis of as many places. -/
theorem biasAdd_of_getElem? (h : s[axis]? = some n) :
    biasAdd (.tensor s) (.tensor [n]) axis = .ok (.tensor s) := by
  have hshape : Shape.biasAdd s [n] axis = .ok s :=
    Shape.biasAdd_eq_ok_iff.mpr ⟨n, rfl, h, rfl⟩
  simp only [biasAdd, shape, hshape, bind, Except.bind, pure, Except.pure]

end TypeRule

/-- A dense layer replaces the last extent, which is the width of its matrix. -/
theorem Shape.dense_eq_ok {data y : Shape} {units width : Nat}
    (h : dense data [units, width] = .ok y) :
    ∃ front, data = front ++ [width] ∧ y = front ++ [units] := by
  rw [dense] at h
  split at h
  case isFalse => cases h
  case isTrue hlast =>
    obtain ⟨front, rfl⟩ := List.getLast?_eq_some_iff.mp hlast
    exact ⟨front, rfl, by rw [← Except.ok.inj h, List.dropLast_concat]⟩

/-! ## Two operations -/

namespace Layer

/-- The first operation of a layer. -/
def first : Layer → Tensor → Operation
  | .linear l, x => .dense x l.weights
  | .conv2d l, x => .conv2d x l.weight l.config.window l.config.groups
  | .convTranspose2d l, x => .conv2dTranspose x l.weight l.window l.outputPadding
  | .maxPool2d window, x => .maxPool2d x window
  | .avgPool2d window, x => .avgPool2d x window
  | .adaptiveAvgPool2d size, x => .adaptiveAvgPool2d x size
  | .batchNorm l, x => .batchNorm x l.gamma l.beta l.mean l.var l.epsilon
  | .relu, x => .relu x
  | .leakyRelu alpha, x => .leakyRelu x alpha
  | .sigmoid, x => .sigmoid x
  | .tanh, x => .tanh x
  | .softmax axis, x => .softmax x axis

/-- The second operation of a layer, from the input and the result of the first one. -/
def second? : Layer → Tensor → Tensor → Option Operation
  | .linear l, x, y => some (.biasAdd y l.bias (x.type.rank - 1))
  | .conv2d l, _, y => l.bias.map fun bias => .biasAdd y bias 1
  | .convTranspose2d l, _, y => some (.biasAdd y l.bias 1)
  | .batchNorm _, _, y => some (.tupleGetItem y 0)
  | _, _, _ => none

/-- The handles that are returned when the layer is made, the latest first. -/
def handles : Layer → List Tensor
  | .linear l => [l.bias, l.weights]
  | .conv2d l => l.bias.toList ++ [l.weight]
  | .convTranspose2d l => [l.bias, l.weight]
  | .batchNorm l => [l.var, l.mean, l.beta, l.gamma]
  | _ => []

/-- The first operation takes the input and parameters of the layer. -/
theorem first_operands (l : Layer) (x : Tensor) :
    ∃ params, (l.first x).operands = x :: params ∧ params ⊆ l.handles := by
  cases l with
  | batchNorm l => exact ⟨[l.gamma, l.beta, l.mean, l.var], rfl, by simp [handles]⟩
  | linear l => exact ⟨[l.weights], rfl, by simp [handles]⟩
  | conv2d l => exact ⟨[l.weight], rfl, by simp [handles]⟩
  | convTranspose2d l => exact ⟨[l.weight], rfl, by simp [handles]⟩
  | _ => exact ⟨[], rfl, List.nil_subset _⟩

/-- The second operation takes the result of the first one and parameters of the layer. -/
theorem second_operands {l : Layer} {x y : Tensor} {o : Operation} (ho : l.second? x y = some o) :
    ∃ params, o.operands = y :: params ∧ params ⊆ l.handles := by
  cases l with
  | linear l =>
    obtain rfl := Option.some.inj ho
    exact ⟨[l.bias], rfl, by simp [handles]⟩
  | conv2d l =>
    obtain ⟨row, hrow, rfl⟩ := Option.map_eq_some_iff.mp ho
    exact ⟨[row], rfl, by simp [handles, hrow]⟩
  | convTranspose2d l =>
    obtain rfl := Option.some.inj ho
    exact ⟨[l.bias], rfl, by simp [handles]⟩
  | batchNorm l =>
    obtain rfl := Option.some.inj ho
    exact ⟨[], rfl, List.nil_subset _⟩
  | _ => cases ho

/-- What a layer does with the result of its first operation. -/
def rest (l : Layer) (x y : Tensor) : Build Tensor :=
  match l.second? x y with
  | some o => o.perform
  | none => return y

/-- A layer is its first operation, followed by the second one if it has one. -/
theorem forward_eq (l : Layer) (x : Tensor) :
    l.forward x = (l.first x).perform >>= l.rest x := by
  cases l with
  | linear l =>
    -- the rank is asked for first, and fails as the first operation does
    obtain ⟨_, _, ty⟩ := x
    cases ty <;> rfl
  | conv2d l =>
    obtain ⟨weight, bias, config⟩ := l
    cases bias <;> rfl
  | convTranspose2d | batchNorm => rfl
  | _ => exact (bind_pure _).symm

variable {l : Layer} {x y : Tensor} {s s₁ : Session} {e : BuildError}

/-- A layer fails as its first operation does. -/
theorem forward_of_error (h : (l.first x).perform s = (.error e, s)) :
    l.forward x s = (.error e, s) := by
  rw [forward_eq]
  exact Build.bind_run (l.rest x) h

/-- After its first operation a layer does the rest. -/
theorem forward_of_ok (h : (l.first x).perform s = (.ok y, s₁)) :
    l.forward x s = l.rest x y s₁ := by
  rw [forward_eq]
  exact Build.bind_run (l.rest x) h

end Layer

/-! ## Blueprints -/

/-- The shape of the weight of a convolution. -/
def ConvConfig.weightShape (config : ConvConfig) : Shape :=
  [config.outputs, config.inputs / max config.groups 1, config.window.kernel.1,
    config.window.kernel.2]

/-- What a layer with parameters is asked to be. -/
inductive Blueprint where
  | linear (inputs outputs : Nat)
  | conv2d (config : ConvConfig)
  | convTranspose2d (inputs outputs : Nat) (kernel : Nat × Nat)
  | batchNorm (channels : Nat)

namespace Blueprint

/-- Makes the layer in a context. -/
def make (c : ContextId) (name : String) : Blueprint → Assembly Layer
  | linear inputs outputs => return .linear (← Linear.create c inputs outputs name)
  | conv2d config => return .conv2d (← Conv2d.ofConfig c name config)
  | convTranspose2d inputs outputs kernel =>
    return .convTranspose2d (← ConvTranspose2d.create c name inputs outputs kernel)
  | batchNorm channels => return .batchNorm (← BatchNorm.create c name channels)

/-- The number of calls that the layer appends. -/
def calls : Blueprint → Nat
  | conv2d config => if config.bias then 2 else 1
  | linear .. | convTranspose2d .. | batchNorm .. => 2

/-- The layer makes a result of the second type of an input of the first type. -/
def Maps (b : Blueprint) (x y : ResultType) : Prop :=
  match b with
  | linear inputs outputs => ∃ front, x = .tensor (front ++ [inputs]) ∧
      y = .tensor (front ++ [outputs])
  | conv2d config => ∃ batch channels height width height' width',
      x = .tensor [batch, channels, height, width] ∧
      y = .tensor [batch, config.outputs, height', width']
  | convTranspose2d inputs outputs _ => ∃ batch height width height' width',
      x = .tensor [batch, inputs, height, width] ∧ y = .tensor [batch, outputs, height', width']
  | batchNorm _ => y = x

end Blueprint

/-! ## Layers as they were asked for -/

/-- A handle to a tensor of a shape that was returned in a context. -/
structure Tensor.IsHeld (c : ContextId) (held : List Tensor) (shape : Shape) (x : Tensor) :
    Prop where
  mem : x ∈ held
  context : x.context = c
  type : x.type = .tensor shape

theorem Tensor.IsHeld.mono {c : ContextId} {held held' : List Tensor} {shape : Shape} {x : Tensor}
    (h : x.IsHeld c held shape) (hsub : held ⊆ held') : x.IsHeld c held' shape :=
  ⟨hsub h.mem, h.context, h.type⟩

namespace Layer

/-- The parameters of the layer are handles of a context with the shapes that the blueprint asks
for. The choices of a convolution are those of its blueprint, but a transposed convolution and a
normalisation may have been changed since. -/
inductive BuiltAs (c : ContextId) (held : List Tensor) : Blueprint → Layer → Prop
  | linear {inputs outputs : Nat} {l : Linear}
    (weights : l.weights.IsHeld c held [outputs, inputs]) (bias : l.bias.IsHeld c held [outputs]) :
    BuiltAs c held (.linear inputs outputs) (.linear l)
  | conv2d {config : ConvConfig} {l : Conv2d} (choices : l.config = config)
    (weight : l.weight.IsHeld c held config.weightShape)
    (bias : ∀ b ∈ l.bias, b.IsHeld c held [config.outputs])
    (hasBias : l.bias.isSome = config.bias) : BuiltAs c held (.conv2d config) (.conv2d l)
  | convTranspose2d {inputs outputs : Nat} {kernel : Nat × Nat} {l : ConvTranspose2d}
    (weight : l.weight.IsHeld c held [inputs, outputs, kernel.1, kernel.2])
    (bias : l.bias.IsHeld c held [outputs]) :
    BuiltAs c held (.convTranspose2d inputs outputs kernel) (.convTranspose2d l)
  | batchNorm {channels : Nat} {l : BatchNorm} (gamma : l.gamma.IsHeld c held [channels])
    (beta : l.beta.IsHeld c held [channels]) (mean : l.mean.IsHeld c held [channels])
    (var : l.var.IsHeld c held [channels]) : BuiltAs c held (.batchNorm channels) (.batchNorm l)

namespace BuiltAs

variable {c : ContextId} {held held' : List Tensor} {b : Blueprint} {l : Layer} {x y : Tensor}

theorem mono (h : BuiltAs c held b l) (hsub : held ⊆ held') : BuiltAs c held' b l := by
  cases h with
  | linear weights bias => exact .linear (weights.mono hsub) (bias.mono hsub)
  | conv2d choices weight bias hasBias =>
    exact .conv2d choices (weight.mono hsub) (fun b hb => (bias b hb).mono hsub) hasBias
  | convTranspose2d weight bias => exact .convTranspose2d (weight.mono hsub) (bias.mono hsub)
  | batchNorm gamma beta mean var =>
    exact .batchNorm (gamma.mono hsub) (beta.mono hsub) (mean.mono hsub) (var.mono hsub)

/-- The parameters of the layer are handles of the context. -/
theorem handles_held (h : BuiltAs c held b l) : ∀ p ∈ l.handles, p ∈ held ∧ p.context = c := by
  cases h with
  | linear weights bias =>
    simp [handles, weights.mem, weights.context, bias.mem, bias.context]
  | conv2d choices weight bias hasBias =>
    intro p hp
    rcases List.mem_append.mp hp with hp | hp
    · exact ⟨(bias p (Option.mem_toList.mp hp)).mem, (bias p (Option.mem_toList.mp hp)).context⟩
    · obtain rfl := List.mem_singleton.mp hp
      exact ⟨weight.mem, weight.context⟩
  | convTranspose2d weight bias =>
    simp [handles, weight.mem, weight.context, bias.mem, bias.context]
  | batchNorm gamma beta mean var =>
    simp [handles, gamma.mem, gamma.context, beta.mem, beta.context, mean.mem, mean.context,
      var.mem, var.context]

/-- The type of a layer's result, if the first operation has one: either there is no second
operation, or it has a result too. -/
theorem second_type (h : BuiltAs c held b l) {ty : ResultType} (hty : (l.first x).type = .ok ty)
    (hy : y.type = ty) :
    (l.second? x y = none ∧ b.calls = 1 ∧ b.Maps x.type ty) ∨
    ∃ o ty', l.second? x y = some o ∧ o.type = .ok ty' ∧ b.calls = 2 ∧ b.Maps x.type ty' := by
  cases h with
  | @linear inputs outputs l weights bias =>
    replace hty : TypeRule.dense x.type l.weights.type = .ok ty := hty
    rw [weights.type] at hty
    obtain ⟨data, r, hx, hr, rfl⟩ := TypeRule.exists_of_dense hty
    obtain ⟨front, rfl, rfl⟩ := Shape.dense_eq_ok hr
    have hbias : TypeRule.biasAdd y.type l.bias.type (x.type.rank - 1) = .ok y.type := by
      rw [hy, bias.type, hx]
      exact TypeRule.biasAdd_of_getElem? (by simp [ResultType.rank])
    exact .inr ⟨_, y.type, rfl, hbias, rfl, front, hx, hy⟩
  | @conv2d config l choices weight bias hasBias =>
    replace hty : TypeRule.conv2d x.type l.weight.type l.config.window l.config.groups = .ok ty :=
      hty
    rw [weight.type] at hty
    obtain ⟨data, r, hx, hr, rfl⟩ := TypeRule.exists_of_conv2d hty
    obtain ⟨batch, channels, height, width, _, _, _, _, rfl, hweight, -, -, hshape⟩ :=
      Shape.conv2d_eq_ok_iff.mp hr
    obtain ⟨h, w, -, -, rfl⟩ := Shape.ofExtents_eq_ok_iff.mp hshape
    obtain ⟨rfl, -⟩ := List.cons.inj hweight
    have hmaps : Blueprint.Maps (.conv2d config) x.type (.tensor [batch, config.outputs, h, w]) :=
      ⟨batch, channels, height, width, h, w, hx, rfl⟩
    cases hrow : l.bias with
    | none =>
      refine .inl ⟨congrArg (Option.map _) hrow, ?_, hmaps⟩
      simp [Blueprint.calls, ← hasBias, hrow]
    | some row =>
      have hbias : TypeRule.biasAdd y.type row.type 1 = .ok y.type := by
        rw [hy, (bias row hrow).type]
        exact TypeRule.biasAdd_of_getElem? rfl
      refine .inr ⟨.biasAdd y row 1, y.type, congrArg (Option.map _) hrow, hbias, ?_, hy ▸ hmaps⟩
      simp [Blueprint.calls, ← hasBias, hrow]
  | @convTranspose2d inputs outputs kernel l weight bias =>
    replace hty : TypeRule.conv2dTranspose x.type l.weight.type l.window l.outputPadding = .ok ty :=
      hty
    rw [weight.type] at hty
    obtain ⟨data, r, hx, hr, rfl⟩ := TypeRule.exists_of_conv2dTranspose hty
    obtain ⟨batch, channels, height, width, _, _, _, rfl, hweight, hshape⟩ :=
      Shape.conv2dTranspose_eq_ok_iff.mp hr
    obtain ⟨h, w, -, -, rfl⟩ := Shape.ofExtents_eq_ok_iff.mp hshape
    obtain ⟨rfl, houtputs⟩ := List.cons.inj hweight
    obtain ⟨rfl, -⟩ := List.cons.inj houtputs
    have hbias : TypeRule.biasAdd y.type l.bias.type 1 = .ok y.type := by
      rw [hy, bias.type]
      exact TypeRule.biasAdd_of_getElem? rfl
    exact .inr ⟨_, y.type, rfl, hbias, rfl, batch, height, width, h, w, hx, hy⟩
  | @batchNorm channels l gamma beta mean var =>
    replace hty : TypeRule.batchNorm x.type l.gamma.type = .ok ty := hty
    rw [gamma.type] at hty
    obtain ⟨-, -, -, -, -, rfl⟩ := TypeRule.batchNorm_eq_ok_iff.mp hty
    have hitem : TypeRule.tupleGetItem y.type 0 = .ok x.type := by rw [hy]; rfl
    exact .inr ⟨_, x.type, rfl, hitem, rfl, rfl⟩

end BuiltAs

end Layer

end GraphSurvey
