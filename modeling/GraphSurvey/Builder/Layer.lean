import GraphSurvey.Builder.Tensor

/-!
# Layers

A layer appends a fixed pattern of calls to the graph of its input. A layer with parameters adds
them to a graph when it is made, so their shapes are fixed from then on.

## Main definitions

* `GraphSurvey.Linear`, `GraphSurvey.Conv2d`, `GraphSurvey.ConvTranspose2d`,
  `GraphSurvey.BatchNorm` — the layers with parameters.
* `GraphSurvey.Layer`, `GraphSurvey.Layer.forward`, `GraphSurvey.Layer.parameters` — all layers.
* `GraphSurvey.Layer.sequence` — layers one after the other.
-/

namespace GraphSurvey

/-! ## Fully connected layers -/

/-- A product with a matrix followed by a sum with a row. -/
structure Linear where
  weights : Tensor
  bias : Tensor

namespace Linear

/-- Makes a layer with weights `[outputs, inputs]` and a bias `[outputs]`. -/
def create (c : ContextId) (inputs outputs : Nat) (name : String) : Assembly Linear := do
  let weights ← Assembly.newParameter c (name ++ ".weights") [outputs, inputs]
  let bias ← Assembly.newParameter c (name ++ ".bias") [outputs]
  return ⟨weights, bias⟩

/-- Appends the layer. The bias goes along the last axis. -/
def forward (l : Linear) (x : Tensor) : Build Tensor := do
  let shape ← x.shape "nn.dense"
  let y ← x.dense l.weights
  y.biasAdd l.bias (shape.length - 1)

end Linear

/-! ## Convolutions -/

/-- The choices of a convolution. -/
structure ConvConfig where
  inputs : Nat
  outputs : Nat
  window : Window
  groups : Nat
  bias : Bool
  deriving DecidableEq, Repr

namespace ConvConfig

/-- A convolution with the given channels and kernel, all else as plain as it can be. -/
def plain (inputs outputs : Nat) (kernel : Nat × Nat) : ConvConfig :=
  ⟨inputs, outputs, .dense kernel (1, 1) (0, 0), 1, true⟩

/-- One channel and a kernel of three by three. -/
def standard : ConvConfig := plain 1 1 (3, 3)

/-- With another stride. -/
def withStride (c : ConvConfig) (stride : Nat × Nat) : ConvConfig :=
  { c with window := { c.window with stride := stride } }

/-- With another padding. -/
def withPadding (c : ConvConfig) (padding : Nat × Nat) : ConvConfig :=
  { c with window := { c.window with padding := padding } }

/-- With another dilation. -/
def withDilation (c : ConvConfig) (dilation : Nat × Nat) : ConvConfig :=
  { c with window := { c.window with dilation := dilation } }

/-- With another number of groups. -/
def withGroups (c : ConvConfig) (groups : Nat) : ConvConfig := { c with groups := groups }

/-- With or without a bias. -/
def withBias (c : ConvConfig) (bias : Bool) : ConvConfig := { c with bias := bias }

end ConvConfig

/-- A convolution, followed by a sum with a row if there is a bias. -/
structure Conv2d where
  weight : Tensor
  bias : Option Tensor
  config : ConvConfig

namespace Conv2d

/-- Makes a layer with the weight `[outputs, inputs / groups, kh, kw]` and the bias `[outputs]`. -/
def ofConfig (c : ContextId) (name : String) (config : ConvConfig) : Assembly Conv2d := do
  let weight ← Assembly.newParameter c (name ++ ".weight")
    [config.outputs, config.inputs / max config.groups 1, config.window.kernel.1,
      config.window.kernel.2]
  if config.bias then
    let bias ← Assembly.newParameter c (name ++ ".bias") [config.outputs]
    return ⟨weight, some bias, config⟩
  else return ⟨weight, none, config⟩

/-- Makes a plain layer. -/
def create (c : ContextId) (name : String) (inputs outputs : Nat) (kernel : Nat × Nat) :
    Assembly Conv2d :=
  ofConfig c name (.plain inputs outputs kernel)

/-- Appends the layer. The bias goes along the channels. -/
def forward (l : Conv2d) (x : Tensor) : Build Tensor := do
  let y ← x.conv2d l.weight l.config.window l.config.groups
  match l.bias with
  | some bias => y.biasAdd bias 1
  | none => return y

end Conv2d

/-- A transposed convolution followed by a sum with a row. -/
structure ConvTranspose2d where
  weight : Tensor
  bias : Tensor
  window : Window
  outputPadding : Nat × Nat

namespace ConvTranspose2d

/-- Makes a layer with the weight `[inputs, outputs, kh, kw]` and the bias `[outputs]`. -/
def create (c : ContextId) (name : String) (inputs outputs : Nat) (kernel : Nat × Nat) :
    Assembly ConvTranspose2d := do
  let weight ← Assembly.newParameter c (name ++ ".weight") [inputs, outputs, kernel.1, kernel.2]
  let bias ← Assembly.newParameter c (name ++ ".bias") [outputs]
  return ⟨weight, bias, .dense kernel (1, 1) (0, 0), (0, 0)⟩

/-- With another stride. -/
def withStride (l : ConvTranspose2d) (stride : Nat × Nat) : ConvTranspose2d :=
  { l with window := { l.window with stride := stride } }

/-- With another padding. -/
def withPadding (l : ConvTranspose2d) (padding : Nat × Nat) : ConvTranspose2d :=
  { l with window := { l.window with padding := padding } }

/-- With another padding of the result. -/
def withOutputPadding (l : ConvTranspose2d) (padding : Nat × Nat) : ConvTranspose2d :=
  { l with outputPadding := padding }

/-- Appends the layer. The bias goes along the channels. -/
def forward (l : ConvTranspose2d) (x : Tensor) : Build Tensor := do
  let y ← x.conv2dTranspose l.weight l.window l.outputPadding
  y.biasAdd l.bias 1

end ConvTranspose2d

/-! ## Normalisation -/

/-- A normalisation along the channels. -/
structure BatchNorm where
  gamma : Tensor
  beta : Tensor
  mean : Tensor
  var : Tensor
  epsilon : Binary64

namespace BatchNorm

/-- One part in a hundred thousand. -/
def standardEpsilon : Binary64 := Binary.ofRatio false 1 100000

/-- Makes a layer with a scale, an offset and running statistics for every channel. -/
def create (c : ContextId) (name : String) (channels : Nat) : Assembly BatchNorm := do
  let gamma ← Assembly.newParameter c (name ++ ".gamma") [channels]
  let beta ← Assembly.newParameter c (name ++ ".beta") [channels]
  let mean ← Assembly.newParameter c (name ++ ".moving_mean") [channels]
  let var ← Assembly.newParameter c (name ++ ".moving_var") [channels]
  return ⟨gamma, beta, mean, var, standardEpsilon⟩

/-- With another epsilon. -/
def withEpsilon (l : BatchNorm) (epsilon : Binary64) : BatchNorm := { l with epsilon := epsilon }

/-- Appends the layer. Of the tuple only the normalised input is used. -/
def forward (l : BatchNorm) (x : Tensor) : Build Tensor := do
  let y ← x.batchNorm l.gamma l.beta l.mean l.var l.epsilon
  y.tupleGetItem 0

end BatchNorm

/-! ## All layers -/

/-- A layer. -/
inductive Layer where
  | linear (l : Linear)
  | conv2d (l : Conv2d)
  | convTranspose2d (l : ConvTranspose2d)
  | maxPool2d (window : Window)
  | avgPool2d (window : Window)
  | adaptiveAvgPool2d (size : Nat × Nat)
  | batchNorm (l : BatchNorm)
  | relu
  | leakyRelu (alpha : Binary64)
  | sigmoid
  | tanh
  | softmax (axis : Int)

namespace Layer

/-- A window and a stride of the same extent in both axes. -/
def squareWindow (size : Nat) : Window := .dense (size, size) (size, size) (0, 0)

/-- A pooling of every channel to one element. -/
def globalAvgPool2d : Layer := .adaptiveAvgPool2d (1, 1)

/-- The fraction of the negative part that is kept unless another is asked for. -/
def standardAlpha : Binary64 := Binary.ofRatio false 1 100

/-- Appends the layer to the graph of its input. -/
def forward : Layer → Tensor → Build Tensor
  | .linear l, x => l.forward x
  | .conv2d l, x => l.forward x
  | .convTranspose2d l, x => l.forward x
  | .maxPool2d window, x => x.maxPool2d window
  | .avgPool2d window, x => x.avgPool2d window
  | .adaptiveAvgPool2d size, x => x.adaptiveAvgPool2d size
  | .batchNorm l, x => l.forward x
  | .relu, x => x.relu
  | .leakyRelu alpha, x => x.leakyRelu alpha
  | .sigmoid, x => x.sigmoid
  | .tanh, x => x.tanh
  | .softmax axis, x => x.softmax axis

/-- The parameters that are learnt. The running statistics of a normalisation are not. -/
def parameters : Layer → List Tensor
  | .linear l => [l.weights, l.bias]
  | .conv2d l => l.weight :: l.bias.toList
  | .convTranspose2d l => [l.weight, l.bias]
  | .batchNorm l => [l.gamma, l.beta]
  | _ => []

/-- Appends layers one after the other. -/
def sequence (x : Tensor) : List Layer → Build Tensor
  | [] => return x
  | l :: rest => do
    let y ← l.forward x
    sequence y rest

end Layer

end GraphSurvey
