import GraphSurvey.Builder.Layer

/-!
# Ready-made models

Models that are built by layers, each with one input and one output.

## Main definitions

* `GraphSurvey.Model`, `GraphSurvey.catalog` — the models by their names.
* `GraphSurvey.buildModel` — the graph of a model.
* `GraphSurvey.residualBlock` — two convolutions with a shortcut around them.
-/

namespace GraphSurvey

/-- A model with its name and what it is. -/
structure Model where
  name : String
  description : String
  build : Except BuildError Graph

namespace Model

/-- The graph that a step builds in a context of its own, with the result as its output. -/
def assemble (name : String) (build : ContextId → Build Tensor) : Except BuildError Graph :=
  let (context, start) := (Assembly.newContext name).run Session.empty
  match (build context).run.run start with
  | (.ok output, s) => .ok (s.finish context output)
  | (.error e, _) => .error e

end Model

/-! ## Perceptrons and early convolutional networks -/

/-- Two fully connected layers. -/
def mlp (c : ContextId) : Build Tensor := do
  let x ← Assembly.newInput c "x" [1, 784]
  let fc1 ← Linear.create c 784 256 "fc1"
  let fc2 ← Linear.create c 256 10 "fc2"
  Layer.sequence x [.linear fc1, .relu, .linear fc2, .softmax (-1)]

/-- Two convolutions with poolings and three fully connected layers. -/
def lenet (c : ContextId) : Build Tensor := do
  let x ← Assembly.newInput c "image" [1, 1, 28, 28]
  let conv1 ← Conv2d.ofConfig c "conv1" ((ConvConfig.plain 1 6 (5, 5)).withPadding (2, 2))
  let conv2 ← Conv2d.create c "conv2" 6 16 (5, 5)
  let pool := Layer.maxPool2d (Layer.squareWindow 2)
  let features ← Layer.sequence x [.conv2d conv1, .relu, pool, .conv2d conv2, .relu, pool]
  let fc1 ← Linear.create c (16 * 5 * 5) 120 "fc1"
  let fc2 ← Linear.create c 120 84 "fc2"
  let fc3 ← Linear.create c 84 10 "fc3"
  Layer.sequence (← features.batchFlatten) [.linear fc1, .relu, .linear fc2, .relu, .linear fc3]

/-! ## Residual networks -/

/-- A convolution of a residual block. -/
def blockConv (c : ContextId) (name : String) (inputs outputs stride : Nat) : Assembly Conv2d :=
  Conv2d.ofConfig c name
    ((((ConvConfig.plain inputs outputs (3, 3)).withStride (stride, stride)).withPadding
      (1, 1)).withBias false)

/-- The way around the convolutions of a residual block: the input itself, or a convolution with a
kernel of one by one that gives it the shape of the result. -/
def shortcut (c : ContextId) (name : String) (x : Tensor) (inputs outputs stride : Nat) :
    Build Tensor := do
  if stride ≠ 1 ∨ inputs ≠ outputs then
    let proj ← Conv2d.ofConfig c (name ++ ".downsample")
      (((ConvConfig.plain inputs outputs (1, 1)).withStride (stride, stride)).withBias false)
    let bn ← BatchNorm.create c (name ++ ".downsample_bn") outputs
    Layer.sequence x [.conv2d proj, .batchNorm bn]
  else return x

/-- Two convolutions, each normalised, with a shortcut around them. -/
def residualBlock (c : ContextId) (name : String) (x : Tensor) (inputs outputs stride : Nat) :
    Build Tensor := do
  let conv1 ← blockConv c (name ++ ".conv1") inputs outputs stride
  let bn1 ← BatchNorm.create c (name ++ ".bn1") outputs
  let conv2 ← blockConv c (name ++ ".conv2") outputs outputs 1
  let bn2 ← BatchNorm.create c (name ++ ".bn2") outputs
  let branch ← Layer.sequence x
    [.conv2d conv1, .batchNorm bn1, .relu, .conv2d conv2, .batchNorm bn2]
  let around ← shortcut c name x inputs outputs stride
  let sum ← branch.add around
  sum.relu

/-- A stem, two residual blocks and a fully connected layer. -/
def resnetTiny (c : ContextId) : Build Tensor := do
  let x ← Assembly.newInput c "image" [1, 3, 32, 32]
  let stem ← Conv2d.ofConfig c "stem"
    (((ConvConfig.plain 3 16 (3, 3)).withPadding (1, 1)).withBias false)
  let stemBn ← BatchNorm.create c "stem_bn" 16
  let h ← Layer.sequence x [.conv2d stem, .batchNorm stemBn, .relu]
  let h ← residualBlock c "layer1" h 16 16 1
  let h ← residualBlock c "layer2" h 16 32 2
  let pooled ← (← Layer.globalAvgPool2d.forward h).batchFlatten
  let fc ← Linear.create c 32 10 "fc"
  fc.forward pooled

/-! ## Adversarial networks -/

/-- A transposed convolution that doubles height and width. -/
def upConv (c : ContextId) (name : String) (inputs outputs : Nat) : Assembly ConvTranspose2d := do
  let up ← ConvTranspose2d.create c name inputs outputs (4, 4)
  return (up.withStride (2, 2)).withPadding (1, 1)

/-- A transposed convolution that doubles height and width, normalised. -/
def upBlock (c : ContextId) (name : String) (inputs outputs : Nat) (x : Tensor) : Build Tensor := do
  let up ← upConv c name inputs outputs
  let bn ← BatchNorm.create c (name ++ "_bn") outputs
  Layer.sequence x [.convTranspose2d up, .batchNorm bn, .relu]

/-- Transposed convolutions from a row of numbers to an image. -/
def dcganGenerator (c : ContextId) : Build Tensor := do
  let z ← Assembly.newInput c "z" [1, 100, 1, 1]
  let project ← ConvTranspose2d.create c "project" 100 128 (4, 4)
  let projectBn ← BatchNorm.create c "project_bn" 128
  let h ← Layer.sequence z [.convTranspose2d project, .batchNorm projectBn, .relu]
  let h ← upBlock c "up1" 128 64 h
  let h ← upBlock c "up2" 64 32 h
  let toRgb ← upConv c "to_rgb" 32 3
  Layer.sequence h [.convTranspose2d toRgb, .tanh]

/-- A convolution that halves height and width. -/
def downConv (c : ContextId) (name : String) (inputs outputs : Nat) : Assembly Conv2d :=
  Conv2d.ofConfig c name
    (((ConvConfig.plain inputs outputs (4, 4)).withStride (2, 2)).withPadding (1, 1))

/-- The leaky activation of the discriminator. -/
def leaky : Layer := .leakyRelu (Binary.ofRatio false 1 5)

/-- A convolution that halves height and width, normalised. -/
def downBlock (c : ContextId) (name : String) (inputs outputs : Nat) (x : Tensor) :
    Build Tensor := do
  let down ← downConv c name inputs outputs
  let bn ← BatchNorm.create c (name ++ "_bn") outputs
  Layer.sequence x [.conv2d down, .batchNorm bn, leaky]

/-- Convolutions from an image to a score. -/
def dcganDiscriminator (c : ContextId) : Build Tensor := do
  let x ← Assembly.newInput c "image" [1, 3, 32, 32]
  let down1 ← downConv c "down1" 3 32
  let h ← Layer.sequence x [.conv2d down1, leaky]
  let h ← downBlock c "down2" 32 64 h
  let h ← downBlock c "down3" 64 128 h
  let score ← Conv2d.create c "score" 128 1 (4, 4)
  let y ← (← Layer.sequence h [.conv2d score]).batchFlatten
  y.sigmoid

/-! ## The catalogue -/

/-- All models in their order. -/
def catalog : List Model :=
  [⟨"mlp", "two-layer perceptron on flat 784 inputs", Model.assemble "mlp" mlp⟩,
   ⟨"lenet", "LeNet-5 style classifier on 1x28x28 images", Model.assemble "lenet" lenet⟩,
   ⟨"resnet_tiny", "two residual blocks with a strided projection shortcut",
     Model.assemble "resnet_tiny" resnetTiny⟩,
   ⟨"dcgan_generator", "transposed-conv generator from a 100-d latent to 3x32x32",
     Model.assemble "dcgan_generator" dcganGenerator⟩,
   ⟨"dcgan_discriminator", "strided-conv discriminator on 3x32x32 images",
     Model.assemble "dcgan_discriminator" dcganDiscriminator⟩]

/-- The graph of the model of a name. -/
def buildModel (name : String) : Except BuildError Graph :=
  match catalog.find? (·.name = name) with
  | some m => m.build
  | none => .error (.unknownModel name)

end GraphSurvey
