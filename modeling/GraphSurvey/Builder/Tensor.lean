import GraphSurvey.Builder.Session
import GraphSurvey.Shape.Rules
import GraphSurvey.Shape.Window

/-!
# Operations on tensors

Every operation computes the type of its result from the types of its operands and appends a call
with that type. What it is given besides its operands goes into the attributes of the call.

## Main definitions

* `GraphSurvey.Tensor.add`, `GraphSurvey.Tensor.dense`, `GraphSurvey.Tensor.conv2d` and the other
  operations.
-/

namespace GraphSurvey.Tensor

/-! ## Elementwise operations -/

/-- An operation that keeps the type of its operand. -/
def unary (x : Tensor) (op : String) : Build Tensor := x.apply (.plain op [x.node] x.type)

/-- An operation on two aligned tensors. -/
def binary (x y : Tensor) (op : String) : Build Tensor := do
  let shape ← Shape.broadcast op (← x.shape op) (← y.shape op)
  x.apply (.plain op [x.node, y.node] (.tensor shape))

/-- The sum. -/
def add (x y : Tensor) : Build Tensor := x.binary y "add"

/-- The product. -/
def multiply (x y : Tensor) : Build Tensor := x.binary y "multiply"

/-- The positive part. -/
def relu (x : Tensor) : Build Tensor := x.unary "nn.relu"

/-- The logistic function. -/
def sigmoid (x : Tensor) : Build Tensor := x.unary "sigmoid"

/-- The hyperbolic tangent. -/
def tanh (x : Tensor) : Build Tensor := x.unary "tanh"

/-- The positive part, and a fraction of the negative one. -/
def leakyRelu (x : Tensor) (alpha : Binary64) : Build Tensor :=
  x.apply ((Call.plain "nn.leaky_relu" [x.node] x.type).withAttr "alpha" (.float alpha))

/-- The normalised exponentials along an axis. -/
def softmax (x : Tensor) (axis : Int) : Build Tensor :=
  x.apply ((Call.plain "nn.softmax" [x.node] x.type).withAttr "axis" (.int axis))

/-! ## Dense layers -/

/-- The product with the transpose of a matrix. -/
def dense (x weight : Tensor) : Build Tensor := do
  let shape ← Shape.dense (← x.shape "nn.dense") (← weight.shape "nn.dense")
  x.apply (.plain "nn.dense" [x.node, weight.node] (.tensor shape))

/-- The sum with a row of numbers along an axis. -/
def biasAdd (x bias : Tensor) (axis : Nat) : Build Tensor := do
  let shape ← Shape.biasAdd (← x.shape "nn.bias_add") (← bias.shape "nn.bias_add") axis
  x.apply ((Call.plain "nn.bias_add" [x.node, bias.node] (.tensor shape)).withAttr
    "axis" (.ofSize axis))

/-! ## Windows -/

/-- The extents of the kernel of a weight. -/
def kernelAttr (weight : Shape) : Attr := .ofSizes [weight.getD 2 0, weight.getD 3 0]

/-- A convolution. -/
def conv2d (x weight : Tensor) (window : Window) (groups : Nat) : Build Tensor := do
  let weightShape ← weight.shape "nn.conv2d"
  let shape ← Shape.conv2d (← x.shape "nn.conv2d") weightShape window groups
  x.apply (((((Call.plain "nn.conv2d" [x.node, weight.node] (.tensor shape)).withAttr
    "strides" (.ofPair window.stride)).withAttr
    "padding" (.ofPair window.padding)).withAttr
    "dilation" (.ofPair window.dilation)).withAttr
    "groups" (.ofSize groups) |>.withAttr
    "kernel_size" (kernelAttr weightShape))

/-- A transposed convolution. -/
def conv2dTranspose (x weight : Tensor) (window : Window) (outputPadding : Nat × Nat) :
    Build Tensor := do
  let weightShape ← weight.shape "nn.conv2d_transpose"
  let shape ← Shape.conv2dTranspose (← x.shape "nn.conv2d_transpose") weightShape window
    outputPadding
  x.apply ((((Call.plain "nn.conv2d_transpose" [x.node, weight.node] (.tensor shape)).withAttr
    "strides" (.ofPair window.stride)).withAttr
    "padding" (.ofPair window.padding)).withAttr
    "output_padding" (.ofPair outputPadding) |>.withAttr
    "kernel_size" (kernelAttr weightShape))

/-- A pooling over windows. -/
def pool2d (x : Tensor) (op : String) (window : Window) : Build Tensor := do
  let shape ← Shape.pool2d op (← x.shape op) window
  x.apply (((Call.plain op [x.node] (.tensor shape)).withAttr
    "pool_size" (.ofPair window.kernel)).withAttr
    "strides" (.ofPair window.stride) |>.withAttr
    "padding" (.ofPair window.padding))

/-- The greatest elements of windows. -/
def maxPool2d (x : Tensor) (window : Window) : Build Tensor := x.pool2d "nn.max_pool2d" window

/-- The means of windows. -/
def avgPool2d (x : Tensor) (window : Window) : Build Tensor := x.pool2d "nn.avg_pool2d" window

/-- The means of as many windows as are asked for. -/
def adaptiveAvgPool2d (x : Tensor) (size : Nat × Nat) : Build Tensor := do
  let shape ← Shape.adaptivePool2d (← x.shape "nn.adaptive_avg_pool2d") size
  x.apply ((Call.plain "nn.adaptive_avg_pool2d" [x.node] (.tensor shape)).withAttr
    "output_size" (.ofPair size))

/-! ## Normalisation -/

/-- The tuple of the normalised input, the mean and the variance. -/
def batchNorm (x gamma beta mean var : Tensor) (epsilon : Binary64) : Build Tensor := do
  let shape ← x.shape "nn.batch_norm"
  let channels ← gamma.shape "nn.batch_norm"
  let _ ← Shape.biasAdd shape channels 1
  x.apply ((Call.plain "nn.batch_norm" [x.node, gamma.node, beta.node, mean.node, var.node]
    (.tuple [.tensor shape, .tensor channels, .tensor channels])).withAttr
    "epsilon" (.float epsilon))

/-- A field of a tuple. -/
def tupleGetItem (x : Tensor) (index : Nat) : Build Tensor :=
  match x.type with
  | .tuple fields =>
    match fields[index]? with
    | some ty =>
      x.apply ((Call.plain "TupleGetItem" [x.node] ty).withAttr "index" (.ofSize index))
    | none => throw (.tupleIndex index x.type)
  | _ => throw (.tupleIndex index x.type)

/-! ## Shapes -/

/-- All axes but the first one put into one. -/
def batchFlatten (x : Tensor) : Build Tensor := do
  let shape ← Shape.flatten (← x.shape "nn.batch_flatten")
  x.apply (.plain "nn.batch_flatten" [x.node] (.tensor shape))

/-- The elements in another shape. -/
def reshape (x : Tensor) (target : Shape) : Build Tensor := do
  let shape ← Shape.reshape (← x.shape "reshape") target
  x.apply ((Call.plain "reshape" [x.node] (.tensor shape)).withAttr "newshape" (.ofSizes shape))

/-- Tensors behind each other along an axis. -/
def concatenate (parts : List Tensor) (axis : Nat) : Build Tensor :=
  match parts with
  | [] => throw .emptyConcat
  | first :: _ => do
    let shapes ← parts.mapM fun x => x.shape "concatenate"
    let shape ← Shape.concatenate shapes axis
    first.apply ((Call.plain "concatenate" (parts.map Tensor.node) (.tensor shape)).withAttr
      "axis" (.ofSize axis))

end GraphSurvey.Tensor
