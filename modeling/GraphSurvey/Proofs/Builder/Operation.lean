import GraphSurvey.Builder.Tensor
import Mathlib

/-!
# Operations as data

An operation is given its operands and further parameters. What it does is the same for all of them:
the type of the result is computed from the types of the operands and the parameters, and, if there
is one, a call of the operator with the operands, the attributes and that type is appended to the
context of the first operand.

## Main definitions

* `GraphSurvey.Operation`, `GraphSurvey.Operation.perform` — the operations and what they do.
* `GraphSurvey.Operation.type`, `GraphSurvey.Operation.call` — the type of the result, and the call.

## Main results

* `GraphSurvey.Operation.perform_eq` — an operation is its type followed by its call.
-/

namespace GraphSurvey

/-! ## Types of results -/

namespace TypeRule

/-- The shape of a tensor. -/
def shape (op : String) : ResultType → Except BuildError Shape
  | .tensor s => .ok s
  | ty => .error (.notATensor op ty)

/-- The type of an operation on two aligned tensors. -/
def binary (op : String) (x y : ResultType) : Except BuildError ResultType := do
  return .tensor (← Shape.broadcast op (← shape op x) (← shape op y))

/-- The type of a dense layer. -/
def dense (x weight : ResultType) : Except BuildError ResultType := do
  return .tensor (← Shape.dense (← shape "nn.dense" x) (← shape "nn.dense" weight))

/-- The type of adding a row of numbers along an axis. -/
def biasAdd (x bias : ResultType) (axis : Nat) : Except BuildError ResultType := do
  return .tensor
    (← Shape.biasAdd (← shape "nn.bias_add" x) (← shape "nn.bias_add" bias) axis)

/-- The type of a convolution. -/
def conv2d (x weight : ResultType) (window : Window) (groups : Nat) :
    Except BuildError ResultType := do
  let weightShape ← shape "nn.conv2d" weight
  return .tensor (← Shape.conv2d (← shape "nn.conv2d" x) weightShape window groups)

/-- The type of a transposed convolution. -/
def conv2dTranspose (x weight : ResultType) (window : Window) (outputPadding : Nat × Nat) :
    Except BuildError ResultType := do
  let weightShape ← shape "nn.conv2d_transpose" weight
  return .tensor
    (← Shape.conv2dTranspose (← shape "nn.conv2d_transpose" x) weightShape window outputPadding)

/-- The type of a pooling over windows. -/
def pool2d (op : String) (x : ResultType) (window : Window) : Except BuildError ResultType := do
  return .tensor (← Shape.pool2d op (← shape op x) window)

/-- The type of a pooling to a given size. -/
def adaptiveAvgPool2d (x : ResultType) (size : Nat × Nat) : Except BuildError ResultType := do
  return .tensor (← Shape.adaptivePool2d (← shape "nn.adaptive_avg_pool2d" x) size)

/-- The type of a normalisation. -/
def batchNorm (x gamma : ResultType) : Except BuildError ResultType := do
  let s ← shape "nn.batch_norm" x
  let channels ← shape "nn.batch_norm" gamma
  let _ ← Shape.biasAdd s channels 1
  return .tuple [.tensor s, .tensor channels, .tensor channels]

/-- The type of a field of a tuple. -/
def tupleGetItem (x : ResultType) (index : Nat) : Except BuildError ResultType :=
  match x with
  | .tuple fields =>
    match fields[index]? with
    | some ty => .ok ty
    | none => .error (.tupleIndex index x)
  | _ => .error (.tupleIndex index x)

/-- The type of putting all axes but the first one into one. -/
def batchFlatten (x : ResultType) : Except BuildError ResultType := do
  return .tensor (← Shape.flatten (← shape "nn.batch_flatten" x))

/-- The type of giving the elements another shape. -/
def reshape (x : ResultType) (target : Shape) : Except BuildError ResultType := do
  return .tensor (← Shape.reshape (← shape "reshape" x) target)

/-- The type of putting tensors behind each other along an axis. -/
def concatenate (parts : List ResultType) (axis : Nat) : Except BuildError ResultType := do
  return .tensor (← Shape.concatenate (← parts.mapM (shape "concatenate")) axis)

end TypeRule

/-! ## Operations -/

/-- An operation with its operands and its other parameters. -/
inductive Operation where
  | add (x y : Tensor)
  | multiply (x y : Tensor)
  | relu (x : Tensor)
  | sigmoid (x : Tensor)
  | tanh (x : Tensor)
  | leakyRelu (x : Tensor) (alpha : Binary64)
  | softmax (x : Tensor) (axis : Int)
  | dense (x weight : Tensor)
  | biasAdd (x bias : Tensor) (axis : Nat)
  | conv2d (x weight : Tensor) (window : Window) (groups : Nat)
  | conv2dTranspose (x weight : Tensor) (window : Window) (outputPadding : Nat × Nat)
  | maxPool2d (x : Tensor) (window : Window)
  | avgPool2d (x : Tensor) (window : Window)
  | adaptiveAvgPool2d (x : Tensor) (size : Nat × Nat)
  | batchNorm (x gamma beta mean var : Tensor) (epsilon : Binary64)
  | tupleGetItem (x : Tensor) (index : Nat)
  | batchFlatten (x : Tensor)
  | reshape (x : Tensor) (target : Shape)
  | concatenate (parts : List Tensor) (axis : Nat)

namespace Operation

/-- What the operation does in a session. -/
def perform : Operation → Build Tensor
  | add x y => x.add y
  | multiply x y => x.multiply y
  | relu x => x.relu
  | sigmoid x => x.sigmoid
  | tanh x => x.tanh
  | leakyRelu x alpha => x.leakyRelu alpha
  | softmax x axis => x.softmax axis
  | dense x weight => x.dense weight
  | biasAdd x bias axis => x.biasAdd bias axis
  | conv2d x weight window groups => x.conv2d weight window groups
  | conv2dTranspose x weight window outputPadding => x.conv2dTranspose weight window outputPadding
  | maxPool2d x window => x.maxPool2d window
  | avgPool2d x window => x.avgPool2d window
  | adaptiveAvgPool2d x size => x.adaptiveAvgPool2d size
  | batchNorm x gamma beta mean var epsilon => x.batchNorm gamma beta mean var epsilon
  | tupleGetItem x index => x.tupleGetItem index
  | batchFlatten x => x.batchFlatten
  | reshape x target => x.reshape target
  | concatenate parts axis => Tensor.concatenate parts axis

/-- The operands in their order. -/
def operands : Operation → List Tensor
  | add x y | multiply x y | dense x y | biasAdd x y _ | conv2d x y _ _
  | conv2dTranspose x y _ _ => [x, y]
  | relu x | sigmoid x | tanh x | leakyRelu x _ | softmax x _ | maxPool2d x _ | avgPool2d x _
  | adaptiveAvgPool2d x _ | tupleGetItem x _ | batchFlatten x | reshape x _ => [x]
  | batchNorm x gamma beta mean var _ => [x, gamma, beta, mean, var]
  | concatenate parts _ => parts

/-- The operator of the call. -/
def name : Operation → String
  | add .. => "add"
  | multiply .. => "multiply"
  | relu .. => "nn.relu"
  | sigmoid .. => "sigmoid"
  | tanh .. => "tanh"
  | leakyRelu .. => "nn.leaky_relu"
  | softmax .. => "nn.softmax"
  | dense .. => "nn.dense"
  | biasAdd .. => "nn.bias_add"
  | conv2d .. => "nn.conv2d"
  | conv2dTranspose .. => "nn.conv2d_transpose"
  | maxPool2d .. => "nn.max_pool2d"
  | avgPool2d .. => "nn.avg_pool2d"
  | adaptiveAvgPool2d .. => "nn.adaptive_avg_pool2d"
  | batchNorm .. => "nn.batch_norm"
  | tupleGetItem .. => "TupleGetItem"
  | batchFlatten .. => "nn.batch_flatten"
  | reshape .. => "reshape"
  | concatenate .. => "concatenate"

/-- The extents of the kernel of a weight of a type. -/
def kernelAttr : ResultType → Attr
  | .tensor s => Tensor.kernelAttr s
  | _ => Tensor.kernelAttr []

/-- The attributes of the call, in the order in which they are set. -/
def attrEntries : Operation → List (String × Attr)
  | leakyRelu _ alpha => [("alpha", .float alpha)]
  | softmax _ axis => [("axis", .int axis)]
  | biasAdd _ _ axis | concatenate _ axis => [("axis", .ofSize axis)]
  | conv2d _ weight window groups =>
    [("strides", .ofPair window.stride), ("padding", .ofPair window.padding),
      ("dilation", .ofPair window.dilation), ("groups", .ofSize groups),
      ("kernel_size", kernelAttr weight.type)]
  | conv2dTranspose _ weight window outputPadding =>
    [("strides", .ofPair window.stride), ("padding", .ofPair window.padding),
      ("output_padding", .ofPair outputPadding), ("kernel_size", kernelAttr weight.type)]
  | maxPool2d _ window | avgPool2d _ window =>
    [("pool_size", .ofPair window.kernel), ("strides", .ofPair window.stride),
      ("padding", .ofPair window.padding)]
  | adaptiveAvgPool2d _ size => [("output_size", .ofPair size)]
  | batchNorm _ _ _ _ _ epsilon => [("epsilon", .float epsilon)]
  | tupleGetItem _ index => [("index", .ofSize index)]
  | reshape _ target => [("newshape", .ofSizes target)]
  | add .. | multiply .. | relu .. | sigmoid .. | tanh .. | dense .. | batchFlatten .. => []

/-- The type of the result. -/
def type : Operation → Except BuildError ResultType
  | add x y => TypeRule.binary "add" x.type y.type
  | multiply x y => TypeRule.binary "multiply" x.type y.type
  | relu x | sigmoid x | tanh x | leakyRelu x _ | softmax x _ => .ok x.type
  | dense x weight => TypeRule.dense x.type weight.type
  | biasAdd x bias axis => TypeRule.biasAdd x.type bias.type axis
  | conv2d x weight window groups => TypeRule.conv2d x.type weight.type window groups
  | conv2dTranspose x weight window outputPadding =>
    TypeRule.conv2dTranspose x.type weight.type window outputPadding
  | maxPool2d x window => TypeRule.pool2d "nn.max_pool2d" x.type window
  | avgPool2d x window => TypeRule.pool2d "nn.avg_pool2d" x.type window
  | adaptiveAvgPool2d x size => TypeRule.adaptiveAvgPool2d x.type size
  | batchNorm x gamma _ _ _ _ => TypeRule.batchNorm x.type gamma.type
  | tupleGetItem x index => TypeRule.tupleGetItem x.type index
  | batchFlatten x => TypeRule.batchFlatten x.type
  | reshape x target => TypeRule.reshape x.type target
  | concatenate parts axis => TypeRule.concatenate (parts.map Tensor.type) axis

/-- The call with a given type of the result. -/
def call (o : Operation) (ty : ResultType) : Call :=
  ⟨o.name, o.operands.map Tensor.node, Dictionary.ofList o.attrEntries, ty⟩

/-- The operand whose context gets the call. -/
def receiver (o : Operation) : Except BuildError Tensor :=
  match o.operands with
  | [] => .error .emptyConcat
  | x :: _ => .ok x

/-! ## What an operation does -/

theorem shape_eq (x : Tensor) (op : String) : x.shape op = TypeRule.shape op x.type := by
  obtain ⟨_, _, ty⟩ := x
  cases ty <;> rfl

end Operation

namespace Build

variable {α β : Type}

/-- Parts of a step that leave the session alone are one part. -/
theorem lift_bind (m : Except BuildError α) (f : α → Except BuildError β) :
    (liftM (m >>= f) : Build β) = liftM m >>= fun a => liftM (f a) := by
  cases m <;> rfl

theorem lift_pure (a : α) : (liftM (pure a : Except BuildError α) : Build α) = pure a := rfl

theorem lift_ok_bind (a : α) (f : α → Build β) :
    (liftM (Except.ok a : Except BuildError α) : Build α) >>= f = f a := rfl

theorem lift_error_bind (e : BuildError) (f : α → Build β) :
    (liftM (Except.error e : Except BuildError α) : Build α) >>= f = throw e := rfl

theorem lift_mapM (f : α → Except BuildError β) (l : List α) :
    (liftM (l.mapM f) : Build (List β)) = l.mapM fun a => liftM (f a) := by
  induction l with
  | nil => rfl
  | cons a rest ih => simp only [List.mapM_cons, lift_bind, lift_pure, ih]

/-- A sequence of two steps goes on with what the first one leaves. -/
theorem bind_run {m : Build α} {r : Except BuildError α} {s s₁ : Session} (f : α → Build β)
    (h : m s = (r, s₁)) : (m >>= f) s = ExceptT.bindCont f r s₁ := by
  change ExceptT.bindCont f (m s).1 (m s).2 = _
  rw [h]

end Build

namespace Operation

open Build

/-- The attributes of a convolution in the order in which they are set. -/
theorem call_conv2d (x weight : Tensor) (window : Window) (groups : Nat) (ty : ResultType) :
    (conv2d x weight window groups).call ty =
      (((((Call.plain "nn.conv2d" [x.node, weight.node] ty).withAttr
        "strides" (.ofPair window.stride)).withAttr
        "padding" (.ofPair window.padding)).withAttr
        "dilation" (.ofPair window.dilation)).withAttr
        "groups" (.ofSize groups)).withAttr
        "kernel_size" (kernelAttr weight.type) := by
  simp only [call, name, operands, attrEntries, Dictionary.ofList, List.foldl, List.map, Call.plain,
    Call.withAttr]

/-- The attributes of a transposed convolution in the order in which they are set. -/
theorem call_conv2dTranspose (x weight : Tensor) (window : Window) (outputPadding : Nat × Nat)
    (ty : ResultType) :
    (conv2dTranspose x weight window outputPadding).call ty =
      ((((Call.plain "nn.conv2d_transpose" [x.node, weight.node] ty).withAttr
        "strides" (.ofPair window.stride)).withAttr
        "padding" (.ofPair window.padding)).withAttr
        "output_padding" (.ofPair outputPadding)).withAttr
        "kernel_size" (kernelAttr weight.type) := by
  simp only [call, name, operands, attrEntries, Dictionary.ofList, List.foldl, List.map, Call.plain,
    Call.withAttr]

/-- An operation computes the type of its result and then appends its call. -/
theorem perform_eq (o : Operation) :
    o.perform = (do let ty ← o.type; let x ← o.receiver; x.apply (o.call ty) : Build Tensor) := by
  cases o with
  | relu x | sigmoid x | tanh x | leakyRelu x alpha | softmax x axis => rfl
  | add x y =>
    simp only [perform, Tensor.add, Tensor.binary, type, TypeRule.binary, shape_eq, lift_bind,
      lift_pure, bind_assoc, pure_bind]
    rfl
  | multiply x y =>
    simp only [perform, Tensor.multiply, Tensor.binary, type, TypeRule.binary, shape_eq, lift_bind,
      lift_pure, bind_assoc, pure_bind]
    rfl
  | dense x weight =>
    simp only [perform, Tensor.dense, type, TypeRule.dense, shape_eq, lift_bind, lift_pure,
      bind_assoc, pure_bind]
    rfl
  | biasAdd x bias axis =>
    simp only [perform, Tensor.biasAdd, type, TypeRule.biasAdd, shape_eq, lift_bind, lift_pure,
      bind_assoc, pure_bind]
    rfl
  | conv2d x weight window groups =>
    simp only [perform, Tensor.conv2d, type, TypeRule.conv2d, call_conv2d, shape_eq, lift_bind,
      lift_pure, bind_assoc, pure_bind]
    obtain ⟨_, _, ty⟩ := weight
    cases ty with
    | tensor s => simp only [TypeRule.shape, lift_ok_bind, receiver, operands, kernelAttr]
    | tuple _ | named _ => simp only [TypeRule.shape, lift_error_bind]
  | conv2dTranspose x weight window outputPadding =>
    simp only [perform, Tensor.conv2dTranspose, type, TypeRule.conv2dTranspose,
      call_conv2dTranspose, shape_eq, lift_bind, lift_pure, bind_assoc, pure_bind]
    obtain ⟨_, _, ty⟩ := weight
    cases ty with
    | tensor s => simp only [TypeRule.shape, lift_ok_bind, receiver, operands, kernelAttr]
    | tuple _ | named _ => simp only [TypeRule.shape, lift_error_bind]
  | maxPool2d x window =>
    simp only [perform, Tensor.maxPool2d, Tensor.pool2d, type, TypeRule.pool2d, shape_eq, lift_bind,
      lift_pure, bind_assoc, pure_bind]
    rfl
  | avgPool2d x window =>
    simp only [perform, Tensor.avgPool2d, Tensor.pool2d, type, TypeRule.pool2d, shape_eq, lift_bind,
      lift_pure, bind_assoc, pure_bind]
    rfl
  | adaptiveAvgPool2d x size =>
    simp only [perform, Tensor.adaptiveAvgPool2d, type, TypeRule.adaptiveAvgPool2d, shape_eq,
      lift_bind, lift_pure, bind_assoc, pure_bind]
    rfl
  | batchNorm x gamma beta mean var epsilon =>
    simp only [perform, Tensor.batchNorm, type, TypeRule.batchNorm, shape_eq, lift_bind, lift_pure,
      bind_assoc, pure_bind]
    rfl
  | tupleGetItem x index =>
    obtain ⟨_, _, ty⟩ := x
    cases ty with
    | tuple fields =>
      simp only [perform, Tensor.tupleGetItem, type, TypeRule.tupleGetItem]
      cases fields[index]? <;> rfl
    | tensor _ | named _ => rfl
  | batchFlatten x =>
    simp only [perform, Tensor.batchFlatten, type, TypeRule.batchFlatten, shape_eq, lift_bind,
      lift_pure, bind_assoc, pure_bind]
    rfl
  | reshape x target =>
    simp only [perform, Tensor.reshape, type, TypeRule.reshape, shape_eq, lift_bind, lift_pure,
      bind_assoc, pure_bind]
    -- the recorded shape is the computed one, which is the target
    refine congrArg (bind _) (funext fun s => ?_)
    rw [Shape.reshape]
    split <;> rfl
  | concatenate parts axis =>
    cases parts with
    | nil => rfl
    | cons first rest =>
      simp only [perform, Tensor.concatenate, type, TypeRule.concatenate, shape_eq, lift_bind,
        lift_pure, lift_mapM, List.mapM_map, bind_assoc, pure_bind]
      rfl

/-- An operation whose result has no type fails and leaves the session as it is. -/
theorem perform_of_error {o : Operation} {e : BuildError} (h : o.type = .error e) (s : Session) :
    o.perform s = (.error e, s) := by
  rw [perform_eq, h]
  rfl

/-- An operation whose result has a type appends its call to the context of its first operand. -/
theorem perform_of_ok {o : Operation} {ty : ResultType} (h : o.type = .ok ty) (s : Session) :
    ∃ x rest, o.operands = x :: rest ∧ o.perform s = x.apply (o.call ty) s := by
  rw [perform_eq, h]
  cases hoperands : o.operands with
  | nil =>
    cases o with
    | concatenate parts axis =>
      obtain rfl : parts = [] := hoperands
      cases h
    | _ => cases hoperands
  | cons x rest =>
    refine ⟨x, rest, rfl, ?_⟩
    rw [receiver, hoperands]
    rfl

end Operation

end GraphSurvey
