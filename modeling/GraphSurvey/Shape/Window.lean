import GraphSurvey.Shape.Error

/-!
# Shapes of windowed operations

A window of a kernel with a dilation spans `(kernel - 1) * dilation + 1` places. It is placed at
every multiple of the stride where it fits into the padded axis, and the result has an extent of the
number of these placements. A transposed convolution spreads its input by the stride instead.

Images have the axes batch, channel, height and width; the two last ones are the axes of a window.

## Main definitions

* `GraphSurvey.Window`, `GraphSurvey.Window.extent` — windows, and the number of their placements.
* `GraphSurvey.Shape.conv2d`, `GraphSurvey.Shape.conv2dTranspose`, `GraphSurvey.Shape.pool2d`,
  `GraphSurvey.Shape.adaptivePool2d` — the shapes of results.
-/

namespace GraphSurvey

/-- A window, for height and width. -/
structure Window where
  kernel : Nat × Nat
  stride : Nat × Nat
  padding : Nat × Nat
  dilation : Nat × Nat
  deriving DecidableEq, Repr

namespace Window

/-- A window whose places lie side by side. -/
def dense (kernel stride padding : Nat × Nat) : Window := ⟨kernel, stride, padding, (1, 1)⟩

/-- The places that a window spans. -/
def span (kernel dilation : Nat) : Nat := (kernel - 1) * dilation + 1

/-- The number of placements of a window in an axis. -/
def extent (op : String) (size kernel stride padding dilation : Nat) : Except BuildError Nat :=
  let padded := size + 2 * padding
  if kernel = 0 ∨ stride = 0 ∨ padded < span kernel dilation then
    .error (.windowTooLarge op kernel padded)
  else .ok ((padded - span kernel dilation) / stride + 1)

/-- The extent of a transposed convolution. It is computed with signed words. -/
def transposedExtent (size kernel stride padding dilation extra : Nat) : Except BuildError Nat :=
  let full := (signedWord size - 1) * signedWord stride + signedWord (dilation * (kernel - 1)) +
    signedWord extra + 1
  let out := full - 2 * signedWord padding
  if size = 0 ∨ kernel = 0 ∨ out ≤ 0 then .error (.windowTooLarge "conv2d_transpose" kernel size)
  else .ok out.toNat

end Window

namespace Shape

/-- The shape of a convolution: `[n, c, h, w]` and `[k, c / groups, kh, kw]` give
`[n, k, h', w']`. -/
def conv2d (data weight : Shape) (window : Window) (groups : Nat) : Except BuildError Shape :=
  match data, weight with
  | [batch, channels, height, width], [outputs, perGroup, kernelHeight, kernelWidth] =>
    if groups = 0 ∨ channels ≠ perGroup * groups then
      .error (.incompatibleShapes "conv2d" data weight)
    else do
      let h ← Window.extent "conv2d" height kernelHeight window.stride.1 window.padding.1
        window.dilation.1
      let w ← Window.extent "conv2d" width kernelWidth window.stride.2 window.padding.2
        window.dilation.2
      return [batch, outputs, h, w]
  | [_, _, _, _], _ => .error (.invalidRank "conv2d" 4 weight.length)
  | _, _ => .error (.invalidRank "conv2d" 4 data.length)

/-- The shape of a transposed convolution: `[n, c, h, w]` and `[c, k, kh, kw]` give
`[n, k, h', w']`. -/
def conv2dTranspose (data weight : Shape) (window : Window) (outputPadding : Nat × Nat) :
    Except BuildError Shape :=
  match data, weight with
  | [batch, channels, height, width], [inputs, outputs, kernelHeight, kernelWidth] =>
    if channels ≠ inputs then .error (.incompatibleShapes "conv2d_transpose" data weight)
    else do
      let h ← Window.transposedExtent height kernelHeight window.stride.1 window.padding.1
        window.dilation.1 outputPadding.1
      let w ← Window.transposedExtent width kernelWidth window.stride.2 window.padding.2
        window.dilation.2 outputPadding.2
      return [batch, outputs, h, w]
  | [_, _, _, _], _ => .error (.invalidRank "conv2d_transpose" 4 weight.length)
  | _, _ => .error (.invalidRank "conv2d_transpose" 4 data.length)

/-- The shape of a pooling. The dilation of the window does not count. -/
def pool2d (op : String) (data : Shape) (window : Window) : Except BuildError Shape :=
  match data with
  | [batch, channels, height, width] => do
    let h ← Window.extent op height window.kernel.1 window.stride.1 window.padding.1 1
    let w ← Window.extent op width window.kernel.2 window.stride.2 window.padding.2 1
    return [batch, channels, h, w]
  | _ => .error (.invalidRank op 4 data.length)

/-- The shape of a pooling to a given height and width. -/
def adaptivePool2d (data : Shape) (size : Nat × Nat) : Except BuildError Shape :=
  match data with
  | [batch, channels, _, _] => .ok [batch, channels, size.1, size.2]
  | _ => .error (.invalidRank "adaptive_avg_pool2d" 4 data.length)

end Shape

end GraphSurvey
