import GraphSurvey.Shape.Window
import Mathlib

/-!
# Placements of windows

Along one axis a window is placed at every multiple of the stride where all it spans lies within the
padded axis. The extent of a convolution or a pooling along the axis is the number of these
placements. There is no result if there is none, nor if the kernel or the stride is zero, and so no
extent is ever zero.

## Main definitions

* `GraphSurvey.Axis`, `GraphSurvey.Axis.placements` — an axis with a window along it, and where the
  window is placed.
* `GraphSurvey.Axis.Blocked` — there is no result along an axis.
* `GraphSurvey.Axes`, `GraphSurvey.Window.axes` — the two axes of an image.

## Main results

* `GraphSurvey.Axis.extent_eq_ok_iff`, `GraphSurvey.Axis.extent_of_blocked` — extents along an axis.
* `GraphSurvey.Shape.conv2d_eq_ok_iff`, `GraphSurvey.Shape.pool2d_eq_ok_iff` — shapes of results.
* `GraphSurvey.Shape.extents_count_placements` — the extents of convolutions and poolings are
  numbers of placements.
-/

namespace GraphSurvey

/-! ## One axis -/

/-- An axis with a window along it. -/
structure Axis where
  size : Nat
  kernel : Nat
  stride : Nat
  padding : Nat
  dilation : Nat

namespace Axis

/-- The places of the axis with the padding at both ends. -/
def padded (a : Axis) : Nat := a.size + 2 * a.padding

/-- The window, moved by a number of strides, lies within the padded axis. -/
def Fits (a : Axis) (i : Nat) : Prop :=
  i * a.stride + (a.kernel - 1) * a.dilation + 1 ≤ a.size + 2 * a.padding

/-- The placements of the window, in strides from the first one. -/
def placements (a : Axis) : Set Nat := {i | a.Fits i}

/-- The window is degenerate or has no placement. -/
def Blocked (a : Axis) : Prop := a.kernel = 0 ∨ a.stride = 0 ∨ ∀ i, ¬ a.Fits i

/-- The extent of the result along the axis. -/
def extent (a : Axis) (op : String) : Except BuildError Nat :=
  Window.extent op a.size a.kernel a.stride a.padding a.dilation

variable {a : Axis} {op : String} {n : Nat}

theorem fits_iff {i : Nat} :
    a.Fits i ↔ i * a.stride + Window.span a.kernel a.dilation ≤ a.padded := by
  rw [Fits, Window.span, padded, ← Nat.add_assoc]

/-- If the window fits somewhere, it fits at the start. -/
theorem forall_not_fits_iff : (∀ i, ¬ a.Fits i) ↔ a.padded < Window.span a.kernel a.dilation := by
  simp only [fits_iff, Nat.not_le]
  constructor
  · intro h
    simpa using h 0
  · exact fun h i => Nat.lt_add_left _ h

theorem blocked_iff :
    a.Blocked ↔ a.kernel = 0 ∨ a.stride = 0 ∨ a.padded < Window.span a.kernel a.dilation := by
  rw [Blocked, forall_not_fits_iff]

/-- Along a blocked axis the window is too large. -/
theorem extent_of_blocked (h : a.Blocked) (op : String) :
    a.extent op = .error (.windowTooLarge op a.kernel a.padded) := by
  rw [extent, Window.extent]
  exact if_pos (blocked_iff.mp h)

theorem extent_of_not_blocked (h : ¬ a.Blocked) (op : String) :
    a.extent op = .ok ((a.padded - Window.span a.kernel a.dilation) / a.stride + 1) := by
  rw [extent, Window.extent]
  exact if_neg (mt blocked_iff.mpr h)

/-- The places of the padded axis are those up to the last placement and fewer than a stride
more. -/
theorem extent_eq_ok_iff : a.extent op = .ok n ↔ 0 < a.kernel ∧ 0 < n ∧ ∃ rest < a.stride,
    a.padded = (n - 1) * a.stride + Window.span a.kernel a.dilation + rest := by
  by_cases h : a.Blocked
  · rw [extent_of_blocked h, blocked_iff] at *
    simp only [reduceCtorEq, false_iff]
    rintro ⟨hkernel, -, rest, hrest, hpadded⟩
    rcases h with h | h | h <;> omega
  · rw [extent_of_not_blocked h, Except.ok.injEq]
    obtain ⟨hkernel, hstride, hspan⟩ : a.kernel ≠ 0 ∧ a.stride ≠ 0 ∧
        Window.span a.kernel a.dilation ≤ a.padded := by
      simpa only [blocked_iff, not_or, Nat.not_lt] using h
    constructor
    · rintro rfl
      have hdivision := Nat.div_add_mod' (a.padded - Window.span a.kernel a.dilation) a.stride
      refine ⟨Nat.pos_of_ne_zero hkernel, Nat.succ_pos _,
        (a.padded - Window.span a.kernel a.dilation) % a.stride,
        Nat.mod_lt _ (Nat.pos_of_ne_zero hstride), ?_⟩
      rw [Nat.add_sub_cancel]
      omega
    · rintro ⟨-, hn, rest, hrest, hpadded⟩
      have hover : a.padded - Window.span a.kernel a.dilation = rest + (n - 1) * a.stride := by
        omega
      rw [hover, Nat.add_mul_div_right _ _ (Nat.pos_of_ne_zero hstride), Nat.div_eq_of_lt hrest]
      omega

/-- The window is placed as often as the extent says, at the start and at the next strides. -/
theorem fits_iff_lt (h : a.extent op = .ok n) (i : Nat) : a.Fits i ↔ i < n := by
  obtain ⟨-, hn, rest, hrest, hpadded⟩ := extent_eq_ok_iff.mp h
  rw [fits_iff, hpadded]
  constructor
  · intro hfits
    by_contra hge
    have hmul : (n - 1 + 1) * a.stride ≤ i * a.stride := Nat.mul_le_mul_right _ (by omega)
    rw [Nat.add_mul, Nat.one_mul] at hmul
    omega
  · intro hlt
    have hmul : i * a.stride ≤ (n - 1) * a.stride := Nat.mul_le_mul_right _ (by omega)
    omega

theorem encard_placements (h : a.extent op = .ok n) : a.placements.encard = n := by
  have hset : a.placements = (Finset.range n : Set Nat) := by
    ext i
    rw [placements, Set.mem_ofPred_eq, fits_iff_lt h, Finset.coe_range, Set.mem_Iio]
  rw [hset, Set.encard_coe_eq_coe_finsetCard, Finset.card_range]

end Axis

/-! ## Two axes -/

/-- The height and the width of an image with a window along them. -/
structure Axes where
  vertical : Axis
  horizontal : Axis

/-- The axes of an image with a window of the given kernel. -/
def Window.axes (w : Window) (data : Shape) (kernel : Nat × Nat) : Axes where
  vertical := ⟨data.getD 2 0, kernel.1, w.stride.1, w.padding.1, w.dilation.1⟩
  horizontal := ⟨data.getD 3 0, kernel.2, w.stride.2, w.padding.2, w.dilation.2⟩

/-- The window without its dilation. -/
def Window.undilated (w : Window) : Window := { w with dilation := (1, 1) }

namespace Shape

/-- The kernel of a weight. -/
def kernel (weight : Shape) : Nat × Nat := (weight.getD 2 0, weight.getD 3 0)

/-- The shape of an image whose height and width may be missing. -/
def ofExtents (batch channels : Nat) (height width : Except BuildError Nat) :
    Except BuildError Shape := do
  let h ← height
  let w ← width
  return [batch, channels, h, w]

variable {batch channels h w : Nat} {height width : Except BuildError Nat} {y : Shape}

theorem ofExtents_eq_ok_iff : ofExtents batch channels height width = .ok y ↔
    ∃ h w, height = .ok h ∧ width = .ok w ∧ y = [batch, channels, h, w] := by
  rw [ofExtents]
  cases height with
  | error e => simp [bind, Except.bind]
  | ok h =>
    cases width with
    | error e => simp [bind, Except.bind]
    | ok w => simp [bind, Except.bind, pure, Except.pure, eq_comm]

theorem ofExtents_eq_ok_extents_iff :
    ofExtents batch channels height width = .ok [batch, channels, h, w] ↔
      height = .ok h ∧ width = .ok w := by
  rw [ofExtents_eq_ok_iff]
  constructor
  · rintro ⟨_, _, hheight, hwidth, heq⟩
    simp only [List.cons.injEq, true_and, and_true] at heq
    obtain ⟨rfl, rfl⟩ := heq
    exact ⟨hheight, hwidth⟩
  · rintro ⟨hheight, hwidth⟩
    exact ⟨h, w, hheight, hwidth, rfl⟩

end Shape

namespace Axes

/-- The shape of a result with an extent for each axis. -/
def shape (axes : Axes) (op : String) (batch channels : Nat) : Except BuildError Shape :=
  Shape.ofExtents batch channels (axes.vertical.extent op) (axes.horizontal.extent op)

/-- There is no result along one of the axes. -/
def Blocked (axes : Axes) : Prop := axes.vertical.Blocked ∨ axes.horizontal.Blocked

/-- The last two extents of the shape are the numbers of placements, which are not zero. -/
def Counted (axes : Axes) (y : Shape) : Prop :=
  ∃ batch channels h w, y = [batch, channels, h, w] ∧ 0 < h ∧ 0 < w ∧
    axes.vertical.placements.encard = h ∧ axes.horizontal.placements.encard = w

/-- The window is too large exactly if there is no result along one of the axes, and otherwise there
is a result. -/
structure Decides (axes : Axes) (op : String) (result : Except BuildError Shape) : Prop where
  tooLarge : (∃ kernel size, result = .error (.windowTooLarge op kernel size)) ↔ axes.Blocked
  fits : (∃ y, result = .ok y) ↔ ¬ axes.Blocked

variable {axes : Axes} {op : String} {batch channels : Nat} {y : Shape}

theorem counted_of_shape (h : axes.shape op batch channels = .ok y) : axes.Counted y := by
  obtain ⟨height, width, hheight, hwidth, rfl⟩ := Shape.ofExtents_eq_ok_iff.mp h
  exact ⟨batch, channels, height, width, rfl, (Axis.extent_eq_ok_iff.mp hheight).2.1,
    (Axis.extent_eq_ok_iff.mp hwidth).2.1, Axis.encard_placements hheight,
    Axis.encard_placements hwidth⟩

theorem decides_shape (axes : Axes) (op : String) (batch channels : Nat) :
    axes.Decides op (axes.shape op batch channels) := by
  by_cases hv : axes.vertical.Blocked
  · have hblocked : axes.Blocked := .inl hv
    rw [shape, Axis.extent_of_blocked hv]
    exact ⟨iff_of_true ⟨_, _, rfl⟩ hblocked, iff_of_false nofun (not_not_intro hblocked)⟩
  · by_cases hh : axes.horizontal.Blocked
    · have hblocked : axes.Blocked := .inr hh
      rw [shape, Axis.extent_of_not_blocked hv, Axis.extent_of_blocked hh]
      exact ⟨iff_of_true ⟨_, _, rfl⟩ hblocked, iff_of_false nofun (not_not_intro hblocked)⟩
    · have hfits : ¬ axes.Blocked := not_or.mpr ⟨hv, hh⟩
      rw [shape, Axis.extent_of_not_blocked hv, Axis.extent_of_not_blocked hh]
      exact ⟨iff_of_false nofun hfits, iff_of_true ⟨_, rfl⟩ hfits⟩

end Axes

/-! ## Convolutions and poolings -/

namespace Shape

variable {data weight y : Shape} {window : Window} {groups : Nat} {op : String}

theorem conv2d_eq {batch channels height width outputs perGroup kernelHeight kernelWidth : Nat}
    (hgroups : groups ≠ 0) (hchannels : channels = perGroup * groups) :
    conv2d [batch, channels, height, width] [outputs, perGroup, kernelHeight, kernelWidth] window
        groups =
      (window.axes [batch, channels, height, width] (kernelHeight, kernelWidth)).shape "conv2d"
        batch outputs := by
  rw [conv2d, if_neg (not_or.mpr ⟨hgroups, not_not_intro hchannels⟩)]
  rfl

/-- A convolution has a result if data and weight are images, the channels are those of the groups,
and there are extents along both axes. -/
theorem conv2d_eq_ok_iff : conv2d data weight window groups = .ok y ↔
    ∃ batch channels height width outputs perGroup kernelHeight kernelWidth,
      data = [batch, channels, height, width] ∧
      weight = [outputs, perGroup, kernelHeight, kernelWidth] ∧
      groups ≠ 0 ∧ channels = perGroup * groups ∧
      (window.axes data (kernel weight)).shape "conv2d" batch outputs = .ok y := by
  constructor
  · intro h
    unfold conv2d at h
    split at h
    case h_1 batch channels height width outputs perGroup kernelHeight kernelWidth =>
      split at h
      case isTrue => cases h
      case isFalse hright =>
        obtain ⟨hgroups, hchannels⟩ := not_or.mp hright
        exact ⟨batch, channels, height, width, outputs, perGroup, kernelHeight, kernelWidth, rfl,
          rfl, hgroups, not_not.mp hchannels, h⟩
    case h_2 => cases h
    case h_3 => cases h
  · rintro ⟨batch, channels, height, width, outputs, perGroup, kernelHeight, kernelWidth, rfl, rfl,
      hgroups, hchannels, h⟩
    rwa [conv2d_eq hgroups hchannels]

theorem pool2d_eq (batch channels height width : Nat) :
    pool2d op [batch, channels, height, width] window =
      (window.undilated.axes [batch, channels, height, width] window.kernel).shape op batch
        channels := rfl

/-- A pooling has a result if the data are an image and there are extents along both axes. -/
theorem pool2d_eq_ok_iff : pool2d op data window = .ok y ↔
    ∃ batch channels height width, data = [batch, channels, height, width] ∧
      (window.undilated.axes data window.kernel).shape op batch channels = .ok y := by
  constructor
  · intro h
    unfold pool2d at h
    split at h
    case h_1 batch channels height width => exact ⟨batch, channels, height, width, rfl, h⟩
    case h_2 => cases h
  · rintro ⟨batch, channels, height, width, rfl, h⟩
    exact h

/-- The extents of a convolution and of a pooling are the numbers of placements of the window along
the axes, and they are not zero. A convolution of an image with a weight of as many channels as its
groups ask for, and a pooling of an image, fail as the window is too large exactly if along one of
the axes the kernel or the stride is zero or there is no placement, and have a result otherwise. -/
theorem extents_count_placements (op : String) (window : Window) (groups : Nat)
    (data weight : Shape) :
    (∀ y, conv2d data weight window groups = .ok y →
      (window.axes data weight.kernel).Counted y) ∧
    (∀ y, pool2d op data window = .ok y →
      (window.undilated.axes data window.kernel).Counted y) ∧
    (data.length = 4 → weight.length = 4 → groups ≠ 0 →
      data.getD 1 0 = weight.getD 1 0 * groups →
      (window.axes data weight.kernel).Decides "conv2d" (conv2d data weight window groups)) ∧
    (data.length = 4 →
      (window.undilated.axes data window.kernel).Decides op (pool2d op data window)) := by
  refine ⟨fun y hy => ?_, fun y hy => ?_, fun hdata hweight hgroups hchannels => ?_,
    fun hdata => ?_⟩
  · obtain ⟨_, _, _, _, _, _, _, _, -, -, -, -, hshape⟩ := conv2d_eq_ok_iff.mp hy
    exact Axes.counted_of_shape hshape
  · obtain ⟨_, _, _, _, -, hshape⟩ := pool2d_eq_ok_iff.mp hy
    exact Axes.counted_of_shape hshape
  · obtain ⟨batch, channels, height, width, rfl⟩ := List.length_eq_four.mp hdata
    obtain ⟨outputs, perGroup, kernelHeight, kernelWidth, rfl⟩ := List.length_eq_four.mp hweight
    replace hchannels : channels = perGroup * groups := hchannels
    rw [conv2d_eq hgroups hchannels]
    exact Axes.decides_shape _ _ _ _
  · obtain ⟨batch, channels, height, width, rfl⟩ := List.length_eq_four.mp hdata
    rw [pool2d_eq]
    exact Axes.decides_shape _ _ _ _

/-- A window that differs along the two axes. -/
def unevenWindow : Window := ⟨(5, 5), (2, 3), (1, 0), (2, 1)⟩

theorem extents_count_placements_uneven :
    conv2d [1, 3, 8, 12] [4, 3, 3, 2] unevenWindow 1 = .ok [1, 4, 3, 4] ∧
    (unevenWindow.axes [1, 3, 8, 12] (3, 2)).Counted [1, 4, 3, 4] ∧
    (¬ ∃ kernel size, conv2d [1, 3, 8, 12] [4, 3, 3, 2] unevenWindow 1 =
      .error (.windowTooLarge "conv2d" kernel size)) ∧
    pool2d "max" [1, 3, 5, 12] unevenWindow = .ok [1, 3, 2, 3] ∧
    (unevenWindow.undilated.axes [1, 3, 5, 12] (5, 5)).Counted [1, 3, 2, 3] ∧
    ∃ kernel size, pool2d "max" [1, 3, 2, 12] unevenWindow =
      .error (.windowTooLarge "max" kernel size) := by
  obtain ⟨hconv, -, hdecides, -⟩ :=
    extents_count_placements "max" unevenWindow 1 [1, 3, 8, 12] [4, 3, 3, 2]
  obtain ⟨-, hpool, -, -⟩ := extents_count_placements "max" unevenWindow 1 [1, 3, 5, 12] []
  obtain ⟨-, -, -, hlarge⟩ := extents_count_placements "max" unevenWindow 1 [1, 3, 2, 12] []
  have hfits : ¬ (unevenWindow.axes [1, 3, 8, 12] (3, 2)).Blocked :=
    (hdecides rfl rfl (by decide) rfl).fits.mp ⟨[1, 4, 3, 4], rfl⟩
  refine ⟨rfl, hconv _ rfl, mt (hdecides rfl rfl (by decide) rfl).tooLarge.mp hfits, rfl,
    hpool _ rfl, (hlarge rfl).tooLarge.mpr (.inl ?_)⟩
  exact Axis.blocked_iff.mpr (.inr (.inr (by decide)))

end Shape

end GraphSurvey
