import GraphSurvey.Proofs.Shape.Transposed
import Mathlib

/-!
# Degenerate windows

A window whose kernel or stride is zero is refused by convolutions and poolings. A transposed
convolution refuses a kernel of zero, and data that are empty along an axis, but not a stride of
zero: then all sizes are spread to the extent of one place. With any other stride the size along an
axis is determined by the extent of the result.

## Main definitions

* `GraphSurvey.Shape.extents` — height and width of an image.

## Main results

* `GraphSurvey.Axis.transposedExtent_eq_iff` — which sizes a transposed convolution tells apart.
* `GraphSurvey.Shape.degenerate_windows` — what accepted windows are like.
* `GraphSurvey.Shape.stride_zero_accepted` — a transposed convolution that does not tell sizes
  apart.
-/

namespace GraphSurvey

/-- Both numbers are at least one. -/
def BothPos (p : Nat × Nat) : Prop := 0 < p.1 ∧ 0 < p.2

/-- The height and the width of an image. -/
def Shape.extents (s : Shape) : Nat × Nat := (s.getD 2 0, s.getD 3 0)

namespace Axis

variable {a : Axis} {op : String} {extra n m size : Nat}

/-- Along an axis with an extent neither the kernel nor the stride is zero, nor is the extent. -/
theorem pos_of_extent (h : a.extent op = .ok n) : 0 < a.kernel ∧ 0 < a.stride ∧ 0 < n := by
  obtain ⟨hkernel, hn, rest, hrest, -⟩ := extent_eq_ok_iff.mp h
  exact ⟨hkernel, Nat.zero_lt_of_lt hrest, hn⟩

/-- The extent of a transposed convolution, which is computed from the integers with the bits of
the sizes. -/
theorem of_transposedExtent (h : a.transposedExtent extra = .ok n) :
    0 < a.size ∧ 0 < a.kernel ∧ 0 < n ∧
      (n : Int) = (signedWord a.size - 1) * signedWord a.stride +
        signedWord (a.dilation * (a.kernel - 1)) + signedWord extra + 1 -
          2 * signedWord a.padding := by
  rw [transposedExtent, Window.transposedExtent] at h
  split at h
  case isTrue => cases h
  case isFalse haccepted =>
    have hn := Except.ok.inj h
    omega

/-- Two sizes have the same extent exactly if they are the same or the stride is zero. -/
theorem transposedExtent_eq_iff (hstride : a.stride < wordBound) (ha : a.size < wordBound)
    (hsize : size < wordBound) (hn : a.transposedExtent extra = .ok n)
    (hm : (a.resized size).transposedExtent extra = .ok m) :
    n = m ↔ a.stride = 0 ∨ a.size = size := by
  obtain ⟨-, -, -, hn⟩ := of_transposedExtent hn
  obtain ⟨-, -, -, hm⟩ := of_transposedExtent hm
  have hspread : n = m ↔
      (signedWord a.size - 1) * signedWord a.stride =
        (signedWord size - 1) * signedWord a.stride := by
    rw [← Int.natCast_inj, hn, hm]
    simp [resized]
  have hzero : signedWord a.stride = 0 ↔ a.stride = 0 := by
    rw [← signedWord_inj hstride (show 0 < wordBound by decide)]
    simp [signedWord]
  rw [hspread, mul_eq_mul_right_iff, hzero, Int.sub_left_inj, signedWord_inj ha hsize, or_comm]

end Axis

/-- The axes of a shape with extents have windows that are not degenerate. -/
theorem Axes.pos_of_shape {axes : Axes} {op : String} {batch channels : Nat} {y : Shape}
    (h : axes.shape op batch channels = .ok y) :
    BothPos (axes.vertical.kernel, axes.horizontal.kernel) ∧
      BothPos (axes.vertical.stride, axes.horizontal.stride) ∧ BothPos y.extents := by
  obtain ⟨height, width, hheight, hwidth, rfl⟩ := Shape.ofExtents_eq_ok_iff.mp h
  obtain ⟨hkernel, hstride, hpos⟩ := Axis.pos_of_extent hheight
  obtain ⟨hkernel', hstride', hpos'⟩ := Axis.pos_of_extent hwidth
  exact ⟨⟨hkernel, hkernel'⟩, ⟨hstride, hstride'⟩, hpos, hpos'⟩

namespace Shape

variable {data weight y : Shape} {window : Window} {extra : Nat × Nat}

/-- The extents of a transposed convolution are those along the two axes of its data. -/
theorem extents_of_conv2dTranspose (h : conv2dTranspose data weight window extra = .ok y) :
    (window.axes data weight.kernel).vertical.transposedExtent extra.1 = .ok y.extents.1 ∧
      (window.axes data weight.kernel).horizontal.transposedExtent extra.2 = .ok y.extents.2 := by
  obtain ⟨_, _, _, _, _, _, _, rfl, rfl, hshape⟩ := conv2dTranspose_eq_ok_iff.mp h
  obtain ⟨height, width, hheight, hwidth, rfl⟩ := ofExtents_eq_ok_iff.mp hshape
  exact ⟨hheight, hwidth⟩

theorem lt_wordBound_of_extents (h : ∀ n ∈ data, n < wordBound) :
    data.extents.1 < wordBound ∧ data.extents.2 < wordBound := by
  have hget (i : Nat) : data.getD i 0 < wordBound := by
    rcases Nat.lt_or_ge i data.length with hi | hi
    · rw [List.getD_eq_getElem _ _ hi]
      exact h _ (List.getElem_mem hi)
    · rw [List.getD_eq_default _ _ hi]
      decide
  exact ⟨hget 2, hget 3⟩

/-- Where a convolution or a pooling has a result, kernel, stride and extents are at least one along
both axes. Where a transposed convolution has one, so are its kernel, the extents of its data and
those of the result, but not the stride. Two data that a transposed convolution with the same
weight, window and extra places accepts are given the same extent along an axis exactly if the
stride along it is zero or the data have the same extent along it. -/
theorem degenerate_windows (op : String) (window : Window) (groups : Nat) (extra : Nat × Nat)
    (data weight : Shape) :
    (∀ y, conv2d data weight window groups = .ok y →
      BothPos weight.kernel ∧ BothPos window.stride ∧ BothPos y.extents) ∧
    (∀ y, pool2d op data window = .ok y →
      BothPos window.kernel ∧ BothPos window.stride ∧ BothPos y.extents) ∧
    (∀ y, conv2dTranspose data weight window extra = .ok y →
      BothPos weight.kernel ∧ BothPos data.extents ∧ BothPos y.extents) ∧
    ∀ data' y y', conv2dTranspose data weight window extra = .ok y →
      conv2dTranspose data' weight window extra = .ok y' →
      (∀ n ∈ data ++ data' ++ [window.stride.1, window.stride.2], n < wordBound) →
      (y.extents.1 = y'.extents.1 ↔ window.stride.1 = 0 ∨ data.extents.1 = data'.extents.1) ∧
      (y.extents.2 = y'.extents.2 ↔ window.stride.2 = 0 ∨ data.extents.2 = data'.extents.2) := by
  refine ⟨fun y hy => ?_, fun y hy => ?_, fun y hy => ?_, fun data' y y' hy hy' hwords => ?_⟩
  · obtain ⟨_, _, _, _, _, _, _, _, -, -, -, -, hshape⟩ := conv2d_eq_ok_iff.mp hy
    exact Axes.pos_of_shape hshape
  · obtain ⟨_, _, _, _, -, hshape⟩ := pool2d_eq_ok_iff.mp hy
    exact Axes.pos_of_shape hshape
  · obtain ⟨hheight, hwidth⟩ := extents_of_conv2dTranspose hy
    obtain ⟨hsize, hkernel, hpos, -⟩ := Axis.of_transposedExtent hheight
    obtain ⟨hsize', hkernel', hpos', -⟩ := Axis.of_transposedExtent hwidth
    exact ⟨⟨hkernel, hkernel'⟩, ⟨hsize, hsize'⟩, hpos, hpos'⟩
  · obtain ⟨hheight, hwidth⟩ := extents_of_conv2dTranspose hy
    obtain ⟨hheight', hwidth'⟩ := extents_of_conv2dTranspose hy'
    obtain ⟨hdata, hdata'⟩ : (∀ n ∈ data, n < wordBound) ∧ ∀ n ∈ data', n < wordBound :=
      ⟨fun n hn => hwords n (by simp [hn]), fun n hn => hwords n (by simp [hn])⟩
    replace hdata := lt_wordBound_of_extents hdata
    replace hdata' := lt_wordBound_of_extents hdata'
    have hstride : window.stride.1 < wordBound := hwords _ (by simp)
    have hstride' : window.stride.2 < wordBound := hwords _ (by simp)
    exact ⟨Axis.transposedExtent_eq_iff hstride hdata.1 hdata'.1 hheight hheight',
      Axis.transposedExtent_eq_iff hstride' hdata.2 hdata'.2 hwidth hwidth'⟩

/-- A window of three by three that moves by two places down and does not move to the side. -/
def downwardWindow : Window := .dense (3, 3) (2, 0) (1, 1)

theorem degenerate_windows_downward :
    conv2dTranspose [1, 1, 4, 4] [1, 1, 3, 3] downwardWindow (0, 2) = .ok [1, 1, 7, 3] ∧
    conv2dTranspose [1, 1, 4, 9] [1, 1, 3, 3] downwardWindow (0, 2) = .ok [1, 1, 7, 3] ∧
    BothPos (extents [1, 1, 7, 3]) ∧
    ∀ height width n, height < wordBound → width < wordBound →
      conv2dTranspose [1, 1, height, width] [1, 1, 3, 3] downwardWindow (0, 2) =
        .ok [1, 1, 7, n] → height = 4 := by
  have hfour : conv2dTranspose [1, 1, 4, 4] [1, 1, 3, 3] downwardWindow (0, 2) =
      .ok [1, 1, 7, 3] := by cbv
  have hnine : conv2dTranspose [1, 1, 4, 9] [1, 1, 3, 3] downwardWindow (0, 2) =
      .ok [1, 1, 7, 3] := by cbv
  obtain ⟨-, -, hpos, htold⟩ :=
    degenerate_windows "max" downwardWindow 1 (0, 2) [1, 1, 4, 4] [1, 1, 3, 3]
  refine ⟨hfour, hnine, (hpos _ hfour).2.2, fun height width n hheight hwidth hy => ?_⟩
  have hwords : ∀ n ∈ [1, 1, 4, 4] ++ [1, 1, height, width] ++ [2, 0], n < wordBound := by
    simp [hheight, hwidth]
    decide
  rcases (htold _ _ _ hfour hy hwords).1.mp rfl with hstride | hsame
  · cases hstride
  · exact hsame.symm

/-- A transposed convolution with a stride of zero is accepted, and it gives images of different
sizes the same extents. -/
theorem stride_zero_accepted :
    conv2dTranspose [1, 1, 4, 4] [1, 1, 3, 3] (.dense (3, 3) (0, 0) (0, 0)) (0, 0) =
        .ok [1, 1, 3, 3] ∧
      conv2dTranspose [1, 1, 7, 5] [1, 1, 3, 3] (.dense (3, 3) (0, 0) (0, 0)) (0, 0) =
        .ok [1, 1, 3, 3] := by
  constructor <;> cbv

end Shape

end GraphSurvey
