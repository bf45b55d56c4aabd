import GraphSurvey.Proofs.Shape.Window
import Mathlib

/-!
# Convolutions and transposed convolutions

A transposed convolution spreads an axis by the stride, and a convolution of the same weight and
window takes it back. The places that the strides of the convolution leave over at the end of the
axis are the extra places that are asked of the transposed one. So the convolution takes back what
was spread if fewer places than a stride are extra, and what a convolution takes together is spread
to its old extent with the places that were left over.

## Main definitions

* `GraphSurvey.Axis.InWords` — the extent of a transposed convolution is computed within words.
* `GraphSurvey.Axis.leftOver` — the places that the strides along an axis leave over.

## Main results

* `GraphSurvey.Axis.transposedExtent_eq_ok_iff` — extents of transposed convolutions.
* `GraphSurvey.Shape.conv2dTranspose_eq_ok_iff` — shapes of transposed convolutions.
* `GraphSurvey.Shape.transposition_inverts` — each of the two takes the other back.
-/

namespace GraphSurvey

namespace Axis

/-- The extent of a transposed convolution along the axis. -/
def transposedExtent (a : Axis) (extra : Nat) : Except BuildError Nat :=
  Window.transposedExtent a.size a.kernel a.stride a.padding a.dilation extra

/-- The places that the window covers when it is placed at every place of the axis, spread by the
stride, with some extra ones. -/
def spread (a : Axis) (extra : Nat) : Nat :=
  (a.size - 1) * a.stride + a.dilation * (a.kernel - 1) + extra + 1

/-- The numbers that the extent of a transposed convolution is computed from are integers of a
word. -/
structure InWords (a : Axis) (extra : Nat) : Prop where
  spread : a.spread extra < signedBound
  padding : 2 * a.padding < signedBound

/-- The places of the padded axis behind the last placement of the window. -/
def leftOver (a : Axis) : Nat :=
  (a.size + 2 * a.padding - ((a.kernel - 1) * a.dilation + 1)) % a.stride

/-- The axis with another size. -/
def resized (a : Axis) (size : Nat) : Axis := { a with size := size }

variable {a : Axis} {op : String} {extra n : Nat}

theorem spread_eq (a : Axis) (extra : Nat) :
    a.spread extra = (a.size - 1) * a.stride + Window.span a.kernel a.dilation + extra := by
  rw [spread, Window.span, Nat.mul_comm a.dilation]
  omega

/-- A product of words that is an integer of a word is computed as one. -/
theorem signedWord_pred_mul {m k : Nat} (hm : 0 < m) (h : (m - 1) * k + 1 < signedBound) :
    (signedWord m - 1) * signedWord k = ((m - 1) * k : Nat) := by
  rcases Nat.eq_zero_or_pos k with rfl | hk
  · simp [signedWord]
  rcases Nat.lt_or_ge 1 m with hm1 | hm1
  · -- both factors are at most the product
    have hleft : (m - 1) * 1 ≤ (m - 1) * k := Nat.mul_le_mul_left _ hk
    have hright : 1 * k ≤ (m - 1) * k := Nat.mul_le_mul_right _ (by omega)
    rw [signedWord_of_lt (by omega), signedWord_of_lt (by omega)]
    push_cast [Nat.cast_sub hm]
    rfl
  · obtain rfl : m = 1 := by omega
    have hone : signedWord 1 = 1 := signedWord_of_lt (by decide)
    simp [hone]

/-- Within words, the extent of a transposed convolution is that of what is spread without the
padding. -/
theorem transposedExtent_eq_ok_iff (h : a.InWords extra) : a.transposedExtent extra = .ok n ↔
    0 < a.size ∧ 0 < a.kernel ∧ 0 < n ∧ n + 2 * a.padding = a.spread extra := by
  obtain ⟨hspread, hpadding⟩ := h
  rw [transposedExtent, Window.transposedExtent]
  rcases Nat.eq_zero_or_pos a.size with hsize | hsize
  · simp [hsize]
  have hfull : (signedWord a.size - 1) * signedWord a.stride +
      signedWord (a.dilation * (a.kernel - 1)) + signedWord extra + 1 = (a.spread extra : Int) := by
    rw [spread] at hspread ⊢
    rw [signedWord_pred_mul hsize (by omega), signedWord_of_lt (by omega),
      signedWord_of_lt (by omega)]
    push_cast
    rfl
  simp only [hfull, signedWord_of_lt (show a.padding < signedBound by omega)]
  split
  case isTrue hlarge =>
    simp only [reduceCtorEq, false_iff]
    rintro ⟨-, hkernel, hn, heq⟩
    omega
  case isFalse hfits =>
    rw [Except.ok.injEq]
    omega

/-- A convolution takes a spread axis back if fewer places than a stride are extra. -/
theorem extent_resized_iff (h : a.InWords extra) (hn : a.transposedExtent extra = .ok n) :
    (a.resized n).extent op = .ok a.size ↔ extra < a.stride := by
  obtain ⟨hsize, hkernel, -, hpadded⟩ := (transposedExtent_eq_ok_iff h).mp hn
  rw [spread_eq] at hpadded
  rw [extent_eq_ok_iff]
  constructor
  · rintro ⟨-, -, rest, hrest, heq⟩
    obtain rfl : extra = rest := Nat.add_left_cancel (hpadded.symm.trans heq)
    exact hrest
  · exact fun hextra => ⟨hkernel, hsize, extra, hextra, hpadded⟩

/-- The places behind the last placement are those that the extent does not account for. -/
theorem padded_eq_spread (hn : a.extent op = .ok n) :
    a.padded = (a.resized n).spread a.leftOver := by
  obtain ⟨-, hpos, rest, hrest, hpadded⟩ := extent_eq_ok_iff.mp hn
  have hleft : a.leftOver = rest := by
    have hover : a.size + 2 * a.padding - ((a.kernel - 1) * a.dilation + 1) =
        rest + (n - 1) * a.stride := by
      rw [padded, Window.span] at hpadded
      omega
    rw [leftOver, hover, Nat.add_mul_mod_self_right, Nat.mod_eq_of_lt hrest]
  rw [hleft, spread_eq]
  exact hpadded

/-- A transposed convolution spreads an axis to its old size with the places left over. -/
theorem transposedExtent_resized (hsize : 0 < a.size) (hwords : a.padded < signedBound)
    (hn : a.extent op = .ok n) : (a.resized n).transposedExtent a.leftOver = .ok a.size := by
  have hspread := padded_eq_spread hn
  have hin : (a.resized n).InWords a.leftOver := by
    refine ⟨hspread ▸ hwords, lt_of_le_of_lt ?_ hwords⟩
    exact Nat.le_add_left _ _
  obtain ⟨hkernel, hpos, -⟩ := extent_eq_ok_iff.mp hn
  exact (transposedExtent_eq_ok_iff hin).mpr ⟨hpos, hkernel, hsize, hspread⟩

end Axis

namespace Shape

variable {data weight y : Shape} {window : Window} {extra : Nat × Nat}

/-- A transposed convolution has a result if data and weight are images, the channels are those of
the weight, and there are extents along both axes. -/
theorem conv2dTranspose_eq_ok_iff : conv2dTranspose data weight window extra = .ok y ↔
    ∃ batch channels height width outputs kernelHeight kernelWidth,
      data = [batch, channels, height, width] ∧
      weight = [channels, outputs, kernelHeight, kernelWidth] ∧
      ofExtents batch outputs ((window.axes data weight.kernel).vertical.transposedExtent extra.1)
        ((window.axes data weight.kernel).horizontal.transposedExtent extra.2) = .ok y := by
  constructor
  · intro h
    unfold conv2dTranspose at h
    split at h
    case h_1 batch channels height width inputs outputs kernelHeight kernelWidth =>
      split at h
      case isTrue => cases h
      case isFalse hchannels =>
        obtain rfl := not_not.mp hchannels
        exact ⟨batch, channels, height, width, outputs, kernelHeight, kernelWidth, rfl, rfl, h⟩
    case h_2 => cases h
    case h_3 => cases h
  · rintro ⟨batch, channels, height, width, outputs, kernelHeight, kernelWidth, rfl, rfl, h⟩
    rw [conv2dTranspose, if_neg (not_not_intro rfl)]
    exact h

/-- Convolutions and transposed convolutions take each other back, as long as the extents are
computed within words. What a transposed convolution gives has the convolution of the data exactly
if fewer places than the stride are extra along both axes. What a convolution of data that are not
empty gives has the transposed convolution of the data, with the places that were left over. -/
theorem transposition_inverts (data weight : Shape) (window : Window) :
    (∀ (extra : Nat × Nat) (y : Shape),
      (window.axes data weight.kernel).vertical.InWords extra.1 →
      (window.axes data weight.kernel).horizontal.InWords extra.2 →
      conv2dTranspose data weight window extra = .ok y →
      (conv2d y weight window 1 = .ok data ↔
        extra.1 < window.stride.1 ∧ extra.2 < window.stride.2)) ∧
    ∀ y : Shape, 0 < data.getD 2 0 → 0 < data.getD 3 0 →
      (window.axes data weight.kernel).vertical.padded < signedBound →
      (window.axes data weight.kernel).horizontal.padded < signedBound →
      conv2d data weight window 1 = .ok y →
      conv2dTranspose y weight window
        ((window.axes data weight.kernel).vertical.leftOver,
          (window.axes data weight.kernel).horizontal.leftOver) = .ok data := by
  constructor
  · intro extra y hvertical hhorizontal hy
    obtain ⟨batch, channels, height, width, outputs, kernelHeight, kernelWidth, rfl, rfl, hshape⟩ :=
      conv2dTranspose_eq_ok_iff.mp hy
    obtain ⟨h, w, hh, hw, rfl⟩ := ofExtents_eq_ok_iff.mp hshape
    rw [conv2d_eq one_ne_zero (Nat.mul_one outputs).symm, Axes.shape, ofExtents_eq_ok_extents_iff]
    exact and_congr (Axis.extent_resized_iff hvertical hh) (Axis.extent_resized_iff hhorizontal hw)
  · intro y hheight hwidth hvertical hhorizontal hy
    obtain ⟨batch, channels, height, width, outputs, perGroup, kernelHeight, kernelWidth, rfl, rfl,
      -, hchannels, hshape⟩ := conv2d_eq_ok_iff.mp hy
    obtain rfl : channels = perGroup := hchannels.trans (Nat.mul_one perGroup)
    obtain ⟨h, w, hh, hw, rfl⟩ := ofExtents_eq_ok_iff.mp hshape
    refine conv2dTranspose_eq_ok_iff.mpr ⟨batch, outputs, h, w, channels, kernelHeight, kernelWidth,
      rfl, rfl, ofExtents_eq_ok_extents_iff.mpr ⟨?_, ?_⟩⟩
    · exact Axis.transposedExtent_resized hheight hvertical hh
    · exact Axis.transposedExtent_resized hwidth hhorizontal hw

/-- A window that moves by two places. -/
def doublingWindow : Window := .dense (4, 4) (2, 2) (1, 1)

theorem transposition_inverts_doubling :
    conv2dTranspose [1, 128, 8, 8] [128, 64, 4, 4] doublingWindow (1, 0) = .ok [1, 64, 17, 16] ∧
    conv2d [1, 64, 17, 16] [128, 64, 4, 4] doublingWindow 1 = .ok [1, 128, 8, 8] ∧
    conv2dTranspose [1, 128, 8, 8] [128, 64, 4, 4] doublingWindow (2, 0) = .ok [1, 64, 18, 16] ∧
    conv2d [1, 64, 18, 16] [128, 64, 4, 4] doublingWindow 1 ≠ .ok [1, 128, 8, 8] ∧
    conv2d [1, 64, 17, 18] [128, 64, 4, 4] doublingWindow 1 = .ok [1, 128, 8, 9] ∧
    conv2dTranspose [1, 128, 8, 9] [128, 64, 4, 4] doublingWindow (1, 0) =
      .ok [1, 64, 17, 18] := by
  have hspread : conv2dTranspose [1, 128, 8, 8] [128, 64, 4, 4] doublingWindow (1, 0) =
      .ok [1, 64, 17, 16] := by cbv
  have hspreadMore : conv2dTranspose [1, 128, 8, 8] [128, 64, 4, 4] doublingWindow (2, 0) =
      .ok [1, 64, 18, 16] := by cbv
  obtain ⟨htransposed, -⟩ := transposition_inverts [1, 128, 8, 8] [128, 64, 4, 4] doublingWindow
  obtain ⟨-, hconv⟩ := transposition_inverts [1, 64, 17, 18] [128, 64, 4, 4] doublingWindow
  have hback := htransposed (1, 0) _ ⟨by decide, by decide⟩ ⟨by decide, by decide⟩ hspread
  have hnot := htransposed (2, 0) _ ⟨by decide, by decide⟩ ⟨by decide, by decide⟩ hspreadMore
  exact ⟨hspread, hback.mpr (by decide), hspreadMore, mt hnot.mp (by decide), rfl,
    hconv [1, 128, 8, 9] (by decide) (by decide) (by decide) (by decide) rfl⟩

end Shape

end GraphSurvey
