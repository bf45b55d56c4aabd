import GraphSurvey.Shape.Rules
import Mathlib

/-!
# Concatenations regrouped

A tensor is a pile of slices along an axis, and its shape is that of a slice with their number at
the axis. Tensors are put behind each other if their slices have the same shape, and the result is
the pile of all slices. So it does not matter which of the tensors are put together first, and the
result has as many elements as its parts together.

## Main definitions

* `GraphSurvey.Shape.slice` — the shape of one slice along an axis.

## Main results

* `GraphSurvey.Shape.agreeOff_iff` — shapes agree off an axis if their slices have the same shape.
* `GraphSurvey.Shape.concatenate_eq_ok_iff` — the shape of a concatenation.
* `GraphSurvey.Shape.concatenation_regroups` — concatenations are regrouped and keep the elements.
-/

namespace GraphSurvey.Shape

/-! ## Slices -/

/-- The shape of one slice along an axis. -/
def slice (axis : Nat) (s : Shape) : Shape := s.set axis 1

variable {axis : Nat} {s t first sum : Shape} {parts xs ys : List Shape}

theorem length_eq_of_slice_eq (h : slice axis s = slice axis t) : s.length = t.length := by
  simpa only [slice, List.length_set] using congrArg List.length h

theorem slice_set (s : Shape) (axis n : Nat) : slice axis (s.set axis n) = slice axis s :=
  List.set_set ..

/-- A pile of a number of slices has these slices. -/
theorem set_slice (s : Shape) (axis n : Nat) : (slice axis s).set axis n = s.set axis n :=
  List.set_set ..

theorem getD_set_self (h : axis < s.length) (n : Nat) : (s.set axis n).getD axis 0 = n := by
  rw [List.getD_eq_getElem _ _ (by rwa [List.length_set]), List.getElem_set_self]

theorem set_getD_self (s : Shape) (axis : Nat) : s.set axis (s.getD axis 0) = s := by
  rcases Nat.lt_or_ge axis s.length with h | h
  · rw [List.getD_eq_getElem _ _ h, List.set_getElem_self]
  · exact List.set_eq_of_length_le h

/-- A shape is told by its slice and their number. -/
theorem eq_set_of_slice_eq (h : slice axis s = slice axis t) :
    s = t.set axis (s.getD axis 0) := by
  calc s = (slice axis s).set axis (s.getD axis 0) := by rw [set_slice, set_getD_self]
    _ = t.set axis (s.getD axis 0) := by rw [h, set_slice]

/-- Shapes agree off an axis exactly if their slices along it have the same shape. -/
theorem agreeOff_iff : agreeOff axis s t = true ↔ slice axis s = slice axis t := by
  simp only [agreeOff, Bool.and_eq_true, decide_eq_true_eq, List.all_eq_true, Bool.or_eq_true,
    Prod.forall, List.mem_zipIdx_iff_getElem?, List.getElem?_zip_eq_some]
  constructor
  · rintro ⟨hlength, hagree⟩
    refine List.ext_getElem (by simpa [slice] using hlength) fun i hs ht => ?_
    simp only [slice, List.length_set] at hs ht
    simp only [slice, List.getElem_set]
    split
    case isTrue => rfl
    case isFalse hne =>
      have hor := hagree _ _ i ⟨List.getElem?_eq_getElem hs, List.getElem?_eq_getElem ht⟩
      exact hor.resolve_left (Ne.symm hne)
  · intro h
    refine ⟨length_eq_of_slice_eq h, fun m n i ⟨hm, hn⟩ => ?_⟩
    by_cases hi : i = axis
    · exact .inl hi
    · have heq : s[i]? = t[i]? := by
        simpa only [slice, List.getElem?_set_ne (Ne.symm hi)] using congrArg (fun r => r[i]?) h
      exact .inr (Option.some.inj (hm.symm.trans (heq.trans hn)))

/-- A tensor has as many elements as its slices together. -/
theorem size_eq_mul_slice : ∀ {s : Shape} {axis : Nat}, axis < s.length →
    size s = s.getD axis 0 * size (slice axis s)
  | n :: s, 0, _ => by simp [slice, size]
  | n :: s, axis + 1, h => by
    have ih : size s = s.getD axis 0 * size (slice axis s) :=
      size_eq_mul_slice (Nat.lt_of_succ_lt_succ h)
    calc n * size s = n * (s.getD axis 0 * size (slice axis s)) := by rw [ih]
      _ = s.getD axis 0 * (n * size (slice axis s)) := Nat.mul_left_comm ..

/-! ## Piles of slices -/

/-- Further shapes are put behind the first one if they have the same slices, and add as many as
they have. -/
theorem concatenateFrom_eq_ok_iff (h : axis < sum.length) :
    concatenateFrom first axis sum parts = .ok s ↔
      (∀ p ∈ parts, slice axis p = slice axis first) ∧
      s = sum.set axis (sum.getD axis 0 + (parts.map (·.getD axis 0)).sum) := by
  induction parts generalizing sum with
  | nil =>
    simp only [concatenateFrom, Except.ok.injEq, List.map_nil, List.sum_nil, Nat.add_zero,
      set_getD_self, List.not_mem_nil, false_imp_iff, implies_true, true_and, eq_comm]
  | cons p rest ih =>
    rw [concatenateFrom]
    by_cases hagree : slice axis p = slice axis first
    · rw [if_pos (agreeOff_iff.mpr hagree), ih (by rwa [List.length_set]), List.set_set,
        getD_set_self h, List.forall_mem_cons, List.map_cons, List.sum_cons, Nat.add_assoc]
      simp only [hagree, true_and]
    · rw [if_neg (mt agreeOff_iff.mp hagree)]
      simp only [reduceCtorEq, List.forall_mem_cons, hagree, false_and]

/-- Shapes are concatenated to a shape if there are any, they all have its slices along one of its
axes, and together as many as it has. -/
theorem concatenate_eq_ok_iff : concatenate parts axis = .ok s ↔
    parts ≠ [] ∧ axis < s.length ∧ (∀ p ∈ parts, slice axis p = slice axis s) ∧
      s.getD axis 0 = (parts.map (·.getD axis 0)).sum := by
  cases parts with
  | nil => simp [concatenate]
  | cons first rest =>
    rw [concatenate]
    constructor
    · intro h
      split at h
      case isFalse => cases h
      case isTrue haxis =>
        obtain ⟨hslices, rfl⟩ := (concatenateFrom_eq_ok_iff haxis).mp h
        refine ⟨List.cons_ne_nil _ _, by rwa [List.length_set], ?_, getD_set_self haxis _⟩
        simpa only [List.forall_mem_cons, slice_set, true_and] using hslices
    · rintro ⟨-, haxis, hslices, hsum⟩
      obtain ⟨hfirst, hrest⟩ := List.forall_mem_cons.mp hslices
      rw [← length_eq_of_slice_eq hfirst] at haxis
      rw [if_pos haxis, concatenateFrom_eq_ok_iff haxis]
      refine ⟨fun p hp => (hrest p hp).trans hfirst.symm, ?_⟩
      rw [eq_set_of_slice_eq hfirst.symm, hsum, List.map_cons, List.sum_cons]

/-- Shapes with slices of a given shape are concatenated to a shape with these slices. -/
theorem concatenate_of_slices (hparts : parts ≠ []) (haxis : axis < s.length)
    (hslices : ∀ p ∈ parts, slice axis p = slice axis s) :
    concatenate parts axis = .ok (s.set axis (parts.map (·.getD axis 0)).sum) := by
  refine concatenate_eq_ok_iff.mpr ⟨hparts, by rwa [List.length_set], ?_, getD_set_self haxis _⟩
  simpa only [slice_set] using hslices

/-- The concatenation has as many elements as its parts together. -/
theorem size_concatenate (h : concatenate parts axis = .ok s) :
    size s = (parts.map size).sum := by
  obtain ⟨-, haxis, hslices, hsum⟩ := concatenate_eq_ok_iff.mp h
  have hsize : ∀ p ∈ parts, size p = p.getD axis 0 * size (slice axis s) := fun p hp => by
    have hlength := length_eq_of_slice_eq (hslices p hp)
    rw [size_eq_mul_slice (by rwa [hlength]), hslices p hp]
  calc size s = (parts.map (·.getD axis 0)).sum * size (slice axis s) := by
        rw [size_eq_mul_slice haxis, hsum]
    _ = (parts.map fun p => p.getD axis 0 * size (slice axis s)).sum :=
        (List.sum_map_mul_right ..).symm
    _ = (parts.map size).sum := by rw [List.map_congr_left hsize]

/-- A concatenation may be done in two groups, each of which is concatenated first: it has a result
exactly if both groups have one and so have their results, and it is the same. Each result has as
many elements as its parts together. -/
theorem concatenation_regroups (xs ys : List Shape) (hxs : xs ≠ []) (hys : ys ≠ []) (axis : Nat) :
    (∀ s, concatenate (xs ++ ys) axis = .ok s ↔ ∃ a b, concatenate xs axis = .ok a ∧
      concatenate ys axis = .ok b ∧ concatenate [a, b] axis = .ok s) ∧
    ∀ parts s, concatenate parts axis = .ok s → size s = (parts.map size).sum := by
  refine ⟨fun s => ⟨fun h => ?_, ?_⟩, fun parts s => size_concatenate⟩
  · obtain ⟨-, haxis, hslices, hsum⟩ := concatenate_eq_ok_iff.mp h
    obtain ⟨hxslices, hyslices⟩ := List.forall_mem_append.mp hslices
    refine ⟨_, _, concatenate_of_slices hxs haxis hxslices,
      concatenate_of_slices hys haxis hyslices,
      concatenate_eq_ok_iff.mpr ⟨List.cons_ne_nil _ _, haxis, by simp [slice_set], ?_⟩⟩
    simp only [List.map_cons, List.map_nil, List.sum_cons, List.sum_nil, getD_set_self haxis]
    rw [hsum, List.map_append, List.sum_append, Nat.add_zero]
  · rintro ⟨a, b, ha, hb, h⟩
    obtain ⟨-, -, haslices, hasum⟩ := concatenate_eq_ok_iff.mp ha
    obtain ⟨-, -, hbslices, hbsum⟩ := concatenate_eq_ok_iff.mp hb
    obtain ⟨-, haxis, hslices, hsum⟩ := concatenate_eq_ok_iff.mp h
    refine concatenate_eq_ok_iff.mpr ⟨by simp [hxs], haxis, List.forall_mem_append.mpr ⟨?_, ?_⟩, ?_⟩
    · exact fun p hp => (haslices p hp).trans (hslices a (by simp))
    · exact fun p hp => (hbslices p hp).trans (hslices b (by simp))
    · rw [hsum, List.map_append, List.sum_append, ← hasum, ← hbsum]
      simp

theorem concatenation_regroups_pairs :
    concatenate [[1, 2, 4], [1, 3, 4]] 1 = .ok [1, 5, 4] ∧
    concatenate [[1, 0, 4], [1, 1, 4]] 1 = .ok [1, 1, 4] ∧
    concatenate [[1, 5, 4], [1, 1, 4]] 1 = .ok [1, 6, 4] ∧
    concatenate [[1, 2, 4], [1, 3, 4], [1, 0, 4], [1, 1, 4]] 1 = .ok [1, 6, 4] ∧
    size [1, 6, 4] = 8 + 12 + 0 + 4 ∧
    ∀ s, concatenate [[1, 2, 4], [1, 3, 4], [1, 3, 5]] 1 ≠ .ok s := by
  obtain ⟨hgroups, hsize⟩ := concatenation_regroups [[1, 2, 4], [1, 3, 4]]
    [[1, 0, 4], [1, 1, 4]] (by decide) (by decide) 1
  obtain ⟨hmixed, -⟩ := concatenation_regroups [[1, 2, 4], [1, 3, 4]] [[1, 3, 5]] (by decide)
    (by decide) 1
  have hall := (hgroups [1, 6, 4]).mpr ⟨[1, 5, 4], [1, 1, 4], rfl, rfl, rfl⟩
  refine ⟨rfl, rfl, rfl, hall, hsize _ _ hall, fun s hs => ?_⟩
  obtain ⟨a, b, ha, hb, h⟩ := (hmixed s).mp hs
  obtain rfl := Except.ok.inj ha
  obtain rfl := Except.ok.inj hb
  cases h

end GraphSurvey.Shape
