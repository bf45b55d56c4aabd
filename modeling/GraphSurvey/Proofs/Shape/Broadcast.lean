import GraphSurvey.Shape.Rules
import Mathlib

/-!
# Broadcasting as a join

Two shapes are aligned at their last axes. An axis that one of them does not have counts as one of
extent one, and such an axis is stretched to any extent, while all others have to agree. So the
shapes are ordered by what they can be stretched to, and the common shape of two of them is the
least one that both can be stretched to. There is such a shape as soon as there is any that both can
be stretched to.

## Main definitions

* `GraphSurvey.Shape.fromLast` — the extent at a place that is counted from the last axis.
* `GraphSurvey.Shape.BroadcastsInto` — the order of the shapes.
* `GraphSurvey.Shape.IsLeastCommon` — the least shape that two shapes broadcast into.

## Main results

* `GraphSurvey.Shape.broadcast_eq_ok_iff`, `GraphSurvey.Shape.exists_broadcast_iff` — the common
  shape place by place, and when there is one.
* `GraphSurvey.Shape.broadcastsInto_iff` — the order place by place.
* `GraphSurvey.Shape.broadcast_is_partial_join` — broadcasting is the partial join of this order.
-/

namespace GraphSurvey.Shape

/-! ## Extents -/

section Extents

variable {a b c d e : Nat}

/-- The common extent is one of the two, and the other is the same or is stretched. -/
theorem joinExtent_eq_some_iff :
    joinExtent a b = some e ↔ (a = e ∨ a = 1) ∧ (b = e ∨ b = 1) ∧ (e = a ∨ e = b) := by
  rw [joinExtent]
  split_ifs <;> simp only [Option.some.injEq, false_iff] <;> omega

theorem joinExtent_comm (a b : Nat) : joinExtent a b = joinExtent b a := by
  ext e
  rw [joinExtent_eq_some_iff, joinExtent_eq_some_iff]
  tauto

theorem joinExtent_self (a : Nat) : joinExtent a a = some a :=
  joinExtent_eq_some_iff.mpr ⟨.inl rfl, .inl rfl, .inl rfl⟩

theorem joinExtent_one (a : Nat) : joinExtent a 1 = some a :=
  joinExtent_eq_some_iff.mpr ⟨.inl rfl, .inr rfl, .inl rfl⟩

/-- An extent is the common one of itself and another exactly if the other can be stretched to
it. -/
theorem joinExtent_eq_right_iff : joinExtent a e = some e ↔ a = e ∨ a = 1 := by
  rw [joinExtent_eq_some_iff]
  tauto

/-- Three extents have a common one with either grouping, since an extent that is not one is the
common one of all that are not. -/
theorem joinExtent_assoc (h : joinExtent a b = some d) (hd : joinExtent d c = some e) :
    ∃ f, joinExtent b c = some f ∧ joinExtent a f = some e := by
  simp only [joinExtent_eq_some_iff] at h hd ⊢
  by_cases hb : b = 1
  · exact ⟨c, by omega, by omega⟩
  · exact ⟨b, by omega, by omega⟩

end Extents

/-! ## Aligned shapes -/

/-- The extent at a place that is counted from the last axis. Before the first axis it is one. -/
def fromLast (s : Shape) (i : Nat) : Nat := s.reverse.getD i 1

/-- A shape is told by its rank and its extents. -/
theorem eq_of_fromLast {s t : Shape} (hrank : s.length = t.length)
    (h : ∀ i, s.fromLast i = t.fromLast i) : s = t := by
  refine List.reverse_injective (List.ext_getElem (by simpa using hrank) fun i hs ht => ?_)
  simpa only [fromLast, List.getD_eq_getElem _ _ hs, List.getD_eq_getElem _ _ ht] using h i

theorem joinReversed_cons {x y z : Nat} (hz : joinExtent x y = some z) (a b : Shape) :
    joinReversed (x :: a) (y :: b) = (joinReversed a b).map (z :: ·) := by
  rw [joinReversed, hz]

/-- Shapes with their last axes first are joined extent by extent. -/
theorem joinReversed_eq_some {a b s : Shape} (h : joinReversed a b = some s) :
    s.length = max a.length b.length ∧
      ∀ i, joinExtent (a.getD i 1) (b.getD i 1) = some (s.getD i 1) := by
  induction a, b using joinReversed.induct generalizing s with
  | case1 b =>
    obtain rfl : b = s := Option.some.inj h
    exact ⟨by simp, fun i => by rw [joinExtent_comm]; exact joinExtent_one _⟩
  | case2 a ha =>
    obtain ⟨x, a, rfl⟩ := List.exists_cons_of_ne_nil ha
    obtain rfl : x :: a = s := Option.some.inj h
    exact ⟨by simp, fun i => joinExtent_one _⟩
  | case3 x a y b hnone =>
    rw [joinReversed, hnone] at h
    cases h
  | case4 x a y b z hz ih =>
    rw [joinReversed_cons hz] at h
    obtain ⟨s, hs, rfl⟩ := Option.map_eq_some_iff.mp h
    obtain ⟨hlength, hextents⟩ := ih hs
    refine ⟨by simp only [List.length_cons, hlength]; omega, fun i => ?_⟩
    cases i with
    | zero => exact hz
    | succ i => exact hextents i

/-- Shapes whose extents all have a common one are joined. -/
theorem exists_joinReversed {a b : Shape}
    (h : ∀ i, ∃ e, joinExtent (a.getD i 1) (b.getD i 1) = some e) :
    ∃ s, joinReversed a b = some s := by
  induction a, b using joinReversed.induct with
  | case1 b => exact ⟨b, rfl⟩
  | case2 a ha =>
    obtain ⟨x, a, rfl⟩ := List.exists_cons_of_ne_nil ha
    exact ⟨x :: a, rfl⟩
  | case3 x a y b hnone =>
    obtain ⟨e, he⟩ := h 0
    cases hnone.symm.trans he
  | case4 x a y b z hz ih =>
    obtain ⟨s, hs⟩ := ih fun i => h (i + 1)
    exact ⟨z :: s, by rw [joinReversed_cons hz, hs, Option.map_some]⟩

variable {op : String} {a b c s t : Shape}

theorem broadcast_eq_ok : broadcast op a b = .ok s ↔
    joinReversed a.reverse b.reverse = some s.reverse := by
  rw [broadcast]
  cases joinReversed a.reverse b.reverse with
  | none => simp
  | some r => simp [List.reverse_eq_iff]

/-- Shapes have a common shape exactly if they have a common extent at every place. -/
theorem exists_broadcast_iff : (∃ s, broadcast op a b = .ok s) ↔
    ∀ i, ∃ e, joinExtent (a.fromLast i) (b.fromLast i) = some e := by
  constructor
  · rintro ⟨s, hs⟩ i
    exact ⟨_, (joinReversed_eq_some (broadcast_eq_ok.mp hs)).2 i⟩
  · intro h
    obtain ⟨r, hr⟩ := exists_joinReversed h
    exact ⟨r.reverse, broadcast_eq_ok.mpr (by rw [hr, List.reverse_reverse])⟩

theorem extents_of_broadcast (h : broadcast op a b = .ok s) : s.length = max a.length b.length ∧
    ∀ i, joinExtent (a.fromLast i) (b.fromLast i) = some (s.fromLast i) := by
  obtain ⟨hrank, hextents⟩ := joinReversed_eq_some (broadcast_eq_ok.mp h)
  simp only [List.length_reverse] at hrank
  exact ⟨hrank, hextents⟩

/-- The common shape has the greater rank and at every place the common extent. -/
theorem broadcast_eq_ok_iff : broadcast op a b = .ok s ↔ s.length = max a.length b.length ∧
    ∀ i, joinExtent (a.fromLast i) (b.fromLast i) = some (s.fromLast i) := by
  refine ⟨extents_of_broadcast, fun ⟨hrank, hextents⟩ => ?_⟩
  obtain ⟨r, hr⟩ : ∃ r, broadcast op a b = .ok r :=
    exists_broadcast_iff.mpr fun i => ⟨_, hextents i⟩
  obtain ⟨hrank', hextents'⟩ := extents_of_broadcast hr
  obtain rfl : r = s := eq_of_fromLast (hrank'.trans hrank.symm) fun i =>
    Option.some.inj ((hextents' i).symm.trans (hextents i))
  exact hr

/-! ## The order -/

/-- The shape can be stretched to the other, which is then the common shape of the two. The
operation only matters for an error. -/
def BroadcastsInto (a s : Shape) : Prop := ∀ op, broadcast op a s = .ok s

/-- A shape broadcasts into another if it has no more axes and every extent of it is the same or is
stretched. -/
theorem broadcastsInto_iff : a.BroadcastsInto s ↔
    a.length ≤ s.length ∧ ∀ i, a.fromLast i = s.fromLast i ∨ a.fromLast i = 1 := by
  simp only [BroadcastsInto, broadcast_eq_ok_iff, joinExtent_eq_right_iff, forall_const,
    eq_comm (a := s.length), max_eq_right_iff]

theorem BroadcastsInto.antisymm (h : a.BroadcastsInto b) (h' : b.BroadcastsInto a) : a = b := by
  obtain ⟨hrank, hextents⟩ := broadcastsInto_iff.mp h
  obtain ⟨hrank', hextents'⟩ := broadcastsInto_iff.mp h'
  refine eq_of_fromLast (Nat.le_antisymm hrank hrank') fun i => ?_
  rcases hextents i with heq | hone
  · exact heq
  · exact (hextents' i).elim Eq.symm fun hone' => hone.trans hone'.symm

/-- The shape is the least one that both shapes broadcast into. -/
structure IsLeastCommon (a b s : Shape) : Prop where
  left : a.BroadcastsInto s
  right : b.BroadcastsInto s
  least : ∀ t, a.BroadcastsInto t → b.BroadcastsInto t → s.BroadcastsInto t

theorem isLeastCommon_of_broadcast (h : broadcast op a b = .ok s) : IsLeastCommon a b s := by
  obtain ⟨hrank, hextents⟩ := broadcast_eq_ok_iff.mp h
  have hjoin := fun i => joinExtent_eq_some_iff.mp (hextents i)
  refine ⟨broadcastsInto_iff.mpr ⟨by omega, fun i => (hjoin i).1⟩,
    broadcastsInto_iff.mpr ⟨by omega, fun i => (hjoin i).2.1⟩, fun t ha hb => ?_⟩
  obtain ⟨harank, haextents⟩ := broadcastsInto_iff.mp ha
  obtain ⟨hbrank, hbextents⟩ := broadcastsInto_iff.mp hb
  refine broadcastsInto_iff.mpr ⟨by omega, fun i => ?_⟩
  -- the common extent is that of one of the two shapes
  rcases (hjoin i).2.2 with heq | heq
  · rw [heq]
    exact haextents i
  · rw [heq]
    exact hbextents i

/-- Shapes that broadcast into one shape have a common shape. -/
theorem exists_broadcast_of_broadcastsInto (ha : a.BroadcastsInto t) (hb : b.BroadcastsInto t) :
    ∃ s, broadcast op a b = .ok s := by
  refine exists_broadcast_iff.mpr fun i => ?_
  rcases (broadcastsInto_iff.mp ha).2 i with haeq | haone
  · refine ⟨t.fromLast i, ?_⟩
    rw [haeq, joinExtent_comm]
    exact joinExtent_eq_right_iff.mpr ((broadcastsInto_iff.mp hb).2 i)
  · exact ⟨b.fromLast i, joinExtent_eq_right_iff.mpr (.inr haone)⟩

/-! ## Joins -/

theorem broadcast_comm (h : broadcast op a b = .ok s) : broadcast op b a = .ok s := by
  rw [broadcast_eq_ok_iff] at h ⊢
  simpa only [max_comm, joinExtent_comm] using h

theorem broadcast_self (op : String) (a : Shape) : broadcast op a a = .ok a :=
  broadcast_eq_ok_iff.mpr ⟨(max_self _).symm, fun _ => joinExtent_self _⟩

theorem broadcast_nil (op : String) (a : Shape) : broadcast op a [] = .ok a :=
  broadcast_eq_ok_iff.mpr ⟨(Nat.max_zero _).symm, fun _ => joinExtent_one _⟩

theorem broadcast_assoc (h : broadcast op a b = .ok t) (ht : broadcast op t c = .ok s) :
    ∃ u, broadcast op b c = .ok u ∧ broadcast op a u = .ok s := by
  obtain ⟨hrank, hextents⟩ := broadcast_eq_ok_iff.mp h
  obtain ⟨hrank', hextents'⟩ := broadcast_eq_ok_iff.mp ht
  have hassoc := fun i => joinExtent_assoc (hextents i) (hextents' i)
  obtain ⟨u, hu⟩ : ∃ u, broadcast op b c = .ok u :=
    exists_broadcast_iff.mpr fun i => (hassoc i).imp fun _ hf => hf.1
  obtain ⟨hurank, huextents⟩ := broadcast_eq_ok_iff.mp hu
  refine ⟨u, hu, broadcast_eq_ok_iff.mpr ⟨by omega, fun i => ?_⟩⟩
  obtain ⟨f, hf, hs⟩ := hassoc i
  obtain rfl : u.fromLast i = f := Option.some.inj ((huextents i).symm.trans hf)
  exact hs

/-- Broadcasting is the partial join of the order in which shapes broadcast into each other. Two
shapes may be exchanged, and three may be grouped either way: there is a common shape in both cases
or in neither, and it is the same. A shape is the common shape of itself and itself, and of itself
and the empty shape. The common shape of two shapes is the least shape that both broadcast into, and
there is one if there is any shape that both broadcast into. -/
theorem broadcast_is_partial_join (op : String) (a b c : Shape) :
    (∀ s, broadcast op a b = .ok s ↔ broadcast op b a = .ok s) ∧
    broadcast op a a = .ok a ∧
    broadcast op a [] = .ok a ∧
    (∀ s, (∃ t, broadcast op a b = .ok t ∧ broadcast op t c = .ok s) ↔
      ∃ u, broadcast op b c = .ok u ∧ broadcast op a u = .ok s) ∧
    (∀ s, broadcast op a b = .ok s ↔ IsLeastCommon a b s) ∧
    ((∃ s, broadcast op a b = .ok s) ↔ ∃ t, a.BroadcastsInto t ∧ b.BroadcastsInto t) := by
  refine ⟨fun s => ⟨broadcast_comm, broadcast_comm⟩, broadcast_self op a, broadcast_nil op a,
    fun s => ⟨?_, ?_⟩, fun s => ⟨isLeastCommon_of_broadcast, fun h => ?_⟩, ?_, ?_⟩
  · rintro ⟨t, ht, hs⟩
    exact broadcast_assoc ht hs
  · -- the mirror image of the other grouping
    rintro ⟨u, hu, hs⟩
    obtain ⟨t, ht, hs'⟩ := broadcast_assoc (broadcast_comm hu) (broadcast_comm hs)
    exact ⟨t, broadcast_comm ht, broadcast_comm hs'⟩
  · obtain ⟨r, hr⟩ : ∃ r, broadcast op a b = .ok r :=
      exists_broadcast_of_broadcastsInto h.left h.right
    have hleast := isLeastCommon_of_broadcast hr
    have hle : r.BroadcastsInto s := hleast.least s h.left h.right
    obtain rfl : r = s := hle.antisymm (h.least r hleast.left hleast.right)
    exact hr
  · rintro ⟨s, hs⟩
    have hleast := isLeastCommon_of_broadcast hs
    exact ⟨s, hleast.left, hleast.right⟩
  · rintro ⟨t, ha, hb⟩
    exact exists_broadcast_of_broadcastsInto ha hb

example : broadcast "add" [1, 16, 8, 8] [16, 1, 1] = .ok [1, 16, 8, 8] := rfl

end GraphSurvey.Shape
