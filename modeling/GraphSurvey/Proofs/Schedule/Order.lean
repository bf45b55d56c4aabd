import GraphSurvey.Pass.Standard
import GraphSurvey.Pipeline.Run
import GraphSurvey.Proofs.Schedule.Release
import Mathlib

/-!
# The order of a pipeline

A list of passes is accepted exactly when it can be put into an order. The pipeline then has each
pass once and after the passes that it depends on, and of all such orders it has the first in the
order of words over the positions in the list. So a list that is in order already is kept, and a
pass is moved behind a later one only for the sake of what it depends on.

## Main definitions

* `GraphSurvey.Schedule.OwnersFirst` — every pass stands after those that it depends on.

## Main results

* `GraphSurvey.Schedule.order_eq_ok_iff` — which passes are accepted.
* `GraphSurvey.Schedule.order_least` — the order is the first of its kind.
* `GraphSurvey.Pipeline.ofPasses_least` — the order of a pipeline.
-/

open Relation

namespace GraphSurvey

namespace Schedule

variable {n m : Nat} {passes : Fin n → Access} {l : List (Fin n)}

/-- Every pass of the list stands after those that it depends on. -/
def OwnersFirst (passes : Fin n → Access) (l : List (Fin n)) : Prop :=
  ∀ before i after, l = before ++ i :: after → ∀ o, DependsOn passes i o → o ∈ before

/-! ## Accepted passes -/

theorem waits_edges (h : ((declared passes).map Prod.fst).Nodup) :
    Waits (edges passes) = DependsOn passes := by
  funext i o
  exact propext (mem_edges_iff h)

theorem not_waits_self (h : ((declared passes).map Prod.fst).Nodup) (i : Fin n) :
    ¬ Waits (edges passes) i i := by
  rw [waits_edges h]
  exact fun hself => hself.1 rfl

/-- Passes are accepted exactly when they can be put into an order. -/
theorem order_eq_ok_iff :
    order passes = .ok l ↔
      Orderable passes ∧ release (edges passes) (.start (edges passes)) = l := by
  rw [order]
  split
  case h_1 hrepeated =>
    refine iff_of_false (by simp) fun ⟨h, _⟩ => ?_
    exact absurd ((repeatedField?_eq_none_iff.mpr h.once).symm.trans hrepeated) (by simp)
  case h_2 hrepeated =>
    have honce := repeatedField?_eq_none_iff.mp hrepeated
    split
    case h_1 hunmet =>
      refine iff_of_false (by simp) fun ⟨h, _⟩ => ?_
      exact absurd ((unmetRead?_eq_none_iff.mpr h.met).symm.trans hunmet) (by simp)
    case h_2 hunmet =>
      have hmet := unmetRead?_eq_none_iff.mp hunmet
      have hcycle := onCycle?_eq_none_iff (not_waits_self honce)
      rw [waits_edges honce] at hcycle
      split
      case h_1 hfound =>
        refine iff_of_false (by simp) fun ⟨h, _⟩ => ?_
        exact absurd ((hcycle.mpr h.acyclic).symm.trans hfound) (by simp)
      case h_2 hfound =>
        rw [Except.ok.injEq]
        exact ⟨fun h => ⟨⟨honce, hmet, hcycle.mp hfound⟩, h⟩, fun h => h.2⟩

/-! ## The order of accepted passes -/

section Accepted

variable (h : order passes = .ok l)

include h

theorem orderable_of_order : Orderable passes := (order_eq_ok_iff.mp h).1

theorem acyclic_edges (i : Fin n) : ¬ TransGen (Waits (edges passes)) i i := by
  rw [waits_edges (orderable_of_order h).once]
  exact (orderable_of_order h).acyclic i

theorem greedy_of_order : Greedy (edges passes) [] l := by
  obtain ⟨hpasses, rfl⟩ := order_eq_ok_iff.mp h
  exact greedy_release (fits_start _) (edges_nodup passes) (not_waits_self hpasses.once)

/-- The order of accepted passes has no pass twice. -/
theorem nodup_of_order : l.Nodup := (readyOrder_iff.mp (greedy_of_order h).readyOrder).1

/-- The order of accepted passes has every pass. -/
theorem mem_of_order (i : Fin n) : i ∈ l :=
  ((greedy_of_order h).complete (acyclic_edges h) i).resolve_left List.not_mem_nil

theorem perm_of_order : l.Perm (List.finRange n) :=
  (List.perm_ext_iff_of_nodup (nodup_of_order h) (List.nodup_finRange n)).mpr fun i =>
    iff_of_true (mem_of_order h i) (List.mem_finRange i)

theorem readyOrder_iff_ownersFirst {l' : List (Fin n)} (hnodup : l'.Nodup) :
    ReadyOrder (edges passes) [] l' ↔ OwnersFirst passes l' := by
  rw [readyOrder_iff, OwnersFirst, waits_edges (orderable_of_order h).once]
  simp [hnodup]

theorem ownersFirst_of_order : OwnersFirst passes l :=
  (readyOrder_iff_ownersFirst h (nodup_of_order h)).mp (greedy_of_order h).readyOrder

/-- No other order of the passes in which owners come first comes before theirs. -/
theorem order_least {l' : List (Fin n)} (hperm : l'.Perm (List.finRange n))
    (hfirst : OwnersFirst passes l') : l = l' ∨ List.Lex (· < ·) l l' := by
  have hnodup : l'.Nodup := hperm.nodup_iff.mpr (List.nodup_finRange n)
  have hlength : l'.length = l.length := (hperm.trans (perm_of_order h).symm).length_eq
  exact (greedy_of_order h).least ((readyOrder_iff_ownersFirst h hnodup).mpr hfirst) hlength

/-- Passes that are in order already are kept. -/
theorem order_eq_finRange (hfirst : OwnersFirst passes (List.finRange n)) :
    l = List.finRange n := by
  have hready := (readyOrder_iff_ownersFirst h (List.nodup_finRange n)).mpr hfirst
  exact (greedy_of_order h).eq
    (hready.greedy_of_sorted (List.pairwise_lt_finRange n) fun i => .inr (List.mem_finRange i))

/-- A pass stands behind a later one only if it depends, perhaps through others, on a pass that is
no earlier than that. -/
theorem exists_dependsOn_of_behind {i j : Fin n} {before after : List (Fin n)}
    (heq : l = before ++ j :: after) (hi : i ∉ before) (hij : i < j) :
    ∃ k, j ≤ k ∧ TransGen (DependsOn passes) i k := by
  have hgreedy := greedy_of_order h
  rw [heq] at hgreedy
  rw [← waits_edges (orderable_of_order h).once]
  exact hgreedy.exists_waits (acyclic_edges h) List.not_mem_nil hi hij

end Accepted

/-! ## Passes in other positions -/

section Positions

variable {σ : Fin m → Fin n}

theorem DependsOn.of_comp {i o : Fin m} (hσ : Function.Injective σ)
    (h : DependsOn (passes ∘ σ) i o) : DependsOn passes (σ i) (σ o) :=
  ⟨fun heq => h.1 (hσ heq), h.2⟩

/-- Passes that can be put into an order can be put into it from any positions. -/
theorem Orderable.comp (h : Orderable passes) (hσ : Function.Bijective σ) :
    Orderable (passes ∘ σ) where
  once := by
    have hdeclared {k : Nat} (passes : Fin k → Access) :
        (declared passes).map Prod.fst =
          (List.finRange k).flatMap fun i => (passes i).writes.map FieldDecl.name := by
      rw [declared, List.map_flatMap]
      simp only [List.map_map]
      rfl
    have hperm : ((List.finRange m).map σ).Perm (List.finRange n) :=
      (List.perm_ext_iff_of_nodup ((List.nodup_finRange m).map hσ.1) (List.nodup_finRange n)).mpr
        fun i => iff_of_true (by
          obtain ⟨k, rfl⟩ := hσ.2 i
          exact List.mem_map_of_mem (List.mem_finRange k)) (List.mem_finRange i)
    have honce := h.once
    rw [hdeclared] at honce ⊢
    have hflat := (hperm.flatMap_right fun i => (passes i).writes.map FieldDecl.name)
    rw [List.flatMap_map] at hflat
    exact hflat.nodup_iff.mpr honce
  met i field hfield := by
    obtain ⟨o, ho⟩ := h.met (σ i) field hfield
    obtain ⟨k, rfl⟩ := hσ.2 o
    exact ⟨k, ho⟩
  acyclic i hcycle := h.acyclic (σ i) (hcycle.lift σ fun _ _ => DependsOn.of_comp hσ.1)

end Positions

theorem mem_before_finRange_iff {before after : List (Fin n)} {i o : Fin n}
    (heq : List.finRange n = before ++ i :: after) : o ∈ before ↔ o < i := by
  have hsorted := List.pairwise_lt_finRange n
  rw [heq, List.pairwise_append, List.pairwise_cons] at hsorted
  obtain ⟨-, ⟨hafter, -⟩, hbefore⟩ := hsorted
  refine ⟨fun ho => hbefore o ho i List.mem_cons_self, fun hlt => ?_⟩
  have hmem : o ∈ before ++ i :: after := heq ▸ List.mem_finRange o
  rcases List.mem_append.mp hmem with hmem | hmem
  · exact hmem
  · rcases List.mem_cons.mp hmem with rfl | hmem
    · exact absurd hlt (lt_irrefl _)
    · exact absurd (hafter o hmem) hlt.asymm

/-- Passes are in order as they stand when every pass depends on earlier ones only. -/
theorem ownersFirst_finRange (h : ∀ i o, DependsOn passes i o → o < i) :
    OwnersFirst passes (List.finRange n) :=
  fun _ _ _ heq _ ho => (mem_before_finRange_iff heq).mpr (h _ _ ho)

/-- In an order in which owners come first, what a pass depends on has a smaller index. -/
theorem OwnersFirst.lt_of_dependsOn (h : OwnersFirst passes l) (hnodup : l.Nodup) {k k' : Nat}
    (hk : k < l.length) (hk' : k' < l.length) (hdep : DependsOn passes l[k] l[k']) : k' < k := by
  have hsplit : l = l.take k ++ l[k] :: l.drop (k + 1) := by
    rw [List.getElem_cons_drop, List.take_append_drop]
  obtain ⟨k'', hlt, heq⟩ := List.mem_take_iff_getElem.mp (h _ _ _ hsplit _ hdep)
  have hsame : k'' = k' := (List.Nodup.getElem_inj_iff hnodup).mp heq
  omega

end Schedule

namespace Pipeline

open Schedule

theorem takeSlots_eq_map {n : Nat} {slots : Fin n → Option Pass} {f : Fin n → Pass}
    {order : List (Fin n)} (hnodup : order.Nodup) (hslots : ∀ i ∈ order, slots i = some (f i)) :
    takeSlots slots order = order.map f := by
  induction order generalizing slots with
  | nil => rfl
  | cons i rest ih =>
    obtain ⟨hi, hrest⟩ := List.nodup_cons.mp hnodup
    rw [takeSlots, hslots i List.mem_cons_self]
    refine congrArg (f i :: ·) (ih hrest fun j hj => ?_)
    have hne : j ≠ i := by
      rintro rfl
      exact hi hj
    rw [if_neg hne, hslots j (List.mem_cons_of_mem _ hj)]

/-- A pipeline has the passes of the list in their order, and none is lost from its slot. -/
theorem ofPasses_eq_ok_iff {passes : List Pass} {p : Pipeline} :
    ofPasses passes = .ok p ↔
      ∃ order, Schedule.order (accesses passes) = .ok order ∧
        p.passes = order.map passes.get := by
  rw [ofPasses]
  split
  case h_1 order horder =>
    rw [takeSlots_eq_map (nodup_of_order horder) fun _ _ => rfl]
    constructor
    · rintro ⟨⟩
      exact ⟨order, horder, rfl⟩
    · rintro ⟨order', horder', hpasses⟩
      cases horder.symm.trans horder'
      rw [← hpasses]
  case h_2 e he =>
    refine iff_of_false (by simp) ?_
    rintro ⟨order, horder, -⟩
    exact absurd (he.symm.trans horder) (by simp)

/-- A pipeline has the passes of the list. -/
theorem perm_passes {passes : List Pass} {p : Pipeline} (h : ofPasses passes = .ok p) :
    p.passes.Perm passes := by
  obtain ⟨order, horder, hpasses⟩ := ofPasses_eq_ok_iff.mp h
  have hperm := (perm_of_order horder).map passes.get
  rwa [List.map_get_finRange, ← hpasses] at hperm

/-! ## Passes in another order -/

section Rearranged

variable {passes passes' : List Pass} {order : List (Fin passes.length)}

/-- What passes declare when they stand in another order. -/
theorem accesses_of_map_get (h : passes' = order.map passes.get)
    (hlength : passes'.length = order.length) :
    accesses passes' = accesses passes ∘ fun k => order.get (k.cast hlength) := by
  funext k
  have hget : passes'.get k = passes.get (order.get (k.cast hlength)) :=
    (List.getElem_of_eq h _).trans (List.getElem_map _)
  rw [accesses, hget]
  rfl

/-- An order of all positions has every position at one place. -/
theorem bijective_get_of_perm (h : order.Perm (List.finRange passes.length)) {m : Nat}
    (hlength : m = order.length) :
    Function.Bijective fun k : Fin m => order.get (k.cast hlength) := by
  have hnodup : order.Nodup := h.nodup_iff.mpr (List.nodup_finRange _)
  refine ⟨fun k k' heq => Fin.ext ((List.Nodup.getElem_inj_iff hnodup).mp heq), fun i => ?_⟩
  obtain ⟨k, hk, heq⟩ := List.mem_iff_getElem.mp (h.mem_iff.mpr (List.mem_finRange i))
  exact ⟨⟨k, hlength ▸ hk⟩, heq⟩

/-- Passes that can be put into an order can be put into it from any other. -/
theorem orderable_of_map_get (h : Orderable (accesses passes))
    (hperm : order.Perm (List.finRange passes.length)) (hpasses : passes' = order.map passes.get) :
    Orderable (accesses passes') := by
  have hlength : passes'.length = order.length := by rw [hpasses, List.length_map]
  rw [accesses_of_map_get hpasses hlength]
  exact h.comp (bijective_get_of_perm hperm hlength)

/-- Rearranged lists are lists in another order of their positions. -/
theorem exists_map_get_of_perm (h : passes'.Perm passes) :
    ∃ order : List (Fin passes.length), order.Perm (List.finRange passes.length) ∧
      passes' = order.map passes.get := by
  have hget : List.Forall₂ (fun pass i => pass = passes.get i) passes
      (List.finRange passes.length) := by
    refine Eq.subst (motive := fun l => List.Forall₂ _ l _) (List.map_get_finRange passes) ?_
    exact List.forall₂_map_left_iff.mpr (List.forall₂_same.mpr fun _ _ => rfl)
  obtain ⟨order, horder, hperm⟩ := List.perm_comp_forall₂ h hget
  refine ⟨order, hperm, ?_⟩
  rw [← List.forall₂_eq_eq_eq, List.forall₂_map_right_iff]
  exact horder

theorem orderable_iff_of_perm (h : passes.Perm passes') :
    Orderable (accesses passes) ↔ Orderable (accesses passes') := by
  constructor
  · intro hpasses
    obtain ⟨order, hperm, heq⟩ := exists_map_get_of_perm h.symm
    exact orderable_of_map_get hpasses hperm heq
  · intro hpasses
    obtain ⟨order, hperm, heq⟩ := exists_map_get_of_perm h
    exact orderable_of_map_get hpasses hperm heq

end Rearranged

/-- The passes of a pipeline can be put into an order, and they are in order as they stand. -/
theorem orderable_passes {passes : List Pass} {p : Pipeline} (h : ofPasses passes = .ok p) :
    Orderable (accesses p.passes) ∧
      OwnersFirst (accesses p.passes) (List.finRange p.passes.length) := by
  obtain ⟨order, horder, hpasses⟩ := ofPasses_eq_ok_iff.mp h
  have hlength : p.passes.length = order.length := by rw [hpasses, List.length_map]
  refine ⟨orderable_of_map_get (orderable_of_order horder) (perm_of_order horder) hpasses,
    ownersFirst_finRange fun i o hdep => ?_⟩
  rw [accesses_of_map_get hpasses hlength] at hdep
  have hdep' := hdep.of_comp (bijective_get_of_perm (perm_of_order horder) hlength).1
  exact (ownersFirst_of_order horder).lt_of_dependsOn (nodup_of_order horder)
    (hlength ▸ i.isLt) (hlength ▸ o.isLt) hdep'

/-- A pass of a pipeline stands after those that it depends on. -/
theorem lt_of_dependsOn {passes : List Pass} {p : Pipeline} (h : ofPasses passes = .ok p)
    {i o : Fin p.passes.length} (hdep : DependsOn (accesses p.passes) i o) : o < i := by
  have hdep' : DependsOn (accesses p.passes) (List.finRange _)[i] (List.finRange _)[o] := by
    simpa using hdep
  exact (orderable_passes h).2.lt_of_dependsOn (List.nodup_finRange _) (by simp) (by simp) hdep'

/-- A pipeline is the pipeline of its own passes. -/
theorem ofPasses_passes {passes : List Pass} {p : Pipeline} (h : ofPasses passes = .ok p) :
    ofPasses p.passes = .ok p := by
  obtain ⟨horderable, hfirst⟩ := orderable_passes h
  have horder := order_eq_ok_iff.mpr ⟨horderable, rfl⟩
  refine ofPasses_eq_ok_iff.mpr ⟨_, horder, ?_⟩
  rw [order_eq_finRange horder hfirst]
  exact (List.map_get_finRange p.passes).symm

/-- The passes of a pipeline are those of the list, each once and after those that it depends on. Of
all orders with that property theirs is the first in the order of words over the positions in the
list. So passes that are in order are kept, also those of a pipeline, and a pass stands behind a
later one only if it depends, perhaps through others, on one that is no earlier than that. -/
theorem ofPasses_least {passes : List Pass} {p : Pipeline} (h : ofPasses passes = .ok p) :
    ∃ order : List (Fin passes.length),
      Schedule.order (accesses passes) = .ok order ∧
      p.passes = order.map passes.get ∧
      order.Perm (List.finRange passes.length) ∧
      OwnersFirst (accesses passes) order ∧
      (∀ other : List (Fin passes.length), other.Perm (List.finRange passes.length) →
        OwnersFirst (accesses passes) other → order = other ∨ List.Lex (· < ·) order other) ∧
      (OwnersFirst (accesses passes) (List.finRange passes.length) → p.passes = passes) ∧
      ofPasses p.passes = .ok p ∧
      ∀ i j before after, order = before ++ j :: after → i ∉ before → i < j →
        ∃ k, j ≤ k ∧ TransGen (DependsOn (accesses passes)) i k := by
  obtain ⟨order, horder, hpasses⟩ := ofPasses_eq_ok_iff.mp h
  refine ⟨order, horder, hpasses, perm_of_order horder, ownersFirst_of_order horder,
    fun other => order_least horder, fun hfirst => ?_, ofPasses_passes h,
    fun i j before after => exists_dependsOn_of_behind horder⟩
  rw [hpasses, order_eq_finRange horder hfirst]
  exact List.map_get_finRange passes

theorem ofPasses_least_readers_first :
    ofPasses [.histogram "input_shapes", .inputShapes, .opName, .outputShape] =
        .ok ⟨[.opName, .outputShape, .inputShapes, .histogram "input_shapes"]⟩ ∧
      ofPasses [.opName, .outputShape, .inputShapes, .histogram "input_shapes"] =
        .ok ⟨[.opName, .outputShape, .inputShapes, .histogram "input_shapes"]⟩ := by
  have h : ofPasses [.histogram "input_shapes", .inputShapes, .opName, .outputShape] =
      .ok ⟨[.opName, .outputShape, .inputShapes, .histogram "input_shapes"]⟩ := by cbv
  obtain ⟨_, -, -, -, -, -, -, hkept, -⟩ := ofPasses_least h
  exact ⟨h, hkept⟩

end Pipeline

end GraphSurvey
