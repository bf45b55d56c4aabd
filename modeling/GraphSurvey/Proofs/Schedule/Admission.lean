import GraphSurvey.Proofs.Schedule.Order
import Mathlib

/-!
# Which passes are accepted

Passes are accepted exactly when they can be put into an order. Of what may be wrong with passes
that are not accepted, the declarations come first: the error names the first field that is declared
again. Then come the reads, of which the error names the first without an owner, and last the
cycles, where the error names a pass that lies on one.

## Main definitions

* `GraphSurvey.Schedule.FirstRepeated` — the first field that is declared again.
* `GraphSurvey.Schedule.FirstUnmet` — the first read without an owner.

## Main results

* `GraphSurvey.Schedule.exists_firstRepeated`, `GraphSurvey.Schedule.exists_firstUnmet`,
  `GraphSurvey.Schedule.exists_onCycle` — what is found where something is wrong.
* `GraphSurvey.Pipeline.ofPasses_orderable_or_fault` — which passes are accepted, and what is said
  of the others.
-/

open Relation

namespace GraphSurvey

namespace Schedule

variable {n : Nat} {passes : Fin n → Access} {field : String} {i first second : Fin n}

/-- In the order of declaration, the field is the first that was declared before, by the first of
the two passes, when the second declares it. -/
def FirstRepeated (passes : Fin n → Access) (field : String) (first second : Fin n) : Prop :=
  ∃ before after, declared passes = before ++ (field, second) :: after ∧
    (before.map Prod.fst).Nodup ∧ (field, first) ∈ before

/-- The pass reads a field that no pass writes, and every read before is met. -/
def FirstUnmet (passes : Fin n → Access) (i : Fin n) (field : String) : Prop :=
  (∀ o, ¬ Writes passes o field) ∧
    (∃ before after, (passes i).reads = before ++ field :: after ∧
      ∀ name ∈ before, ∃ o, Writes passes o name) ∧
    ∀ j < i, ∀ name ∈ (passes j).reads, ∃ o, Writes passes o name

/-! ## Repeated fields -/

/-- What is found after some distinct declarations is the first that repeats one of them or of those
passed over. -/
theorem exists_of_repeatedAmong {before l : List (String × Fin n)}
    (hbefore : (before.map Prod.fst).Nodup)
    (h : repeatedAmong before l = some (field, first, second)) :
    ∃ l₁ l₂, l = l₁ ++ (field, second) :: l₂ ∧ ((before ++ l₁).map Prod.fst).Nodup ∧
      (field, first) ∈ before ++ l₁ := by
  induction l generalizing before with
  | nil => cases h
  | cons e rest ih =>
    obtain ⟨name, i⟩ := e
    rw [repeatedAmong] at h
    split at h
    case h_1 name' o hfind =>
      obtain rfl : name' = name := by simpa using List.find?_some hfind
      obtain ⟨rfl, rfl, rfl⟩ : name' = field ∧ o = first ∧ i = second := by simpa using h
      refine ⟨[], rest, rfl, ?_, ?_⟩
      · rwa [List.append_nil]
      · rw [List.append_nil]
        exact List.mem_of_find?_eq_some hfind
    case h_2 hfind =>
      have hnew : name ∉ before.map Prod.fst := find?_field_eq_none_iff.mp hfind
      have hnodup : ((before ++ [(name, i)]).map Prod.fst).Nodup := by
        rw [List.map_append, List.map_singleton, ← List.concat_eq_append]
        exact hbefore.concat hnew
      obtain ⟨l₁, l₂, rfl, hl₁, hmem⟩ := ih hnodup h
      rw [List.append_assoc] at hl₁ hmem
      exact ⟨(name, i) :: l₁, l₂, rfl, hl₁, hmem⟩

/-- When a field is declared twice, the first that is declared again is found. -/
theorem exists_firstRepeated (h : ¬ ((declared passes).map Prod.fst).Nodup) :
    ∃ field first second, FirstRepeated passes field first second ∧
      repeatedField? passes = some (field, first, second) := by
  obtain ⟨⟨field, first, second⟩, hfound⟩ :=
    Option.ne_none_iff_exists'.mp (mt repeatedField?_eq_none_iff.mp h)
  have hnil : (([] : List (String × Fin n)).map Prod.fst).Nodup := List.nodup_nil
  obtain ⟨before, after, heq, hnodup, hmem⟩ := exists_of_repeatedAmong hnil hfound
  exact ⟨field, first, second, ⟨before, after, heq, hnodup, hmem⟩, hfound⟩

/-! ## Unmet reads -/

/-- When a read is without an owner, the first such read is found. -/
theorem exists_firstUnmet (h : ¬ ∀ i, ∀ field ∈ (passes i).reads, ∃ o, Writes passes o field) :
    ∃ i field, FirstUnmet passes i field ∧ unmetRead? passes = some (i, field) := by
  obtain ⟨⟨i, field⟩, hfound⟩ := Option.ne_none_iff_exists'.mp (mt unmetRead?_eq_none_iff.mp h)
  refine ⟨i, field, ?_, hfound⟩
  obtain ⟨l₁, j, l₂, hrange, hj, hbefore⟩ := List.findSome?_eq_some_iff.mp hfound
  obtain ⟨name, hname, heq⟩ := Option.map_eq_some_iff.mp hj
  obtain ⟨rfl, rfl⟩ := Prod.mk.inj heq
  obtain ⟨hunmet, before, after, hreads, hpassed⟩ := List.find?_eq_some_iff_append.mp hname
  refine ⟨fun o ho => ?_,
    ⟨before, after, hreads, fun name hmem => owner?_isSome_iff.mp ?_⟩,
    fun k hk name hmem => owner?_isSome_iff.mp ?_⟩
  · have hsome := owner?_isSome_iff.mpr ⟨o, ho⟩
    rw [Option.isNone_iff_eq_none.mp hunmet] at hsome
    cases hsome
  · simpa using hpassed name hmem
  · have hk₁ : k ∈ l₁ := (mem_before_finRange_iff hrange).mpr hk
    have hnone := List.find?_eq_none.mp (Option.map_eq_none_iff.mp (hbefore k hk₁)) name hmem
    simpa [Option.isSome_iff_ne_none] using hnone

/-! ## Cycles -/

/-- When passes depend on themselves, one of them is found. -/
theorem exists_onCycle (honce : ((declared passes).map Prod.fst).Nodup)
    (h : ¬ ∀ i, ¬ TransGen (DependsOn passes) i i) :
    ∃ i, TransGen (DependsOn passes) i i ∧ onCycle? (edges passes) = some i := by
  rw [← waits_edges honce] at h ⊢
  have hcycle := onCycle?_eq_none_iff (not_waits_self honce)
  obtain ⟨i, hfound⟩ := Option.ne_none_iff_exists'.mp (mt hcycle.mp h)
  exact ⟨i, transGen_of_onCycle? hfound, hfound⟩

end Schedule

namespace Pipeline

open Schedule

variable {passes : List Pass} {e : AnalysisError}

/-- Passes are accepted exactly when they can be put into an order. -/
theorem exists_ofPasses_iff : (∃ p, ofPasses passes = .ok p) ↔ Orderable (accesses passes) := by
  constructor
  · rintro ⟨p, hp⟩
    obtain ⟨order, horder, -⟩ := ofPasses_eq_ok_iff.mp hp
    exact orderable_of_order horder
  · intro h
    exact ⟨⟨_⟩, ofPasses_eq_ok_iff.mpr ⟨_, order_eq_ok_iff.mpr ⟨h, rfl⟩, rfl⟩⟩

theorem ofPasses_of_order (h : Schedule.order (accesses passes) = .error e) :
    ofPasses passes = .error e := by
  rw [ofPasses, h]

/-- If a field is declared twice, the error names the first that is declared again with both its
declarers. -/
theorem exists_duplicateField (h : ¬ ((declared (accesses passes)).map Prod.fst).Nodup) :
    ∃ field first second, FirstRepeated (accesses passes) field first second ∧
      ofPasses passes =
        .error (.duplicateField field (passes.get first).name (passes.get second).name) := by
  obtain ⟨field, first, second, hfirst, hfound⟩ := exists_firstRepeated h
  refine ⟨field, first, second, hfirst, ofPasses_of_order ?_⟩
  rw [Schedule.order, hfound]
  rfl

/-- If no field is declared twice and a read is without an owner, the error names the first such
read. -/
theorem exists_unmetDependency (honce : ((declared (accesses passes)).map Prod.fst).Nodup)
    (h : ¬ ∀ i, ∀ field ∈ (accesses passes i).reads, ∃ o, Writes (accesses passes) o field) :
    ∃ i field, FirstUnmet (accesses passes) i field ∧
      ofPasses passes = .error (.unmetDependency (passes.get i).name field) := by
  obtain ⟨i, field, hfirst, hfound⟩ := exists_firstUnmet h
  refine ⟨i, field, hfirst, ofPasses_of_order ?_⟩
  rw [Schedule.order, repeatedField?_eq_none_iff.mpr honce]
  simp only [hfound]
  rfl

/-- Passes are accepted exactly when they can be put into an order: no field is declared twice,
every field that is read is written, and no pass depends on itself through others. If a field is
declared twice, the error names the first that is declared again with both its declarers. Else, if a
read is without an owner, the error names the first such read, in the order of the passes. Else the
error names a pass that depends on itself. -/
theorem ofPasses_orderable_or_fault (passes : List Pass) :
    ((∃ p, ofPasses passes = .ok p) ↔ Orderable (accesses passes)) ∧
    (¬ ((declared (accesses passes)).map Prod.fst).Nodup →
      ∃ field first second, FirstRepeated (accesses passes) field first second ∧
        ofPasses passes =
          .error (.duplicateField field (passes.get first).name (passes.get second).name)) ∧
    (((declared (accesses passes)).map Prod.fst).Nodup →
      (¬ ∀ i, ∀ field ∈ (accesses passes i).reads, ∃ o, Writes (accesses passes) o field) →
      ∃ i field, FirstUnmet (accesses passes) i field ∧
        ofPasses passes = .error (.unmetDependency (passes.get i).name field)) ∧
    (((declared (accesses passes)).map Prod.fst).Nodup →
      (∀ i, ∀ field ∈ (accesses passes i).reads, ∃ o, Writes (accesses passes) o field) →
      (¬ ∀ i, ¬ TransGen (DependsOn (accesses passes)) i i) →
      ∃ i, TransGen (DependsOn (accesses passes)) i i ∧
        ofPasses passes = .error (.dependencyCycle (passes.get i).name)) := by
  refine ⟨exists_ofPasses_iff, exists_duplicateField, exists_unmetDependency,
    fun honce hmet hcyclic => ?_⟩
  obtain ⟨i, hcycle, hfound⟩ := exists_onCycle honce hcyclic
  refine ⟨i, hcycle, ofPasses_of_order ?_⟩
  rw [Schedule.order, repeatedField?_eq_none_iff.mpr honce]
  simp only [unmetRead?_eq_none_iff.mpr hmet, hfound]
  rfl

/-- A field that is declared again is named although an earlier pass has a read without an owner. -/
example : ofPasses [.histogram "missing", .opName, .attr "op"] =
    .error (.duplicateField "op" "op_name" "attribute:op") := by cbv

end Pipeline

end GraphSurvey
