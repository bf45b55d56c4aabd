import GraphSurvey.Pipeline.Schedule
import Mathlib

/-!
# Dependencies of passes

A pass depends on another pass that writes a field which it reads. Passes can be put into an order
when no field is declared twice, every field that is read is written, and no pass depends on itself
through others. What is computed from the declarations, the owners of the fields and the edges from
owners to readers, agrees with these relations.

## Main definitions

* `GraphSurvey.Schedule.Writes`, `GraphSurvey.Schedule.DependsOn` — the relations of passes.
* `GraphSurvey.Schedule.Orderable` — the passes can be put into an order.

## Main results

* `GraphSurvey.Schedule.repeatedField?_eq_none_iff`, `GraphSurvey.Schedule.unmetRead?_eq_none_iff` —
  when nothing is wrong with the declarations.
* `GraphSurvey.Schedule.mem_edges_iff` — the edges are the dependencies.
-/

open Relation

namespace GraphSurvey.Schedule

variable {n : Nat} {passes : Fin n → Access} {field : String} {i o : Fin n}

/-- The pass declares to write the field. -/
def Writes (passes : Fin n → Access) (o : Fin n) (field : String) : Prop :=
  ∃ decl ∈ (passes o).writes, decl.name = field

/-- The pass reads a field that another pass writes. -/
def DependsOn (passes : Fin n → Access) (i o : Fin n) : Prop :=
  o ≠ i ∧ ∃ field ∈ (passes i).reads, Writes passes o field

/-- The passes can be put into an order in which the owners of the fields that are read come
first. -/
structure Orderable (passes : Fin n → Access) : Prop where
  /-- No field is declared twice. -/
  once : ((declared passes).map Prod.fst).Nodup
  /-- Every field that is read is written. -/
  met : ∀ i, ∀ field ∈ (passes i).reads, ∃ o, Writes passes o field
  /-- No pass depends on itself through others. -/
  acyclic : ∀ i, ¬ TransGen (DependsOn passes) i i

/-! ## Declarations -/

theorem mem_declared_iff : (field, o) ∈ declared passes ↔ Writes passes o field := by
  simp only [declared, List.mem_flatMap, List.mem_finRange, true_and, List.mem_map, Prod.mk.injEq]
  constructor
  · rintro ⟨o', decl, hdecl, rfl, rfl⟩
    exact ⟨decl, hdecl, rfl⟩
  · rintro ⟨decl, hdecl, rfl⟩
    exact ⟨o, decl, hdecl, rfl, rfl⟩

theorem find?_field_eq_none_iff {l : List (String × Fin n)} :
    (l.find? fun e => e.1 = field) = none ↔ field ∉ l.map Prod.fst := by
  simp only [List.find?_eq_none, decide_eq_true_eq, List.mem_map, not_exists, not_and]

theorem repeatedAmong_eq_none_iff {before l : List (String × Fin n)} :
    repeatedAmong before l = none ↔
      (∀ e ∈ l, e.1 ∉ before.map Prod.fst) ∧ (l.map Prod.fst).Nodup := by
  induction l generalizing before with
  | nil => simp [repeatedAmong]
  | cons e rest ih =>
    obtain ⟨field, i⟩ := e
    rw [repeatedAmong]
    split
    case h_1 e' first hfind =>
      refine iff_of_false (by simp) fun ⟨hall, _⟩ => ?_
      have hnone := find?_field_eq_none_iff.mpr (hall _ List.mem_cons_self)
      exact absurd (hnone.symm.trans hfind) (by simp)
    case h_2 hfind =>
      have hnot : field ∉ before.map Prod.fst := find?_field_eq_none_iff.mp hfind
      rw [ih, List.map_cons, List.nodup_cons, List.map_append]
      constructor
      · rintro ⟨hrest, hnodup⟩
        refine ⟨fun e he => ?_, fun hmem => ?_, hnodup⟩
        · rcases List.mem_cons.mp he with rfl | he
          · exact hnot
          · exact fun hbefore => hrest e he (List.mem_append_left _ hbefore)
        · obtain ⟨e, he, hname⟩ := List.mem_map.mp hmem
          exact hrest e he (List.mem_append_right _ (List.mem_singleton.mpr hname))
      · rintro ⟨hall, hfield, hnodup⟩
        refine ⟨fun e he hmem => ?_, hnodup⟩
        rcases List.mem_append.mp hmem with hbefore | hname
        · exact hall e (List.mem_cons_of_mem _ he) hbefore
        · have heq : e.1 = field := List.mem_singleton.mp hname
          exact hfield (List.mem_map.mpr ⟨e, he, heq⟩)

/-- Nothing is declared again exactly when the declared fields are distinct. -/
theorem repeatedField?_eq_none_iff :
    repeatedField? passes = none ↔ ((declared passes).map Prod.fst).Nodup := by
  rw [repeatedField?, repeatedAmong_eq_none_iff]
  simp

/-- When no field is declared twice, none is within a pass. -/
theorem nodup_writes (h : ((declared passes).map Prod.fst).Nodup) (i : Fin n) :
    ((passes i).writes.map FieldDecl.name).Nodup := by
  rw [declared, List.map_flatMap] at h
  have hi := (List.nodup_flatMap.mp h).1 i (List.mem_finRange i)
  rwa [List.map_map] at hi

/-! ## Owners -/

/-- A field that is declared once is owned by the pass that writes it. -/
theorem owner?_eq_some_iff (h : ((declared passes).map Prod.fst).Nodup) :
    owner? passes field = some o ↔ Writes passes o field := by
  rw [← mem_declared_iff, owner?, Option.map_eq_some_iff]
  constructor
  · rintro ⟨e, hfind, rfl⟩
    have hname : e.1 = field := by simpa using List.find?_some hfind
    rw [← hname]
    exact List.mem_of_find?_eq_some hfind
  · intro hmem
    cases hfind : (declared passes).find? fun e => e.1 = field with
    | none => exact absurd (List.mem_map_of_mem hmem) (find?_field_eq_none_iff.mp hfind)
    | some e =>
      have hname : e.1 = field := by simpa using List.find?_some hfind
      have heq := List.inj_on_of_nodup_map h (List.mem_of_find?_eq_some hfind) hmem hname
      exact ⟨e, rfl, by rw [heq]⟩

/-- A field that is declared once is written by one pass. -/
theorem writes_iff_eq (h : ((declared passes).map Prod.fst).Nodup) (ho : Writes passes o field)
    (i : Fin n) : Writes passes i field ↔ i = o := by
  have howner := (owner?_eq_some_iff h).mpr ho
  rw [← owner?_eq_some_iff h, howner, Option.some.injEq, eq_comm]

theorem owner?_isSome_iff : (owner? passes field).isSome ↔ ∃ o, Writes passes o field := by
  simp only [owner?, Option.isSome_map, List.find?_isSome, decide_eq_true_eq, ← mem_declared_iff]
  constructor
  · rintro ⟨⟨_, o⟩, he, rfl⟩
    exact ⟨o, he⟩
  · rintro ⟨o, he⟩
    exact ⟨_, he, rfl⟩

/-- No read is without an owner exactly when every field that is read is written. -/
theorem unmetRead?_eq_none_iff :
    unmetRead? passes = none ↔ ∀ i, ∀ field ∈ (passes i).reads, ∃ o, Writes passes o field := by
  simp only [unmetRead?, List.findSome?_eq_none_iff, List.mem_finRange, forall_const,
    Option.map_eq_none_iff, List.find?_eq_none, ← owner?_isSome_iff, Option.isNone_iff_eq_none,
    ← Option.ne_none_iff_isSome, ne_eq]

/-! ## Edges -/

private theorem nodup_eraseDups {α : Type} [BEq α] [LawfulBEq α] :
    (l : List α) → l.eraseDups.Nodup
  | [] => List.nodup_nil
  | a :: rest => by
    rw [List.eraseDups_cons]
    refine List.nodup_cons.mpr ⟨?_, nodup_eraseDups _⟩
    simp [List.mem_eraseDups]
termination_by l => l.length
decreasing_by exact Nat.lt_succ_of_le (List.length_filter_le _ _)

theorem edges_nodup (passes : Fin n → Access) : (edges passes).Nodup := nodup_eraseDups _

/-- When no field is declared twice, the edges lead from the owners to the passes that depend on
them. -/
theorem mem_edges_iff (h : ((declared passes).map Prod.fst).Nodup) :
    (o, i) ∈ edges passes ↔ DependsOn passes i o := by
  simp only [edges, List.mem_eraseDups, List.mem_flatMap, List.mem_finRange, true_and,
    List.mem_filterMap, DependsOn, ← owner?_eq_some_iff h]
  constructor
  · rintro ⟨i', field, hfield, hedge⟩
    split at hedge
    case h_1 o' ho' =>
      split at hedge
      · cases hedge
      · cases hedge
        exact ⟨‹_›, field, hfield, ho'⟩
    case h_2 => cases hedge
  · rintro ⟨hne, field, hfield, ho⟩
    exact ⟨i, field, hfield, by simp [ho, hne]⟩

theorem mem_owners_iff {es : List (Fin n × Fin n)} : o ∈ owners es i ↔ (o, i) ∈ es := by
  simp only [owners, List.mem_map, List.mem_filter, decide_eq_true_eq]
  constructor
  · rintro ⟨⟨_, _⟩, ⟨he, rfl⟩, rfl⟩
    exact he
  · intro he
    exact ⟨_, ⟨he, rfl⟩, rfl⟩

theorem mem_readers_iff {es : List (Fin n × Fin n)} : i ∈ readers es o ↔ (o, i) ∈ es := by
  simp only [readers, List.mem_map, List.mem_filter, decide_eq_true_eq]
  constructor
  · rintro ⟨⟨_, _⟩, ⟨he, rfl⟩, rfl⟩
    exact he
  · intro he
    exact ⟨_, ⟨he, rfl⟩, rfl⟩

end GraphSurvey.Schedule
