import GraphSurvey.Detail.Value
import Mathlib

/-!
# Types as values

A type is recorded as nested sequences unless a type that is known by its name only occurs in it.

## Main definitions

* `GraphSurvey.ResultType.HasNamed` — a type known by its name only occurs in the type.

## Main results

* `GraphSurvey.Value.ofType_eq_none_iff` — when a type has no form as nested sequences.
* `GraphSurvey.Value.kind_of_ofType` — the form of a type is a sequence.
-/

namespace GraphSurvey

/-- A type that is known by its name only occurs in the type. -/
inductive ResultType.HasNamed : ResultType → Prop
  | named (name : String) : HasNamed (.named name)
  | field {fields : List ResultType} {ty : ResultType} (hmem : ty ∈ fields) (h : HasNamed ty) :
      HasNamed (.tuple fields)

namespace ResultType

theorem not_hasNamed_tensor (shape : Shape) : ¬ HasNamed (.tensor shape) := nofun

theorem hasNamed_tuple_iff {fields : List ResultType} :
    HasNamed (.tuple fields) ↔ ∃ ty ∈ fields, ty.HasNamed := by
  constructor
  · rintro (_ | ⟨hmem, h⟩)
    exact ⟨_, hmem, h⟩
  · rintro ⟨ty, hmem, h⟩
    exact .field hmem h

end ResultType

namespace Value

open ResultType

mutual

/-- A type has no form as nested sequences exactly when a type that is known by its name only occurs
in it. -/
theorem ofType_eq_none_iff : (ty : ResultType) → (ofType ty = none ↔ ty.HasNamed)
  | .tensor shape => iff_of_false (by simp [ofType]) (not_hasNamed_tensor shape)
  | .named name => iff_of_true rfl (.named name)
  | .tuple fields => by
    rw [ofType, Option.map_eq_none_iff, ofTypes_eq_none_iff fields, hasNamed_tuple_iff]

theorem ofTypes_eq_none_iff : (fields : List ResultType) →
    (ofTypes fields = none ↔ ∃ ty ∈ fields, ty.HasNamed)
  | [] => by simp [ofTypes]
  | ty :: rest => by
    have hcons : (∃ field ∈ ty :: rest, field.HasNamed) ↔
        ty.HasNamed ∨ ∃ field ∈ rest, field.HasNamed := by simp
    rw [ofTypes, hcons, ← ofType_eq_none_iff ty, ← ofTypes_eq_none_iff rest]
    cases ofType ty <;> simp

end

/-- The forms of the types of a list are those of the first type and of the rest. -/
theorem ofTypes_cons_eq_some_iff {ty : ResultType} {rest : List ResultType} {items : List Value} :
    ofTypes (ty :: rest) = some items ↔
      ∃ v vs, ofType ty = some v ∧ ofTypes rest = some vs ∧ items = v :: vs := by
  rw [ofTypes]
  cases ofType ty with
  | none => simp
  | some v => simp [eq_comm]

instance : DecidablePred HasNamed := fun ty =>
  decidable_of_iff ((ofType ty).isNone = true) (by simp [ofType_eq_none_iff])

/-- The form of a type is a sequence. -/
theorem kind_of_ofType {ty : ResultType} {v : Value} (h : ofType ty = some v) :
    v.kind = .seq := by
  cases ty with
  | tensor shape =>
    obtain rfl := Option.some.inj h
    rfl
  | named name => cases h
  | tuple fields =>
    obtain ⟨items, -, rfl⟩ := Option.map_eq_some_iff.mp h
    rfl

end Value

end GraphSurvey
