import GraphSurvey.Proofs.Detail.Value
import GraphSurvey.Proofs.Graph.RoundTrip
import Mathlib

/-!
# Types told by their forms

Tensors and tuples have forms of one kind, nested sequences. Still, from its form a type is known
but for one thing: an empty tuple and a tensor without extents both become an empty sequence.
Elsewhere the items tell a tensor from a tuple, since the form of a field is never an integer, and
the integers tell the extents, which are kept by their bits.

## Main definitions

* `GraphSurvey.ResultType.withScalars` — a type with tensors without extents in the place of empty
  tuples.

## Main results

* `GraphSurvey.Value.ofType_withScalars` — the form of a type does not tell the two apart.
* `GraphSurvey.Value.withScalars_eq` — it tells everything else.
* `GraphSurvey.Value.ofType_eq_ofType_iff` — which types have a form, and which have the same.
-/

namespace GraphSurvey

namespace ResultType

mutual

/-- The type with a tensor without extents in the place of every empty tuple, at any depth. -/
def withScalars : ResultType → ResultType
  | .tensor shape => .tensor shape
  | .tuple [] => .tensor []
  | .tuple (field :: rest) => .tuple (field.withScalars :: fieldsWithScalars rest)
  | .named name => .named name

/-- The types of a list, each with such tensors. -/
def fieldsWithScalars : List ResultType → List ResultType
  | [] => []
  | ty :: rest => ty.withScalars :: fieldsWithScalars rest

end

end ResultType

namespace Value

open ResultType

variable {fields fields' : List ResultType}

/-! ## What the form does not tell -/

mutual

/-- An empty tuple and a tensor without extents have the same form. -/
theorem ofType_withScalars : (ty : ResultType) → ofType ty.withScalars = ofType ty
  | .tensor shape => by rw [withScalars]
  | .tuple [] => by rw [withScalars]; rfl
  | .tuple (field :: rest) => by
    rw [withScalars, ofType, ofType, ofTypes, ofTypes, ofType_withScalars field,
      ofTypes_withScalars rest]
  | .named name => by rw [withScalars]

theorem ofTypes_withScalars : (fields : List ResultType) →
    ofTypes (fieldsWithScalars fields) = ofTypes fields
  | [] => by rw [fieldsWithScalars]
  | ty :: rest => by
    rw [fieldsWithScalars, ofTypes, ofTypes, ofType_withScalars ty, ofTypes_withScalars rest]

end

/-! ## What the form tells -/

/-- The integers with the bits of the extents tell the extents. -/
theorem shape_eq_of_signedWords {shape shape' : Shape} (h : ∀ n ∈ shape, n < wordBound)
    (h' : ∀ n ∈ shape', n < wordBound) (heq : shape.map signedWord = shape'.map signedWord) :
    shape = shape' := by
  induction shape generalizing shape' with
  | nil => exact (List.map_eq_nil_iff.mp heq.symm).symm
  | cons n rest ih =>
    cases shape' with
    | nil => cases heq
    | cons n' rest' =>
      obtain ⟨hn, hrest⟩ := List.forall_mem_cons.mp h
      obtain ⟨hn', hrest'⟩ := List.forall_mem_cons.mp h'
      obtain ⟨hhead, htail⟩ := List.cons.inj heq
      rw [(signedWord_inj hn hn').mp hhead, ih hrest hrest' htail]

theorem ofInts_inj {is js : List Int} (h : ofInts is = ofInts js) : is = js :=
  List.map_injective_iff.mpr (fun _ _ => int.inj) (seq.inj h)

/-- A tensor has the form of a tuple only if it has no extents and the tuple no fields. -/
theorem eq_nil_of_ofInts {is : List Int} (h : ofType (.tuple fields) = some (ofInts is)) :
    is = [] ∧ fields = [] := by
  obtain ⟨items, hitems, heq⟩ := Option.map_eq_some_iff.mp h
  obtain rfl := seq.inj heq
  cases fields with
  | nil => exact ⟨List.map_eq_nil_iff.mp (Option.some.inj hitems).symm, rfl⟩
  | cons ty rest =>
    obtain ⟨v, vs, hv, -, hcons⟩ := ofTypes_cons_eq_some_iff.mp hitems
    -- the form of a field is no integer
    cases is with
    | nil => cases hcons
    | cons i is =>
      have hkind := kind_of_ofType hv
      rw [← (List.cons.inj hcons).1] at hkind
      cases hkind

theorem withScalars_tuple_congr (h : fieldsWithScalars fields = fieldsWithScalars fields') :
    (tuple fields).withScalars = (tuple fields').withScalars := by
  cases fields with
  | nil =>
    cases fields' with
    | nil => rfl
    | cons => rw [fieldsWithScalars, fieldsWithScalars] at h; cases h
  | cons =>
    cases fields' with
    | nil => rw [fieldsWithScalars, fieldsWithScalars] at h; cases h
    | cons => rw [fieldsWithScalars, fieldsWithScalars] at h; rw [withScalars, withScalars, h]

mutual

/-- Types of one form are the same but for empty tuples. -/
theorem withScalars_eq : (ty ty' : ResultType) → ty.Fits → ty'.Fits → {v : Value} →
    ofType ty = some v → ofType ty' = some v → ty.withScalars = ty'.withScalars
  | .tensor shape, .tensor shape', h, h', v, hv, hv' => by
    have heq : ofInts (shape.map signedWord) = ofInts (shape'.map signedWord) :=
      Option.some.inj (hv.trans hv'.symm)
    rw [shape_eq_of_signedWords h h' (ofInts_inj heq)]
  | .tensor shape, .tuple fields, _, _, v, hv, hv' => by
    obtain ⟨hshape, rfl⟩ := eq_nil_of_ofInts (hv'.trans hv.symm)
    rw [List.map_eq_nil_iff.mp hshape, withScalars, withScalars]
  | .tuple fields, .tensor shape, _, _, v, hv, hv' => by
    obtain ⟨hshape, rfl⟩ := eq_nil_of_ofInts (hv.trans hv'.symm)
    rw [List.map_eq_nil_iff.mp hshape, withScalars, withScalars]
  | .tuple fields, .tuple fields', h, h', v, hv, hv' => by
    obtain ⟨items, hitems, rfl⟩ := Option.map_eq_some_iff.mp hv
    obtain ⟨items', hitems', heq⟩ := Option.map_eq_some_iff.mp hv'
    obtain rfl := seq.inj heq
    exact withScalars_tuple_congr (fieldsWithScalars_eq fields fields' h h' hitems hitems')
  | .named name, _, _, _, _, hv, _ => nomatch hv
  | _, .named name, _, _, _, _, hv' => nomatch hv'

theorem fieldsWithScalars_eq : (fields fields' : List ResultType) → FieldsFit fields →
    FieldsFit fields' → {items : List Value} → ofTypes fields = some items →
    ofTypes fields' = some items → fieldsWithScalars fields = fieldsWithScalars fields'
  | [], [], _, _, _, _, _ => rfl
  | [], ty' :: rest', _, _, items, h, h' => by
    obtain ⟨v, vs, -, -, rfl⟩ := ofTypes_cons_eq_some_iff.mp h'
    cases h
  | ty :: rest, [], _, _, items, h, h' => by
    obtain ⟨v, vs, -, -, rfl⟩ := ofTypes_cons_eq_some_iff.mp h
    cases h'
  | ty :: rest, ty' :: rest', hfit, hfit', items, h, h' => by
    obtain ⟨v, vs, hv, hvs, rfl⟩ := ofTypes_cons_eq_some_iff.mp h
    obtain ⟨v', vs', hv', hvs', heq⟩ := ofTypes_cons_eq_some_iff.mp h'
    obtain ⟨rfl, rfl⟩ := List.cons.inj heq
    rw [fieldsWithScalars, fieldsWithScalars, withScalars_eq ty ty' hfit.1 hfit'.1 hv hv',
      fieldsWithScalars_eq rest rest' hfit.2 hfit'.2 hvs hvs']

end

/-- A type has no form exactly if a type that is known by its name only occurs in it. Of the others,
with extents of 64 bits, two have the same form exactly if they become the same when every empty
tuple, at any depth, is replaced by a tensor without extents. -/
theorem ofType_eq_ofType_iff (ty ty' : ResultType) :
    (ofType ty = none ↔ ty.HasNamed) ∧
    (¬ ty.HasNamed → ¬ ty'.HasNamed → ty.Fits → ty'.Fits →
      (ofType ty = ofType ty' ↔ ty.withScalars = ty'.withScalars)) := by
  refine ⟨ofType_eq_none_iff ty, fun h h' hfits hfits' => ⟨fun heq => ?_, fun heq => ?_⟩⟩
  · obtain ⟨v, hv⟩ := Option.ne_none_iff_exists'.mp (mt (ofType_eq_none_iff ty).mp h)
    exact withScalars_eq ty ty' hfits hfits' hv (heq ▸ hv)
  · rw [← ofType_withScalars ty, heq, ofType_withScalars]

/-- A pair of a tensor, with an extent past the greatest integer of 64 bits, and another type. -/
def pairType (second : ResultType) : ResultType :=
  .tuple [.tensor [3, 0x8000000000000000], .tuple [second]]

theorem ofType_eq_ofType_iff_pairType :
    ¬ (pairType (.tuple [])).HasNamed ∧ (pairType (.tuple [])).Fits ∧
    ofType (pairType (.tuple [])) = ofType (pairType (.tensor [])) ∧
    ofType (pairType (.tuple [])) ≠ ofType (pairType (.tuple [.tuple []])) := by
  have hnamed : ∀ ty ∈ [.tuple [], .tensor [], .tuple [.tuple []]], ¬ (pairType ty).HasNamed := by
    decide
  have hfits : ∀ ty ∈ [.tuple [], .tensor [], .tuple [.tuple []]], (pairType ty).Fits := by decide
  have htold (ty : ResultType) (h : ty ∈ [.tuple [], .tensor [], .tuple [.tuple []]]) :=
    (ofType_eq_ofType_iff (pairType (.tuple [])) (pairType ty)).2
      (hnamed _ List.mem_cons_self) (hnamed ty h) (hfits _ List.mem_cons_self) (hfits ty h)
  refine ⟨hnamed _ List.mem_cons_self, hfits _ List.mem_cons_self, ?_, ?_⟩
  · exact (htold (.tensor []) (by simp)).mpr rfl
  · exact mt (htold (.tuple [.tuple []]) (by simp)).mp nofun

end Value

end GraphSurvey
