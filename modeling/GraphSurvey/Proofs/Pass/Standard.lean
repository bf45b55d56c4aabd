import GraphSurvey.Pass.Standard
import GraphSurvey.Proofs.Detail.Value
import GraphSurvey.Proofs.Pass.Effect
import Mathlib
import Std.Data.String.ToNat

/-!
# Effects of the standard passes

What each of the standard passes does at a call: it sets at most one field and raises at most one
anomaly, and it never fails. The shapes of the arguments are found where the fields of the arguments
hold the shapes of their types.

## Main definitions

* `GraphSurvey.Pass.shapeAnomalies`, `GraphSurvey.Pass.attrAnomalies` — what is reported of a call.
* `GraphSurvey.Graph.declaredShape?` — the shape of the type that a node tells.
* `GraphSurvey.Graph.IsShapeMap` — the shapes of arguments by their positions.

## Main results

* `GraphSurvey.Pass.effect_opName`, `GraphSurvey.Pass.effect_visitIndex`,
  `GraphSurvey.Pass.effect_outputShape`, `GraphSurvey.Pass.effect_inputShapes`,
  `GraphSurvey.Pass.effect_attr`, `GraphSurvey.Pass.effect_histogram` — what the passes do.
-/

namespace GraphSurvey

namespace Graph

/-- The shape of the type that a node tells, if it has one. -/
def declaredShape? (g : Graph) (id : NodeId) : Option Value :=
  (g.node? id).bind fun n => Value.ofType n.declaredType

/-- The map has the shapes of the arguments by their positions in decimal, and nothing else. -/
structure IsShapeMap (g : Graph) (args : List NodeId) (shapes : Dictionary Value) : Prop where
  shape : ∀ i : Nat, shapes.get? (toString i) = args[i]?.bind g.declaredShape?
  /-- A position is left out if a type that is known by its name only occurs in that of its
  argument. -/
  leftOut : ∀ (i : Nat) (arg : NodeId) (n : Node), args[i]? = some arg → g.node? arg = some n →
    (shapes.get? (toString i) = none ↔ n.declaredType.HasNamed)
  position : ∀ name v, shapes.get? name = some v → ∃ i < args.length, name = toString i

/-- Adds the shape of an argument by its position, if it has one. -/
def putShape (shapes : Dictionary Value) (position : Nat) (shape : Option Value) :
    Dictionary Value :=
  shape.elim shapes (shapes.insert (toString position))

/-- Adds the shapes of the arguments from a position on. -/
def declaredShapes (g : Graph) : List NodeId → Nat → Dictionary Value → Dictionary Value
  | [], _, shapes => shapes
  | arg :: rest, position, shapes =>
    declaredShapes g rest (position + 1) (putShape shapes position (g.declaredShape? arg))

section Shapes

variable {g : Graph} {args : List NodeId} {shapes : Dictionary Value} {name : String} {k i : Nat}
  {shape : Option Value}

theorem get?_putShape_of_ne (h : name ≠ toString k) :
    (putShape shapes k shape).get? name = shapes.get? name := by
  cases shape with
  | none => rfl
  | some v => exact Dictionary.get?_insert_of_ne h

theorem get?_putShape (h : shapes.get? (toString k) = none) :
    (putShape shapes k shape).get? (toString k) = shape := by
  cases shape with
  | none => exact h
  | some v => exact Dictionary.get?_insert_self shapes (toString k) v

theorem get?_declaredShapes_of_ne (h : ∀ i, k ≤ i → name ≠ toString i) :
    (g.declaredShapes args k shapes).get? name = shapes.get? name := by
  induction args generalizing k shapes with
  | nil => rfl
  | cons arg rest ih =>
    rw [declaredShapes, ih fun i hi => h i (Nat.le_of_succ_le hi),
      get?_putShape_of_ne (h k (Nat.le_refl k))]

theorem toString_ne (h : i ≠ k) : toString i ≠ toString k :=
  fun heq => h (Nat.repr_injective heq)

theorem get?_declaredShapes (h : ∀ i, k ≤ i → shapes.get? (toString i) = none) (hi : k ≤ i) :
    (g.declaredShapes args k shapes).get? (toString i) =
      args[i - k]?.bind g.declaredShape? := by
  induction args generalizing k shapes with
  | nil => exact h i hi
  | cons arg rest ih =>
    rw [declaredShapes]
    rcases Nat.lt_or_eq_of_le hi with hlt | rfl
    · have hlater : ∀ j, k + 1 ≤ j →
          (putShape shapes k (g.declaredShape? arg)).get? (toString j) = none := fun j hj => by
        rw [get?_putShape_of_ne (toString_ne (by omega))]
        exact h j (by omega)
      have hindex : i - k = i - (k + 1) + 1 := by omega
      rw [ih hlater hlt, hindex, List.getElem?_cons_succ]
    · rw [get?_declaredShapes_of_ne fun j hj => toString_ne (by omega),
        get?_putShape (h k (Nat.le_refl k)), Nat.sub_self]
      rfl

/-- The shapes of all arguments are a map of them by their positions. -/
theorem isShapeMap_declaredShapes (g : Graph) (args : List NodeId) :
    g.IsShapeMap args (g.declaredShapes args 0 ∅) where
  shape i := get?_declaredShapes (fun _ _ => rfl) (Nat.zero_le i)
  leftOut i arg n harg hn := by
    rw [get?_declaredShapes (fun _ _ => rfl) (Nat.zero_le i), Nat.sub_zero, harg,
      Option.bind_some, declaredShape?, hn, Option.bind_some, Value.ofType_eq_none_iff]
  position name v hv := by
    by_cases hname : ∃ i : Nat, name = toString i
    · obtain ⟨i, rfl⟩ := hname
      rw [get?_declaredShapes (fun _ _ => rfl) (Nat.zero_le i)] at hv
      obtain ⟨arg, harg, -⟩ := Option.bind_eq_some_iff.mp hv
      exact ⟨i, (List.getElem?_eq_some_iff.mp harg).1, rfl⟩
    · rw [get?_declaredShapes_of_ne fun i _ heq => hname ⟨i, heq⟩] at hv
      cases hv

end Shapes

end Graph

namespace Pass

open Hook

/-- What is reported of a call whose type has no shape. -/
def shapeAnomalies (id : NodeId) (c : Call) : List Anomaly :=
  if c.result.HasNamed then
    [⟨id, "output_shape",
      "unrecognized result type " ++ c.result.text ++ " for '" ++ c.op ++ "'"⟩]
  else []

/-- What is reported of a call with an attribute that is not integer-valued. -/
def attrAnomalies (key : String) (id : NodeId) (c : Call) : List Anomaly :=
  match c.attrs.get? key with
  | none => []
  | some a =>
    match a.toInts with
    | some _ => []
    | none =>
      [⟨id, "attribute:" ++ key,
        "attribute '" ++ key ++ "' is not integer-valued: " ++ a.describe⟩]

/-- An attribute of a call as a sequence of integers, if it is one. -/
def intsAttr? (key : String) (c : Call) : Option Value :=
  ((c.attrs.get? key).bind Attr.toInts).map Value.ofInts

variable {g : Graph} {id : NodeId} {c : Call} {view : View}

theorem effect_opName :
    (opName.onCall g id c ()).effect opName.access id view =
      ⟨[(FieldName.op, .text c.op)], [], .ok ()⟩ :=
  effect_write rfl

theorem effect_visitIndex (next : Int) :
    (visitIndex.onCall g id c next).effect visitIndex.access id view =
      ⟨[(FieldName.index, .int next)], [], .ok (next + 1)⟩ :=
  effect_bind (effect_write rfl) rfl

theorem effect_outputShape :
    (outputShape.onCall g id c ()).effect outputShape.access id view =
      ⟨((Value.ofType c.result).map fun shape => (FieldName.outputShape, shape)).toList,
        shapeAnomalies id c, .ok ()⟩ := by
  cases hshape : Value.ofType c.result with
  | none =>
    have hnamed : c.result.HasNamed := (Value.ofType_eq_none_iff _).mp hshape
    rw [shapeAnomalies, if_pos hnamed]
    simp only [outputShape, extractor, hshape]
    exact effect_report _
  | some shape =>
    have hnamed : ¬ c.result.HasNamed := fun h => by
      rw [← Value.ofType_eq_none_iff, hshape] at h
      cases h
    rw [shapeAnomalies, if_neg hnamed]
    simp only [outputShape, extractor, hshape]
    exact effect_write (by rw [Value.kind_of_ofType hshape]; rfl)

/-- The fields of an argument hold its shape if it is a call. -/
def Shown (g : Graph) (view : View) (arg : NodeId) : Prop :=
  ∃ n, g.node? arg = some n ∧
    ∀ c, n.kind = .call c → view arg FieldName.outputShape = Value.ofType n.declaredType

theorem effect_argumentShape {arg : NodeId} (h : Shown g view arg) :
    (argumentShape g arg).effect inputShapes.access id view =
      ⟨[], [], .ok (g.declaredShape? arg)⟩ := by
  obtain ⟨n, hn, hcall⟩ := h
  have hshape : g.declaredShape? arg = Value.ofType n.declaredType := by
    rw [Graph.declaredShape?, hn, Option.bind_some]
  simp only [argumentShape, Graph.find, hn, hshape]
  cases hk : n.kind with
  | call c =>
    rw [← hcall c hk]
    exact effect_read (.inr List.mem_cons_self)
  | var => rfl
  | constant => rfl

theorem effect_gatherShapes {args : List NodeId} {k : Nat} {shapes : Dictionary Value}
    (h : ∀ arg ∈ args, Shown g view arg) :
    (gatherShapes g args k shapes).effect inputShapes.access id view =
      ⟨[], [], .ok (g.declaredShapes args k shapes)⟩ := by
  induction args generalizing k shapes with
  | nil => rfl
  | cons arg rest ih =>
    obtain ⟨harg, hrest⟩ := List.forall_mem_cons.mp h
    refine effect_bind (effect_argumentShape harg) ?_
    rw [Graph.declaredShapes]
    cases g.declaredShape? arg with
    | none => exact ih hrest
    | some shape => exact ih hrest

theorem effect_inputShapes (h : ∀ arg ∈ c.args, Shown g view arg) :
    (inputShapes.onCall g id c ()).effect inputShapes.access id view =
      ⟨[(FieldName.inputShapes, .map (g.declaredShapes c.args 0 ∅).entries)], [], .ok ()⟩ :=
  effect_bind (effect_gatherShapes h) (effect_write rfl)

theorem effect_attr (key : String) :
    ((attr key).onCall g id c ()).effect (attr key).access id view =
      ⟨((intsAttr? key c).map fun v => (key, v)).toList, attrAnomalies key id c, .ok ()⟩ := by
  have hcovered : (attr key).access.writeError? key .seq = none := by
    simp [attr, extractor, Access.writeError?, Access.owned?]
  rw [intsAttr?, attrAnomalies]
  cases hattr : c.attrs.get? key with
  | none =>
    simp only [attr, extractor, hattr]
    rfl
  | some a =>
    cases hints : a.toInts with
    | none =>
      simp only [attr, extractor, hattr, hints, Option.bind_some]
      exact effect_report _
    | some is =>
      have hcall : (attr key).onCall g id c () = Hook.write key (.ofInts is) := by
        simp only [attr, extractor, hattr, hints]
      simp only [hcall, hints, Option.bind_some, Option.map_some]
      exact effect_write hcovered

theorem effect_histogram (field : String) :
    ((histogram field).onCall g id c ()).effect (histogram field).access id view =
      ⟨[], [], .ok ()⟩ := rfl

end Pass

end GraphSurvey
