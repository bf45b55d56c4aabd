import GraphSurvey.Pass.Access
import GraphSurvey.Proofs.Detail.Store
import Mathlib

/-!
# Effects of hooks

What a pass does at a node is settled by what the fields that it may read hold: the fields that it
sets, the anomalies that it raises and how it ends. Running the hook sets these fields and reports
these anomalies, and that is all it does.

## Main definitions

* `GraphSurvey.Access.Owns`, `GraphSurvey.Access.MayRead` — the fields that a pass may touch.
* `GraphSurvey.Hook.effect` — what a hook does, as a function of what the fields hold.

## Main results

* `GraphSurvey.Hook.run_eq` — running a hook has its effect.
* `GraphSurvey.Hook.effect_congr` — an effect depends on the fields that may be read, and on no
  others.
* `GraphSurvey.Hook.effect_bind` — the effect of one program after the other.
* `GraphSurvey.Hook.writeError?_of_mem_writes` — every field that is set is covered by the
  declarations.
-/

namespace GraphSurvey

namespace Access

variable {a : Access} {field : String}

/-- The pass writes the field. -/
def Owns (a : Access) (field : String) : Prop := ∃ decl ∈ a.writes, decl.name = field

/-- The pass may read the field. -/
def MayRead (a : Access) (field : String) : Prop := a.Owns field ∨ field ∈ a.reads

theorem owned?_isSome_iff : (a.owned? field).isSome ↔ a.Owns field := by
  simp [owned?, Owns]

theorem readError?_eq_none_iff : a.readError? field = none ↔ a.MayRead field := by
  rw [readError?, MayRead, ← owned?_isSome_iff]
  split
  case isTrue h => exact iff_of_true rfl h
  case isFalse h => exact iff_of_false (by simp) h

theorem writeError?_eq_none_iff {kind : ValueKind} :
    a.writeError? field kind = none ↔ ∃ decl, a.owned? field = some decl ∧ decl.kind = kind := by
  rw [writeError?]
  cases a.owned? field with
  | none => simp
  | some decl => simp

/-- A field that may be set is one of the pass. -/
theorem owns_of_writeError? {kind : ValueKind} (h : a.writeError? field kind = none) :
    a.Owns field := by
  obtain ⟨decl, hdecl, -⟩ := writeError?_eq_none_iff.mp h
  rw [← owned?_isSome_iff, hdecl]
  rfl

/-- A value that may be set has the kind that is declared. -/
theorem kind_of_writeError? {kind : ValueKind} (hnodup : (a.writes.map FieldDecl.name).Nodup)
    (h : a.writeError? field kind = none) {decl : FieldDecl} (hdecl : decl ∈ a.writes)
    (hname : decl.name = field) : decl.kind = kind := by
  obtain ⟨first, hfirst, hkind⟩ := writeError?_eq_none_iff.mp h
  have hfound : first.name = field := by simpa using List.find?_some hfirst
  have heq : decl = first :=
    List.inj_on_of_nodup_map hnodup hdecl (List.mem_of_find?_eq_some hfirst)
      (hname.trans hfound.symm)
  rw [heq, hkind]

end Access

/-- What a hook does: the fields it sets, in order, the anomalies it raises, and how it ends. -/
structure Effect (α : Type) where
  writes : List (String × Value)
  raised : List Anomaly
  result : Except AnalysisError α

namespace Hook

variable {α : Type} {a : Access} {id : NodeId}

/-- What the hook does at a node if the fields hold what the view says. -/
def effect (a : Access) (id : NodeId) : Hook α → View → Effect α
  | .done r, _ => ⟨[], [], .ok r⟩
  | .fail e, _ => ⟨[], [], .error e⟩
  | .set field v next, view =>
    match a.writeError? field v.kind with
    | none =>
      let later := (next none).effect a id (view.record id field v)
      { later with writes := (field, v) :: later.writes }
    | some e => (next (some e)).effect a id view
  | .get other field next, view =>
    match a.readError? field with
    | none => (next (.ok (view other field))).effect a id view
    | some e => (next (.error e)).effect a id view
  | .anomaly message next, view =>
    let later := next.effect a id view
    { later with raised := ⟨id, a.pass, message⟩ :: later.raised }

/-- Running a hook has its effect. -/
theorem run_eq (h : Hook α) (s : DetailStore) (anomalies : List Anomaly) :
    h.run a id ⟨s, anomalies⟩ =
      (⟨s.recordAll id (h.effect a id s.field?).writes,
        anomalies ++ (h.effect a id s.field?).raised⟩, (h.effect a id s.field?).result) := by
  induction h generalizing s anomalies with
  | done r => simp [run, effect, DetailStore.recordAll]
  | fail e => simp [run, effect, DetailStore.recordAll]
  | set field v next ih =>
    rw [run, effect]
    cases a.writeError? field v.kind with
    | none =>
      simp only [ih, DetailStore.field?_record]
      rfl
    | some e => exact ih (some e) s anomalies
  | get other field next ih =>
    rw [run, effect]
    cases a.readError? field with
    | none => exact ih (.ok (s.field? other field)) s anomalies
    | some e => exact ih (.error e) s anomalies
  | anomaly message next ih =>
    rw [run, effect]
    simp only [ih, List.append_assoc, List.singleton_append]

/-- What a hook does depends on what the fields hold that it may read, and on nothing else. -/
theorem effect_congr (h : Hook α) {view view' : View}
    (hview : ∀ field, a.MayRead field → ∀ other, view other field = view' other field) :
    h.effect a id view = h.effect a id view' := by
  induction h generalizing view view' with
  | done r => rfl
  | fail e => rfl
  | set field v next ih =>
    rw [effect, effect]
    cases a.writeError? field v.kind with
    | none =>
      have hlater : (next none).effect a id (view.record id field v) =
          (next none).effect a id (view'.record id field v) :=
        ih none fun name hname other => View.record_congr v field (hview name hname other)
      simp only [hlater]
    | some e => exact ih (some e) hview
  | get other field next ih =>
    rw [effect, effect]
    cases hread : a.readError? field with
    | none =>
      simp only [hview field (Access.readError?_eq_none_iff.mp hread) other]
      exact ih _ hview
    | some e => exact ih (.error e) hview
  | anomaly message next ih =>
    rw [effect, effect]
    simp only [ih hview]

/-- Every field that is set is covered by the declarations. -/
theorem writeError?_of_mem_writes {h : Hook α} {view : View} {w : String × Value}
    (hw : w ∈ (h.effect a id view).writes) : a.writeError? w.1 w.2.kind = none := by
  induction h generalizing view with
  | done r => cases hw
  | fail e => cases hw
  | set field v next ih =>
    rw [effect] at hw
    split at hw
    case h_1 hcovered =>
      rcases List.mem_cons.mp hw with rfl | hw
      · exact hcovered
      · exact ih none hw
    case h_2 e _ => exact ih (some e) hw
  | get other field next ih =>
    rw [effect] at hw
    split at hw
    case h_1 => exact ih _ hw
    case h_2 e _ => exact ih (.error e) hw
  | anomaly message next ih => exact ih hw

/-- A hook changes no field that the pass does not own. -/
theorem recordAll_effect_of_not_owns {h : Hook α} {view view' : View} {other : NodeId}
    {field : String} (hfield : ¬ a.Owns field) :
    view'.recordAll id (h.effect a id view).writes other field = view' other field := by
  refine View.recordAll_of_not_written fun w hw heq => hfield ?_
  subst heq
  exact Access.owns_of_writeError? (writeError?_of_mem_writes hw)

/-! ## Programs made of others -/

variable {β : Type} {view : View}

/-- A program that is followed by another has the effects of both, one after the other. -/
theorem effect_bind {h : Hook α} {f : α → Hook β} {r : α} {first later : List (String × Value)}
    {raised raised' : List Anomaly} {result : Except AnalysisError β}
    (hfirst : h.effect a id view = ⟨first, raised, .ok r⟩)
    (hlater : (f r).effect a id (view.recordAll id first) = ⟨later, raised', result⟩) :
    (h.bind f).effect a id view = ⟨first ++ later, raised ++ raised', result⟩ := by
  induction h generalizing view first raised with
  | done r' =>
    obtain ⟨rfl, rfl, hr⟩ := Effect.mk.inj hfirst
    obtain rfl := Except.ok.inj hr
    exact hlater
  | fail e => exact absurd (Effect.mk.inj hfirst).2.2 nofun
  | set field v next ih =>
    rw [bind, effect]
    rw [effect] at hfirst
    cases hcovered : a.writeError? field v.kind with
    | none =>
      simp only [hcovered] at hfirst ⊢
      obtain ⟨rfl, hraised, hresult⟩ := Effect.mk.inj hfirst
      have hnext : (next none).effect a id (view.record id field v) =
          ⟨((next none).effect a id (view.record id field v)).writes, raised, .ok r⟩ := by
        rw [← hraised, ← hresult]
      rw [ih none hnext hlater]
      rfl
    | some e =>
      simp only [hcovered] at hfirst ⊢
      exact ih (some e) hfirst hlater
  | get other field next ih =>
    rw [bind, effect]
    rw [effect] at hfirst
    cases hread : a.readError? field with
    | none =>
      simp only [hread] at hfirst ⊢
      exact ih _ hfirst hlater
    | some e =>
      simp only [hread] at hfirst ⊢
      exact ih (.error e) hfirst hlater
  | anomaly message next ih =>
    rw [bind, effect]
    rw [effect] at hfirst
    obtain ⟨hwrites, rfl, hresult⟩ := Effect.mk.inj hfirst
    have hnext : next.effect a id view = ⟨first, (next.effect a id view).raised, .ok r⟩ := by
      rw [← hwrites, ← hresult]
    rw [ih hnext hlater]
    rfl

/-- A field that may be set is set. -/
theorem effect_write {field : String} {v : Value} (h : a.writeError? field v.kind = none) :
    (write field v).effect a id view = ⟨[(field, v)], [], .ok ()⟩ := by
  simp only [write, effect, h]

/-- A field that may be read is read. -/
theorem effect_read {other : NodeId} {field : String} (h : a.MayRead field) :
    (read other field).effect a id view = ⟨[], [], .ok (view other field)⟩ := by
  simp only [read, effect, Access.readError?_eq_none_iff.mpr h]

theorem effect_report (message : String) :
    (report message).effect a id view = ⟨[], [⟨id, a.pass, message⟩], .ok ()⟩ := rfl

end Hook

end GraphSurvey
