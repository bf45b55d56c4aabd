import GraphSurvey.Config.Basic
import GraphSurvey.Proofs.Pipeline.Configured
import GraphSurvey.Proofs.Schedule.Admission
import Mathlib

/-!
# Which configurations have a pipeline

A configuration asks for the passes that are always there, for one pass for every attribute, and for
a histogram. The only field that is read before the histogram is the shape of the result, which is
always there, and so the passes never form a cycle. They are refused if the fields are not distinct,
or else if the histogram reads a field that none of them writes.

## Main definitions

* `GraphSurvey.Pass.declarations` — the fields with the passes that write them.
* `GraphSurvey.Pass.FirstTaken` — the first attribute whose field is already written.
* `GraphSurvey.Pass.firstOwner` — the pass that writes it.

## Main results

* `GraphSurvey.Pipeline.declared_configured` — what the passes declare.
* `GraphSurvey.Pipeline.firstTaken_of_firstRepeated` — which field is declared again.
* `GraphSurvey.Pipeline.orderable_configured_iff` — when the passes can be put into an order.
* `GraphSurvey.Config.pipeline_accepted_or_fault` — which configurations have a pipeline, and what
  is said of the others.
-/

namespace GraphSurvey

open Schedule

/-! ## Declared fields -/

namespace Pass

/-- The fields that are always there, with their passes. -/
def standing : List (String × Pass) :=
  [(FieldName.op, opName), (FieldName.index, visitIndex), (FieldName.outputShape, outputShape),
    (FieldName.inputShapes, inputShapes)]

/-- The field of an attribute, with its pass. -/
def attrDeclaration (key : String) : String × Pass := (key, attr key)

/-- The declared fields with their passes, in the order of declaration. -/
def declarations (attributes : List String) : List (String × Pass) :=
  standing ++ attributes.map attrDeclaration

/-- The attribute is the first one whose field is always there or is that of an earlier one. -/
def FirstTaken (attributes : List String) (key : String) : Prop :=
  ∃ before after, attributes = before ++ key :: after ∧ (reserved ++ before).Nodup ∧
    key ∈ reserved ++ before

/-- The pass that writes a field first: the one that is always there, or else that of the
attribute. -/
def firstOwner (field : String) : Pass :=
  match standing.find? fun e => e.1 = field with
  | some e => e.2
  | none => attr field

variable {attributes : List String} {field : String} {pass : Pass}

theorem map_fst_declarations (attributes : List String) :
    (declarations attributes).map Prod.fst = reserved ++ attributes := by
  rw [declarations, List.map_append, List.map_map]
  exact congrArg (reserved ++ ·) (List.map_id attributes)

theorem nodup_reserved : reserved.Nodup := by decide

/-- The fields are distinct if the attributes are, and none of them is always there. -/
theorem nodup_reserved_append_iff : (reserved ++ attributes).Nodup ↔
    attributes.Nodup ∧ ∀ key ∈ attributes, key ∉ reserved := by
  rw [List.nodup_append']
  refine ⟨fun ⟨_, hnodup, hdisjoint⟩ => ⟨hnodup, fun key hkey hmem => hdisjoint hmem hkey⟩,
    fun ⟨hnodup, hfree⟩ => ⟨nodup_reserved, hnodup, fun key hmem hkey => hfree key hkey hmem⟩⟩

/-- Of distinct fields, each is declared by its first owner. -/
theorem eq_firstOwner (hnodup : ((declarations attributes).map Prod.fst).Nodup)
    (h : (field, pass) ∈ declarations attributes) : pass = firstOwner field := by
  rw [firstOwner]
  split
  case h_1 e hfind =>
    have hfield : e.1 = field := by simpa using List.find?_some hfind
    have he : e ∈ declarations attributes :=
      List.mem_append_left _ (List.mem_of_find?_eq_some hfind)
    exact congrArg Prod.snd (List.inj_on_of_nodup_map hnodup h he hfield.symm)
  case h_2 hfind =>
    rcases List.mem_append.mp h with hmem | hmem
    · simpa using List.find?_eq_none.mp hfind _ hmem
    · obtain ⟨key, -, heq⟩ := List.mem_map.mp hmem
      obtain ⟨rfl, rfl⟩ := Prod.mk.inj heq
      rfl

/-- A field that is declared again after distinct ones is the first attribute that is taken. -/
theorem firstTaken_of_declarations {before after : List (String × Pass)}
    (h : declarations attributes = before ++ (field, pass) :: after)
    (hnodup : (before.map Prod.fst).Nodup) (hmem : field ∈ before.map Prod.fst) :
    pass = attr field ∧ ∃ front, FirstTaken attributes field ∧ before = declarations front := by
  -- the fields that are always there are distinct, so all of them stand before it
  obtain ⟨rest, rfl, hrest⟩ : ∃ rest, before = standing ++ rest ∧
      attributes.map attrDeclaration = rest ++ (field, pass) :: after := by
    rcases List.append_eq_append_iff.mp h with ⟨rest, hbefore, hrest⟩ | ⟨rest, hstanding, hrest⟩
    · exact ⟨rest, hbefore, hrest⟩
    · cases rest with
      | nil => exact ⟨[], by simpa using hstanding.symm, hrest.symm⟩
      | cons e rest =>
        obtain ⟨rfl, -⟩ := List.cons.inj hrest
        have hdistinct : (standing.map Prod.fst).Nodup := nodup_reserved
        rw [hstanding, List.map_append, List.map_cons] at hdistinct
        exact absurd (List.mem_append_left _ hmem) (List.nodup_middle.mp hdistinct).notMem
  obtain ⟨front, back, rfl, rfl, hback⟩ := List.map_eq_append_iff.mp hrest
  obtain ⟨key, tail, rfl, hkey, -⟩ := List.map_eq_cons_iff.mp hback
  obtain ⟨rfl, rfl⟩ := Prod.mk.inj hkey
  rw [← declarations, map_fst_declarations] at hnodup hmem
  exact ⟨rfl, front, ⟨front, tail, rfl, hnodup, hmem⟩, rfl⟩

end Pass

namespace Pipeline

open Pass

/-- The declared fields with the passes of the list that declare them. -/
theorem declared_map_get (passes : List Pass) :
    (declared (accesses passes)).map (fun e => (e.1, passes.get e.2)) =
      passes.flatMap fun pass => pass.access.writes.map fun decl => (decl.name, pass) := by
  conv_rhs => rw [← List.map_get_finRange passes, List.flatMap_map]
  rw [declared, List.map_flatMap]
  refine congrArg (List.flatMap · _) (funext fun i => ?_)
  rw [List.map_map]
  rfl

theorem declared_configured (attributes : List String) (histogramField : String) :
    (declared (accesses (configured attributes histogramField))).map
        (fun e => (e.1, (configured attributes histogramField).get e.2)) =
      declarations attributes := by
  rw [declared_map_get, configured, List.flatMap_append, List.flatMap_append, List.flatMap_map,
    declarations, List.map_eq_flatMap]
  exact List.append_nil _

variable {attributes : List String} {histogramField field : String}

theorem map_fst_declared_configured (attributes : List String) (histogramField : String) :
    (declared (accesses (configured attributes histogramField))).map Prod.fst =
      reserved ++ attributes := by
  rw [← map_fst_declarations, ← declared_configured attributes histogramField, List.map_map]
  rfl

/-- A field that is declared again is that of the first attribute that is taken. -/
theorem firstTaken_of_firstRepeated
    {first second : Fin (configured attributes histogramField).length}
    (h : FirstRepeated (accesses (configured attributes histogramField)) field first second) :
    FirstTaken attributes field ∧
      (configured attributes histogramField).get first = firstOwner field ∧
      (configured attributes histogramField).get second = attr field := by
  obtain ⟨before, after, heq, hnodup, hmem⟩ := h
  have hpairs := declared_configured attributes histogramField
  rw [heq, List.map_append, List.map_cons] at hpairs
  have hfst : (before.map fun e => (e.1, (configured attributes histogramField).get e.2)).map
      Prod.fst = before.map Prod.fst := by
    rw [List.map_map]
    rfl
  have hfield : field ∈ before.map Prod.fst := List.mem_map_of_mem hmem
  rw [← hfst] at hnodup hfield
  obtain ⟨hsecond, front, htaken, hfront⟩ := firstTaken_of_declarations hpairs.symm hnodup hfield
  rw [hfront] at hnodup
  exact ⟨htaken, eq_firstOwner hnodup (hfront ▸ List.mem_map_of_mem hmem), hsecond⟩

/-! ## Fields that are read -/

/-- A pass reads a field that no pass writes only if it is the histogram. -/
theorem eq_histogram_of_unmet {pass : Pass} (hpass : pass ∈ configured attributes histogramField)
    (hread : field ∈ pass.access.reads)
    (hunmet : ∀ owner ∈ configured attributes histogramField, ¬ owner.access.Owns field) :
    pass = histogram histogramField ∧ field = histogramField := by
  rcases mem_configured_iff.mp hpass with rfl | rfl | rfl | rfl | ⟨key, -, rfl⟩ | rfl
  · cases hread
  · cases hread
  · cases hread
  · obtain rfl : field = FieldName.outputShape := List.mem_singleton.mp hread
    exact absurd (owns_outputShape_iff.mpr rfl) (hunmet outputShape (by simp [mem_configured_iff]))
  · cases hread
  · exact ⟨rfl, List.mem_singleton.mp hread⟩

/-- The fields that the passes write are those that are always there and those of the attributes. -/
theorem exists_owner_iff (histogramField : String) : (∃ pass ∈ configured attributes histogramField,
    pass.access.Owns field) ↔ field ∈ reserved ++ attributes := by
  refine ⟨?_, exists_owner_of_mem histogramField⟩
  rintro ⟨pass, hpass, hown⟩
  obtain ⟨o, rfl⟩ := List.mem_iff_get.mp hpass
  rw [← map_fst_declared_configured attributes histogramField]
  exact List.mem_map_of_mem (mem_declared_iff.mpr (get_owns_iff.mp hown))

theorem met_configured_iff :
    Met (configured attributes histogramField) ↔ histogramField ∈ reserved ++ attributes := by
  rw [← exists_owner_iff histogramField]
  constructor
  · intro hmet
    exact hmet (histogram histogramField) (by simp [mem_configured_iff]) _ List.mem_cons_self
  · intro howner pass hpass field hread
    by_contra hunmet
    push Not at hunmet
    obtain ⟨-, rfl⟩ := eq_histogram_of_unmet hpass hread hunmet
    obtain ⟨owner, hmem, hown⟩ := howner
    exact hunmet owner hmem hown

/-- The passes can be put into an order exactly if their fields are distinct and the histogram reads
one of them. -/
theorem orderable_configured_iff :
    Orderable (accesses (configured attributes histogramField)) ↔
      (reserved ++ attributes).Nodup ∧ histogramField ∈ reserved ++ attributes := by
  rw [← met_configured_iff, ← map_fst_declared_configured attributes histogramField]
  refine ⟨fun h => ⟨h.once, met_iff.mpr h.met⟩, fun ⟨honce, hmet⟩ => ?_⟩
  refine orderable_of_readsEarlier honce hmet (readsEarlier_configured histogramField ?_)
  rw [map_fst_declared_configured] at honce
  exact (nodup_reserved_append_iff.mp honce).2

end Pipeline

/-! ## Configurations -/

namespace Config

open Pass

variable {c : Config}

theorem pipeline_eq_ok_iff {p : Pipeline} :
    c.pipeline = .ok p ↔ Pipeline.ofPasses (configured c.attributes c.histogramField) = .ok p := by
  rw [pipeline]
  split <;> simp [*]

theorem pipeline_eq_error {e : AnalysisError}
    (h : Pipeline.ofPasses (configured c.attributes c.histogramField) = .error e) :
    c.pipeline = .error (.analysis e) := by
  rw [pipeline, h]

/-- If the fields are not distinct, the error names the first attribute that is taken. -/
theorem exists_firstTaken (h : ¬ (reserved ++ c.attributes).Nodup) :
    ∃ key, FirstTaken c.attributes key ∧ c.pipeline =
      .error (.analysis (.duplicateField key (firstOwner key).name (attr key).name)) := by
  rw [← Pipeline.map_fst_declared_configured c.attributes c.histogramField] at h
  obtain ⟨key, first, second, hrepeated, herror⟩ := Pipeline.exists_duplicateField h
  obtain ⟨htaken, hfirst, hsecond⟩ := Pipeline.firstTaken_of_firstRepeated hrepeated
  rw [hfirst, hsecond] at herror
  exact ⟨key, htaken, pipeline_eq_error herror⟩

/-- If the fields are distinct and the histogram reads none of them, the error names it. -/
theorem pipeline_of_not_mem (honce : (reserved ++ c.attributes).Nodup)
    (h : c.histogramField ∉ reserved ++ c.attributes) :
    c.pipeline = .error (.analysis
      (.unmetDependency (histogram c.histogramField).name c.histogramField)) := by
  rw [← Pipeline.map_fst_declared_configured c.attributes c.histogramField] at honce
  obtain ⟨i, field, ⟨hunmet, ⟨before, after, hreads, -⟩, -⟩, herror⟩ :=
    Pipeline.exists_unmetDependency honce
      (mt (fun hmet => Pipeline.met_configured_iff.mp (Pipeline.met_iff.mpr hmet)) h)
  have hread : field ∈ ((configured c.attributes c.histogramField).get i).access.reads :=
    hreads ▸ List.mem_append_right _ List.mem_cons_self
  have hnone (owner) (howner : owner ∈ configured c.attributes c.histogramField) :
      ¬ owner.access.Owns field := by
    obtain ⟨o, rfl⟩ := List.mem_iff_get.mp howner
    exact hunmet o
  obtain ⟨hpass, rfl⟩ := Pipeline.eq_histogram_of_unmet (List.get_mem _ i) hread hnone
  rw [hpass] at herror
  exact pipeline_eq_error herror

/-- A configuration has a pipeline exactly if its attributes are distinct, none of them is the field
of a pass that is always there, and the histogram reads one of these fields or one of the
attributes. The passes then run in the order in which they are listed. If the attributes are not so,
the error names the first one whose field is already written, with the pass that writes it. Else it
names the field of the histogram. It never is about a cycle. -/
theorem pipeline_accepted_or_fault (c : Config) :
    ((∃ p, c.pipeline = .ok p) ↔
      c.attributes.Nodup ∧ (∀ key ∈ c.attributes, key ∉ reserved) ∧
        c.histogramField ∈ reserved ++ c.attributes) ∧
    (∀ p, c.pipeline = .ok p → p.passes =
      [opName, visitIndex, outputShape, inputShapes] ++ c.attributes.map attr ++
        [histogram c.histogramField]) ∧
    (¬ (c.attributes.Nodup ∧ ∀ key ∈ c.attributes, key ∉ reserved) →
      ∃ key, FirstTaken c.attributes key ∧ c.pipeline =
        .error (.analysis (.duplicateField key (firstOwner key).name (attr key).name))) ∧
    (c.attributes.Nodup ∧ (∀ key ∈ c.attributes, key ∉ reserved) →
      c.histogramField ∉ reserved ++ c.attributes → c.pipeline =
        .error (.analysis (.unmetDependency (histogram c.histogramField).name c.histogramField))) ∧
    ∀ pass, c.pipeline ≠ .error (.analysis (.dependencyCycle pass)) := by
  have haccepted : (∃ p, c.pipeline = .ok p) ↔
      (reserved ++ c.attributes).Nodup ∧ c.histogramField ∈ reserved ++ c.attributes := by
    simp only [pipeline_eq_ok_iff, Pipeline.exists_ofPasses_iff,
      Pipeline.orderable_configured_iff]
  refine ⟨?_, fun p hp => ?_, fun h => ?_, fun hnodup h => ?_, fun pass hcycle => ?_⟩
  · rw [haccepted, nodup_reserved_append_iff, and_assoc]
  · exact Pipeline.passes_configured (pipeline_eq_ok_iff.mp hp)
  · exact exists_firstTaken (mt nodup_reserved_append_iff.mp h)
  · exact pipeline_of_not_mem (nodup_reserved_append_iff.mpr hnodup) h
  · by_cases hnodup : (reserved ++ c.attributes).Nodup
    · by_cases hmem : c.histogramField ∈ reserved ++ c.attributes
      · obtain ⟨p, hp⟩ := haccepted.mpr ⟨hnodup, hmem⟩
        cases hp.symm.trans hcycle
      · cases (pipeline_of_not_mem hnodup hmem).symm.trans hcycle
    · obtain ⟨key, -, hfault⟩ := exists_firstTaken hnodup
      cases hfault.symm.trans hcycle

/-- The field of an attribute may be counted. -/
example : { standard with attributes := ["groups"], histogramField := "groups" : Config
    }.pipeline.toOption.map Pipeline.passNames =
      some ["op_name", "visit_index", "output_shape", "input_shapes", "attribute:groups",
        "histogram:groups"] := by cbv

end Config

end GraphSurvey
