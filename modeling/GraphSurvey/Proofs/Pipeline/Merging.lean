import GraphSurvey.Pass.Standard
import GraphSurvey.Proofs.Dictionary
import GraphSurvey.Proofs.Pipeline.Logging
import Mathlib

/-!
# Merging summaries

When the visits of a run are over, every pass may produce a fragment of the summary. The fragments
are merged in the order of the passes. If no two of them have a field in common, the summary is
their union. Otherwise the run fails at the first fragment that has a field of an earlier one, and
of its fields that were produced before, the least is blamed, with the only pass that produced it.

## Main definitions

* `GraphSurvey.Fragment`, `GraphSurvey.Pipeline.Progress.fragments` — what the passes produce.
* `GraphSurvey.Pipeline.Merged` — the fields produced by some fragments, each with its pass.
* `GraphSurvey.Pipeline.Collides` — the first fragment that has a field of an earlier one.

## Main results

* `GraphSurvey.Pipeline.Merged.mergeFields_of_apart`,
  `GraphSurvey.Pipeline.Merged.mergeFields_of_shared` — what one more fragment does.
* `GraphSurvey.Pipeline.run_merges` — what a run makes of the fragments.
-/

namespace GraphSurvey

/-- The fields of a summary that one pass produces. -/
structure Fragment where
  pass : String
  fields : Summary

/-- The fragments have no field in common. -/
def Fragment.Apart (e f : Fragment) : Prop := e.fields.names.Disjoint f.fields.names

namespace Pipeline

/-- What the passes say of a graph, in their order. -/
def fragments (details : DetailStore) (rs : List Pass.Running) : List Fragment :=
  rs.filterMap fun r =>
    (r.pass.onSummarize r.state details).map fun fields => ⟨r.pass.name, fields⟩

/-- The fragments that a run merges when its visits are over. -/
def Progress.fragments (s : Progress) : List Fragment :=
  Pipeline.fragments s.notes.store s.passes

/-- All visits of a run succeed. -/
def Traverses (p : Pipeline) (g : Graph) : Prop := (g.walk .graph (visit g) p.start).error = none

/-! ## One fragment -/

section Fields

variable {pass first field : String} {produced : Produced} {entries : List (String × Value)}

/-- Fields that are distinct and were not produced before are produced. -/
theorem mergeFields_eq_insertAll (pass : String) (hnodup : (entries.map Prod.fst).Nodup)
    (hnew : ∀ e ∈ entries, produced.get? e.1 = none) :
    mergeFields pass entries produced =
      .ok (produced.insertAll (entries.map fun e => (e.1, (e.2, pass)))) := by
  induction entries generalizing produced with
  | nil => rfl
  | cons e rest ih =>
    obtain ⟨field, value⟩ := e
    obtain ⟨hfield, hrest⟩ := List.nodup_cons.mp hnodup
    rw [mergeFields, hnew (field, value) List.mem_cons_self]
    refine ih hrest fun e he => ?_
    have hne : e.1 ≠ field := by
      have hmem : e.1 ∈ rest.map Prod.fst := List.mem_map_of_mem he
      rintro rfl
      exact hfield hmem
    rw [Dictionary.get?_insert_of_ne hne]
    exact hnew e (List.mem_cons_of_mem _ he)

/-- The first field that was produced before is blamed, with the pass that produced it. -/
theorem mergeFields_eq_error {before after : List (String × Value)} {v w : Value}
    (hnodup : ((before ++ (field, v) :: after).map Prod.fst).Nodup)
    (hnew : ∀ e ∈ before, produced.get? e.1 = none) (hold : produced.get? field = some (w, first)) :
    mergeFields pass (before ++ (field, v) :: after) produced =
      .error (.summaryCollision field first pass) := by
  induction before generalizing produced with
  | nil => rw [List.nil_append, mergeFields, hold]
  | cons e rest ih =>
    obtain ⟨name, value⟩ := e
    rw [List.cons_append, List.map_cons, List.nodup_cons] at hnodup
    obtain ⟨hname, hrest⟩ := hnodup
    have hlater : ∀ e ∈ rest ++ (field, v) :: after, e.1 ≠ name := by
      rintro e he rfl
      exact hname (List.mem_map.mpr ⟨e, he, rfl⟩)
    rw [List.cons_append, mergeFields, hnew (name, value) List.mem_cons_self]
    refine ih hrest (fun e he => ?_) ?_
    · rw [Dictionary.get?_insert_of_ne (hlater e (List.mem_append_left _ he))]
      exact hnew e (List.mem_cons_of_mem _ he)
    · rwa [Dictionary.get?_insert_of_ne (hlater (field, v) (by simp))]

/-- A field of the summary is one that was produced. -/
theorem get?_summaryOf (produced : Produced) (field : String) :
    (summaryOf produced).get? field = (produced.get? field).map Prod.fst := by
  rw [summaryOf, Dictionary.ofList_eq_insertAll, Dictionary.get?_insertAll_map]

end Fields

/-! ## Fragments one after the other -/

/-- No two of the fragments have a field in common, and their fields are those that were produced,
each with its pass. -/
structure Merged (fs : List Fragment) (produced : Produced) : Prop where
  apart : fs.Pairwise Fragment.Apart
  produces : ∀ field v pass, produced.get? field = some (v, pass) ↔
    ∃ f ∈ fs, f.pass = pass ∧ f.fields.get? field = some v

/-- The second fragment is the first that has a field of an earlier one. The field is the least of
these fields, and no other earlier fragment has it than the first one. -/
structure Collides (earlier : List Fragment) (first : Fragment) (between : List Fragment)
    (second : Fragment) (field : String) : Prop where
  apart : (earlier ++ first :: between).Pairwise Fragment.Apart
  produced : field ∈ first.fields.names
  again : field ∈ second.fields.names
  only : ∀ f ∈ earlier ++ between, field ∉ f.fields.names
  least : ∀ name ∈ second.fields.names, name < field →
    ∀ f ∈ earlier ++ first :: between, name ∉ f.fields.names

variable {fs : List Fragment} {f : Fragment} {produced : Produced} {field : String}

theorem merged_nil : Merged [] ∅ where
  apart := List.Pairwise.nil
  produces field v pass := by simp

/-- What no fragment has was not produced. -/
theorem Merged.get?_eq_none_iff (h : Merged fs produced) :
    produced.get? field = none ↔ ∀ f ∈ fs, field ∉ f.fields.names := by
  constructor
  · intro hnone f hf hfield
    obtain ⟨v, hv⟩ := Option.isSome_iff_exists.mp (Dictionary.mem_names_iff.mp hfield)
    have hsome := (h.produces field v f.pass).mpr ⟨f, hf, rfl, hv⟩
    rw [hnone] at hsome
    cases hsome
  · intro hnew
    rw [Option.eq_none_iff_forall_not_mem]
    rintro ⟨v, pass⟩ hsome
    obtain ⟨f, hf, -, hv⟩ := (h.produces field v pass).mp hsome
    exact hnew f hf (Dictionary.mem_names_iff.mpr (Option.isSome_of_mem hv))

/-- A fragment without a field of those before is merged with them. -/
theorem Merged.mergeFields_of_apart (h : Merged fs produced) (hf : ∀ e ∈ fs, e.Apart f) :
    ∃ all, mergeFields f.pass f.fields.entries produced = .ok all ∧ Merged (fs ++ [f]) all := by
  have hnew : ∀ field ∈ f.fields.names, produced.get? field = none := fun field hfield =>
    h.get?_eq_none_iff.mpr fun e he hmem => hf e he hmem hfield
  refine ⟨_, mergeFields_eq_insertAll f.pass f.fields.increasing.nodup fun e he =>
    hnew e.1 (List.mem_map_of_mem he), ?_, fun field v pass => ?_⟩
  · exact List.pairwise_append.mpr ⟨h.apart, List.pairwise_singleton _ _, by simpa using hf⟩
  · rw [Dictionary.get?_insertAll_entries produced f.fields fun v => (v, f.pass)]
    cases hv : f.fields.get? field with
    | none => simp [h.produces, hv, or_and_right, exists_or]
    | some w =>
      -- the field is the fragment's own, so none of those before has it
      have hfield : field ∈ f.fields.names := Dictionary.mem_names_iff.mpr (by rw [hv]; rfl)
      have hbefore : ∀ e ∈ fs, e.fields.get? field ≠ some v := fun e he heq =>
        hf e he (Dictionary.mem_names_iff.mpr (by rw [heq]; rfl)) hfield
      simp only [Option.map_some, Option.some_or, Option.some.injEq, Prod.mk.injEq,
        List.mem_append, List.mem_singleton]
      constructor
      · rintro ⟨rfl, rfl⟩
        exact ⟨f, .inr rfl, rfl, hv⟩
      · rintro ⟨e, he | rfl, rfl, heq⟩
        · exact absurd heq (hbefore e he)
        · exact ⟨Option.some.inj (hv.symm.trans heq), rfl⟩

/-- A fragment with a field of those before collides with the one that has the least such field. -/
theorem Merged.mergeFields_of_shared (h : Merged fs produced) (hf : ¬ ∀ e ∈ fs, e.Apart f) :
    ∃ earlier first between field, fs = earlier ++ first :: between ∧
      Collides earlier first between f field ∧
      mergeFields f.pass f.fields.entries produced =
        .error (.summaryCollision field first.pass f.pass) := by
  -- the first of the fields, which increase, that was produced before
  have hshared : (f.fields.entries.find? fun e => (produced.get? e.1).isSome).isSome := by
    rw [List.find?_isSome]
    simp only [Fragment.Apart, List.Disjoint, not_forall, not_false_eq_true] at hf
    obtain ⟨e, he, name, hname, hmem, -⟩ := hf
    obtain ⟨entry, hentry, rfl⟩ := List.mem_map.mp hmem
    refine ⟨entry, hentry, ?_⟩
    rw [Option.isSome_iff_ne_none]
    exact fun hnone => h.get?_eq_none_iff.mp hnone e he hname
  obtain ⟨⟨field, v⟩, hfound⟩ := Option.isSome_iff_exists.mp hshared
  obtain ⟨hold, before, after, hentries, hbefore⟩ := List.find?_eq_some_iff_append.mp hfound
  obtain ⟨⟨w, pass⟩, hw⟩ := Option.isSome_iff_exists.mp hold
  obtain ⟨first, hfirst, rfl, hvalue⟩ := (h.produces field w pass).mp hw
  obtain ⟨earlier, between, rfl⟩ := List.append_of_mem hfirst
  have hnames : f.fields.names = before.map Prod.fst ++ field :: after.map Prod.fst := by
    rw [Dictionary.names, hentries, List.map_append, List.map_cons]
  have hnew : ∀ e ∈ before, produced.get? e.1 = none := fun e he => by
    simpa using hbefore e he
  have hincreasing : (before.map Prod.fst ++ field :: after.map Prod.fst).Pairwise (· < ·) := by
    rw [← hnames]
    exact List.pairwise_map.mpr f.fields.increasing
  have hfield : field ∈ first.fields.names := Dictionary.mem_names_iff.mpr (by rw [hvalue]; rfl)
  refine ⟨earlier, first, between, field, rfl, ⟨h.apart, hfield, ?_, ?_, ?_⟩, ?_⟩
  · rw [hnames]
    exact List.mem_append_right _ List.mem_cons_self
  · -- fragments that are apart from the first one do not have its field
    obtain ⟨-, hbetween, hacross⟩ := List.pairwise_append.mp h.apart
    intro e he hmem
    rcases List.mem_append.mp he with he | he
    · exact hacross e he first List.mem_cons_self hmem hfield
    · exact (List.pairwise_cons.mp hbetween).1 e he hfield hmem
  · intro name hname hlt
    refine h.get?_eq_none_iff.mp ?_
    rw [hnames] at hname
    rcases List.mem_append.mp hname with hname | hname
    · obtain ⟨e, he, rfl⟩ := List.mem_map.mp hname
      exact hnew e he
    · -- the fields behind are greater
      rcases List.mem_cons.mp hname with rfl | hname
      · exact absurd hlt (String.lt_irrefl _)
      · have hrest := (List.pairwise_append.mp hincreasing).2.1
        exact absurd hlt (String.lt_asymm ((List.pairwise_cons.mp hrest).1 name hname))
  · rw [hentries]
    refine mergeFields_eq_error ?_ hnew hw
    rw [← hentries]
    exact f.fields.increasing.nodup

theorem mergeSummaries_cons {details : DetailStore} {r : Pass.Running} {rest : List Pass.Running}
    {fragment : Summary} {all : Produced}
    (hr : r.pass.onSummarize r.state details = some fragment)
    (hall : mergeFields r.pass.name fragment.entries produced = .ok all) :
    mergeSummaries details (r :: rest) produced = mergeSummaries details rest all := by
  rw [mergeSummaries, hr]
  simp only [hall]

theorem mergeSummaries_cons_of_failed {details : DetailStore} {r : Pass.Running}
    {rest : List Pass.Running} {fragment : Summary} {e : AnalysisError}
    (hr : r.pass.onSummarize r.state details = some fragment)
    (he : mergeFields r.pass.name fragment.entries produced = .error e) :
    mergeSummaries details (r :: rest) produced = .error e := by
  rw [mergeSummaries, hr]
  simp only [he]

/-- Merging the fragments of some passes behind others: either all fields are produced, or there is
a collision, which is blamed. -/
theorem Merged.mergeSummaries (h : Merged fs produced) (details : DetailStore)
    (rs : List Pass.Running) :
    (∃ all, Pipeline.mergeSummaries details rs produced = .ok all ∧
      Merged (fs ++ fragments details rs) all) ∨
    ∃ earlier first between second later field,
      fs ++ fragments details rs = (earlier ++ first :: between) ++ second :: later ∧
      Collides earlier first between second field ∧
      Pipeline.mergeSummaries details rs produced =
        .error (.summaryCollision field first.pass second.pass) := by
  induction rs generalizing fs produced with
  | nil => exact .inl ⟨produced, rfl, by simpa [fragments] using h⟩
  | cons r rest ih =>
    cases hr : r.pass.onSummarize r.state details with
    | none =>
      have hfragments : fragments details (r :: rest) = fragments details rest :=
        List.filterMap_cons_none (by rw [hr]; rfl)
      rw [Pipeline.mergeSummaries, hr, hfragments]
      exact ih h
    | some fields =>
      let f : Fragment := ⟨r.pass.name, fields⟩
      have hfragments : fragments details (r :: rest) = f :: fragments details rest :=
        List.filterMap_cons_some (by rw [hr]; rfl)
      rw [hfragments]
      by_cases hf : ∀ e ∈ fs, e.Apart f
      · obtain ⟨all, hall, hmerged⟩ := h.mergeFields_of_apart hf
        rw [mergeSummaries_cons hr hall, List.append_cons]
        exact ih hmerged
      · obtain ⟨earlier, first, between, field, rfl, hcollides, herror⟩ :=
          h.mergeFields_of_shared hf
        exact .inr ⟨earlier, first, between, f, _, field, rfl, hcollides,
          mergeSummaries_cons_of_failed hr herror⟩

/-! ## Runs -/

/-- Where a fragment collides, the fragments are not all apart. -/
theorem Collides.not_pairwise {earlier between later : List Fragment} {first second : Fragment}
    (h : Collides earlier first between second field) :
    ¬ ((earlier ++ first :: between) ++ second :: later).Pairwise Fragment.Apart := by
  intro hall
  have hacross := (List.pairwise_append.mp hall).2.2
  exact hacross first (by simp) second List.mem_cons_self h.produced h.again

theorem run_of_traverses {p : Pipeline} {g : Graph} (h : p.Traverses g) :
    p.run g = conclude g (p.progress g) := by
  rw [Traverses] at h
  rw [run, progress]
  cases hw : g.walk .graph (visit g) p.start with
  | mk trail s failure =>
    rw [hw] at h
    obtain rfl : failure = none := h
    rfl

/-- What a run whose visits succeed makes of the fragments of its passes. It succeeds exactly if no
two fragments have a field in common, and then the fields of the summary are those of the fragments.
Otherwise it fails and names the least field that the first fragment with a field of an earlier one
has in common with those before, the pass that produced the field first, and that of the
fragment. -/
theorem run_merges {p : Pipeline} {g : Graph} (h : p.Traverses g) :
    ((∃ r, p.run g = .ok r) ↔ (p.progress g).fragments.Pairwise Fragment.Apart) ∧
    (∀ r, p.run g = .ok r → ∀ field v, r.summary.get? field = some v ↔
      ∃ f ∈ (p.progress g).fragments, f.fields.get? field = some v) ∧
    (¬ (p.progress g).fragments.Pairwise Fragment.Apart →
      ∃ earlier first between second later field,
        (p.progress g).fragments = (earlier ++ first :: between) ++ second :: later ∧
        Collides earlier first between second field ∧
        p.run g = .error (.summaryCollision field first.pass second.pass)) := by
  rw [run_of_traverses h, conclude]
  generalize p.progress g = s
  rcases merged_nil.mergeSummaries s.notes.store s.passes with
    ⟨all, hall, hmerged⟩ |
    ⟨earlier, first, between, second, later, field, hfragments, hcollides, herror⟩
  · rw [List.nil_append] at hmerged
    simp only [hall]
    refine ⟨⟨fun _ => hmerged.apart, fun _ => ⟨_, rfl⟩⟩, ?_, fun hnot => absurd hmerged.apart hnot⟩
    rintro r hr field v
    obtain rfl := Except.ok.inj hr
    rw [get?_summaryOf, Option.map_eq_some_iff]
    constructor
    · rintro ⟨⟨_, pass⟩, hfield, rfl⟩
      obtain ⟨f, hf, -, hv⟩ := (hmerged.produces field _ pass).mp hfield
      exact ⟨f, hf, hv⟩
    · rintro ⟨f, hf, hv⟩
      exact ⟨(v, f.pass), (hmerged.produces field v f.pass).mpr ⟨f, hf, rfl, hv⟩, rfl⟩
  · rw [List.nil_append] at hfragments
    have hnot : ¬ s.fragments.Pairwise Fragment.Apart := by
      rw [Progress.fragments, hfragments]
      exact hcollides.not_pairwise
    simp only [herror]
    refine ⟨⟨?_, fun hapart => absurd hapart hnot⟩, ?_, fun _ =>
      ⟨earlier, first, between, second, later, field, hfragments, hcollides, rfl⟩⟩
    · rintro ⟨r, hr⟩
      cases hr
    · intro r hr
      cases hr

/-- A pass that says the same of every graph. -/
def remark (name : String) (fields : List (String × Value)) : Pass where
  access := ⟨name, [], []⟩
  State := Unit
  start := ()
  onCall _ _ _ s := pure s
  onLeaf _ s := s
  onSummarize _ _ := some (Dictionary.ofList fields)

/-- A graph with one call. -/
def doubled : Graph where
  name := "doubled"
  nodes := #[⟨⟨0⟩, .var "x" .input (.tensor [4])⟩,
    ⟨⟨1⟩, .call (.plain "add" [⟨0⟩, ⟨0⟩] (.tensor [4]))⟩]
  outputs := [⟨1⟩]

/-- The operators are counted and two passes have something to add. -/
def remarked (second third : List (String × Value)) : Pipeline :=
  ⟨[.opName, .histogram FieldName.op, remark "second" second, remark "third" third]⟩

theorem run_merges_remarked :
    (∃ r, (remarked [("mul", .int 0)] [("zero", .int 0)]).run doubled = .ok r ∧
      r.summary.get? "zero" = some (.int 0) ∧
      ∃ f ∈ ((remarked [("mul", .int 0)] [("zero", .int 0)]).progress doubled).fragments,
        f.fields.get? "zero" = some (.int 0)) ∧
    ∃ earlier first between second later,
      ((remarked [("mul", .int 0)] [("mul", .int 2), ("add", .int 2), ("a", .int 2)]).progress
        doubled).fragments = (earlier ++ first :: between) ++ second :: later ∧
      Collides earlier first between second "add" ∧ first.pass = "histogram:op" ∧
      second.pass = "third" := by
  constructor
  · have htraverses : (remarked [("mul", .int 0)] [("zero", .int 0)]).Traverses doubled := by cbv
    have hzero : ((remarked [("mul", .int 0)] [("zero", .int 0)]).run doubled).toOption.map
        (fun r => r.summary.get? "zero") = some (some (.int 0)) := by cbv
    obtain ⟨-, hsummary, -⟩ := run_merges htraverses
    cases hr : (remarked [("mul", .int 0)] [("zero", .int 0)]).run doubled with
    | error e =>
      rw [hr] at hzero
      cases hzero
    | ok r =>
      rw [hr] at hzero
      have hfield := Option.some.inj hzero
      exact ⟨r, rfl, hfield, (hsummary r hr "zero" (.int 0)).mp hfield⟩
  · have htraverses : (remarked [("mul", .int 0)]
        [("mul", .int 2), ("add", .int 2), ("a", .int 2)]).Traverses doubled := by cbv
    have hrun : (remarked [("mul", .int 0)]
        [("mul", .int 2), ("add", .int 2), ("a", .int 2)]).run doubled =
          .error (.summaryCollision "add" "histogram:op" "third") := by cbv
    obtain ⟨hok, -, hfails⟩ := run_merges htraverses
    obtain ⟨earlier, first, between, second, later, field, hfragments, hcollides, herror⟩ :=
      hfails (mt hok.mpr (by rw [hrun]; simp))
    simp only [hrun, Except.error.injEq, AnalysisError.summaryCollision.injEq] at herror
    obtain ⟨rfl, hfirst, hsecond⟩ := herror
    exact ⟨earlier, first, between, second, later, hfragments, hcollides, hfirst.symm, hsecond.symm⟩

end Pipeline

end GraphSurvey
