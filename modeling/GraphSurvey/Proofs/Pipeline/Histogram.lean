import GraphSurvey.Proofs.Detail.Words
import GraphSurvey.Proofs.Pipeline.Configured
import Mathlib

/-!
# Histograms

The histogram of a field counts the nodes that hold each value under the words of the value, which
merges values with the same words. The standard passes record plain values of one kind in a field,
and their words tell these apart, so the summary of a run has one count for every value.

## Main definitions

* `GraphSurvey.DetailStore.holding`, `GraphSurvey.DetailStore.having` — how many nodes hold a value
  in a field, and how many have the field.
* `GraphSurvey.IsHistogram` — the summary counts every value of a field.

## Main results

* `GraphSurvey.Pass.counts_foldl` — counting values one after the other.
* `GraphSurvey.Pass.plain_of_entryField` — what the standard passes record.
* `GraphSurvey.Pipeline.summary_configured` — the summary of a run of the standard passes.
-/

namespace GraphSurvey

/-! ## Counting -/

namespace Pass

/-- The summary has under every key how often it occurred, and nothing for a key that did not. -/
def Counts (counts : Summary) (n : String → Nat) : Prop :=
  ∀ key, counts.get? key = if n key = 0 then none else some (.int (n key))

variable {counts : Summary} {n : String → Nat}

theorem Counts.countValue (h : Counts counts n) (v : Value) :
    Counts (countValue counts v) fun key => n key + if v.words = key then 1 else 0 := by
  intro key
  have hinsert (i : Int) : (counts.insert v.words (.int i)).get? key =
      if v.words = key then some (.int i) else counts.get? key := by
    rw [Dictionary.get?_insert]
    simp only [eq_comm]
  have hv := h v.words
  rw [Pass.countValue]
  by_cases hzero : n v.words = 0
  · rw [if_pos hzero] at hv
    simp only [hv, hinsert, h key]
    split
    case isTrue heq => simp [← heq, hzero]
    case isFalse => rfl
  · rw [if_neg hzero] at hv
    simp only [hv, hinsert, h key]
    split
    case isTrue heq => simp [← heq]
    case isFalse => rfl

/-- Counting values one after the other counts how often each text occurs as words. -/
theorem counts_foldl (h : Counts counts n) (vs : List Value) :
    Counts (vs.foldl Pass.countValue counts) fun key =>
      n key + vs.countP fun v => v.words = key := by
  induction vs generalizing counts n with
  | nil => exact h
  | cons v rest ih =>
    have hcons : (fun key => n key + (v :: rest).countP fun v => v.words = key) =
        fun key => (n key + if v.words = key then 1 else 0) +
          rest.countP fun v => v.words = key := by
      funext key
      simp only [List.countP_cons, decide_eq_true_eq]
      omega
    rw [hcons]
    exact ih (h.countValue v)

theorem counts_empty : Counts ∅ fun _ => 0 := fun _ => rfl

end Pass

namespace DetailStore

/-- The number of nodes that hold a value in a field. -/
def holding (s : DetailStore) (field : String) (v : Value) : Nat :=
  s.entries.countP fun e => e.2.get? field = some v

/-- The number of nodes that have a field. -/
def having (s : DetailStore) (field : String) : Nat :=
  s.entries.countP fun e => (e.2.get? field).isSome

/-- The values of a field in the order of the nodes. -/
def values (s : DetailStore) (field : String) : List Value :=
  s.entries.filterMap fun e => e.2.get? field

variable {s : DetailStore} {field : String} {v : Value}

theorem mem_values_iff : v ∈ s.values field ↔ ∃ e ∈ s.entries, e.2.get? field = some v :=
  List.mem_filterMap

theorem holding_eq_count (s : DetailStore) (field : String) (v : Value) :
    s.holding field v = (s.values field).count v := by
  rw [values, List.count_filterMap, holding]
  exact List.countP_congr fun e _ => by simp

/-- A value occurs as often as its words do if no other value of the field has them. -/
theorem countP_words_eq (hinj : ∀ w ∈ s.values field, w.words = v.words → w = v) :
    (s.values field).countP (fun w => w.words = v.words) = s.holding field v := by
  rw [holding_eq_count, List.count]
  refine List.countP_congr fun w hw => ?_
  simp only [decide_eq_true_eq, beq_iff_eq]
  exact ⟨hinj w hw, congrArg Value.words⟩

theorem having_eq_length (s : DetailStore) (field : String) :
    s.having field = (s.values field).length :=
  List.length_filterMap_eq_countP.symm

end DetailStore

/-- The summary counts the values of a field: it has one entry for each of them, under its words,
with the number of nodes that hold it. Together these are all nodes that have the field. -/
structure IsHistogram (summary : Summary) (s : DetailStore) (field : String)
    (values : List Value) : Prop where
  nodup : values.Nodup
  mem : ∀ v, v ∈ values ↔ ∃ e ∈ s.entries, e.2.get? field = some v
  /-- No two values are merged. -/
  words_inj : ∀ v ∈ values, ∀ w ∈ values, v.words = w.words → v = w
  entries : summary.entries.Perm (values.map fun v => (v.words, .int (s.holding field v)))
  total : (values.map (s.holding field)).sum = s.having field

/-- Counting the values of a field counts each of them if their words tell them apart. -/
theorem isHistogram_of_words_inj {s : DetailStore} {field : String}
    (hinj : ∀ v ∈ s.values field, ∀ w ∈ s.values field, v.words = w.words → v = w) :
    IsHistogram ((s.values field).foldl Pass.countValue ∅) s field (s.values field).dedup where
  nodup := List.nodup_dedup _
  mem v := by rw [List.mem_dedup, DetailStore.mem_values_iff]
  words_inj v hv w hw := hinj v (List.mem_dedup.mp hv) w (List.mem_dedup.mp hw)
  entries := by
    have hcounts := Pass.counts_foldl Pass.counts_empty (s.values field)
    have hkeys : ((s.values field).dedup.map
        fun v => (v.words, Value.int (s.holding field v))).Nodup :=
      (List.nodup_dedup _).map_on fun v hv w hw heq =>
        hinj v (List.mem_dedup.mp hv) w (List.mem_dedup.mp hw) (congrArg Prod.fst heq)
    -- neither list repeats an entry, so they need only have the same members
    refine (List.perm_ext_iff_of_nodup (Dictionary.increasing _).nodup.of_map hkeys).mpr ?_
    rintro ⟨key, x⟩
    rw [← Dictionary.get?_eq_some_iff, hcounts key, List.mem_map]
    simp only [List.mem_dedup, Nat.zero_add, Prod.mk.injEq]
    constructor
    · intro hkey
      obtain ⟨hpos, hx⟩ : (s.values field).countP (fun v => v.words = key) ≠ 0 ∧
          Value.int ((s.values field).countP fun v => v.words = key) = x := by
        split at hkey
        · cases hkey
        · exact ⟨‹_›, Option.some.inj hkey⟩
      obtain ⟨v, hv, hwords⟩ := List.countP_pos_iff.mp (Nat.pos_of_ne_zero hpos)
      obtain rfl : v.words = key := by simpa using hwords
      rw [DetailStore.countP_words_eq fun w hw => hinj w hw v hv] at hx
      exact ⟨v, hv, rfl, hx⟩
    · rintro ⟨v, hv, rfl, rfl⟩
      have hpos : 0 < s.holding field v := by
        rw [s.holding_eq_count]
        exact List.count_pos_iff.mpr hv
      rw [DetailStore.countP_words_eq fun w hw => hinj w hw v hv, if_neg hpos.ne']
  total := by
    rw [s.having_eq_length, ← List.sum_map_count_dedup_eq_length]
    exact congrArg List.sum (List.map_congr_left fun v _ => s.holding_eq_count field v)

/-! ## What the standard passes record -/

namespace Pass

variable {g : Graph} {attributes : List String} {k : Nat} {c : Call} {field : String} {v : Value}

/-- The shapes of arguments are a map of nested sequences by positions. -/
theorem isPlace_declaredShapes (g : Graph) (args : List NodeId) :
    ∀ e ∈ (g.declaredShapes args 0 ∅).entries, Value.IsPlace e := by
  have hmap := g.isShapeMap_declaredShapes args
  rintro ⟨name, v⟩ he
  have hget := Dictionary.get?_eq_some_iff.mpr he
  obtain ⟨i, -, rfl⟩ := hmap.position name v hget
  rw [hmap.shape i] at hget
  obtain ⟨arg, -, hshape⟩ := Option.bind_eq_some_iff.mp hget
  obtain ⟨n, -, htype⟩ := Option.bind_eq_some_iff.mp hshape
  exact ⟨⟨i, rfl⟩, Value.nested_of_ofType _ htype⟩

/-- The kind of the values of a field. -/
def fieldKind (field : String) : ValueKind :=
  if field = FieldName.op then .text
  else if field = FieldName.index then .int
  else if field = FieldName.outputShape then .seq
  else if field = FieldName.inputShapes then .map
  else .seq

/-- The values of a field are plain and of one kind. -/
theorem plain_of_entryField (h : entryField g attributes k c field = some v) :
    v.Plain ∧ v.kind = fieldKind field := by
  rw [entryField] at h
  rw [fieldKind]
  split at h
  case isTrue hop =>
    obtain rfl := Option.some.inj h
    exact ⟨.text _, by rw [if_pos hop]; rfl⟩
  case isFalse hop =>
  rw [if_neg hop]
  split at h
  case isTrue hindex =>
    obtain rfl := Option.some.inj h
    exact ⟨.nested (.int _), by rw [if_pos hindex]; rfl⟩
  case isFalse hindex =>
  rw [if_neg hindex]
  split at h
  case isTrue houtput =>
    exact ⟨.nested (Value.nested_of_ofType _ h), by rw [if_pos houtput, Value.kind_of_ofType h]⟩
  case isFalse houtput =>
  rw [if_neg houtput]
  split at h
  case isTrue hinput =>
    obtain rfl := Option.some.inj h
    exact ⟨.map (isPlace_declaredShapes g c.args), by rw [if_pos hinput]; rfl⟩
  case isFalse hinput =>
  rw [if_neg hinput]
  split at h
  case isTrue =>
    obtain ⟨is, -, rfl⟩ := Option.map_eq_some_iff.mp h
    exact ⟨.nested (Value.nested_ofInts is), rfl⟩
  case isFalse => cases h

end Pass

/-! ## The summary of a run -/

namespace Pipeline

open Pass

variable {g : Graph} {attributes : List String} {histogramField : String} {done : List NodeId}
  {s : Progress} {p : Pipeline}

/-- Every entry is that of a call. -/
theorem Recorded.exists_entryField (h : Recorded g attributes histogramField done s)
    {e : NodeId × Details} (he : e ∈ s.notes.store.entries) (field : String) :
    ∃ k c, (g.callsIn done)[k]? = some (e.1, c) ∧
      e.2.get? field = entryField g attributes k c field := by
  have hid : e.1 ∈ (g.callsIn done).map Prod.fst := by
    rw [← h.nodes]
    exact List.mem_map_of_mem he
  obtain ⟨⟨id, c⟩, hmem, hid⟩ := List.mem_map.mp hid
  obtain rfl : id = e.1 := hid
  obtain ⟨k, hk⟩ := List.mem_iff_getElem?.mp hmem
  refine ⟨k, c, hk, ?_⟩
  rw [← h.entries k e.1 c hk field, DetailStore.field?, DetailStore.get?_of_mem he]
  rfl

/-- The values that are recorded in a field have different words. -/
theorem Recorded.words_inj (h : Recorded g attributes histogramField done s) {field : String}
    {v w : Value} (hv : v ∈ s.notes.store.values field) (hw : w ∈ s.notes.store.values field)
    (hwords : v.words = w.words) : v = w := by
  have hplain {v : Value} (hv : v ∈ s.notes.store.values field) :
      v.Plain ∧ v.kind = fieldKind field := by
    obtain ⟨e, he, hget⟩ := DetailStore.mem_values_iff.mp hv
    obtain ⟨k, c, -, hentry⟩ := h.exists_entryField he field
    exact plain_of_entryField (hentry.symm.trans hget)
  obtain ⟨hv, hkind⟩ := hplain hv
  obtain ⟨hw, hkind'⟩ := hplain hw
  exact hv.words_inj hw (hkind.trans hkind'.symm) hwords

/-- If the standard passes with any attributes and the histogram of any field are accepted and a run
of theirs succeeds, its summary counts the values of that field in the recorded details: it has one
entry for each of them and none besides, no two values are counted under one text, and the counts
add up to the number of nodes that have the field. -/
theorem summary_configured (h : ofPasses (configured attributes histogramField) = .ok p) {g : Graph}
    {r : Analysis} (hr : p.run g = .ok r) :
    ∃ values, IsHistogram r.summary r.details histogramField values := by
  obtain ⟨s, hvisits, hrecorded⟩ := exists_recorded h g
  obtain ⟨order, -, horder, -⟩ := exists_order_of_run hr
  obtain ⟨-, rfl⟩ := Graph.order_eq_ok_iff.mp horder
  rw [run_of_order horder hvisits, hrecorded.conclude_eq] at hr
  obtain rfl := Except.ok.inj hr
  exact ⟨_, isHistogram_of_words_inj fun v hv w hw => hrecorded.words_inj hv hw⟩

/-- A graph with three calls of two operators. -/
def twoOperators : Graph where
  name := "two"
  nodes := #[⟨⟨0⟩, .var "x" .input (.tensor [1, 4])⟩,
    ⟨⟨1⟩, .call (Call.plain "nn.relu" [⟨0⟩] (.tensor [1, 4]))⟩,
    ⟨⟨2⟩, .call (Call.plain "nn.relu" [⟨1⟩] (.tensor [1, 4]))⟩,
    ⟨⟨3⟩, .call (Call.plain "add" [⟨1⟩, ⟨2⟩] (.tensor [1, 4]))⟩]
  outputs := [⟨3⟩]

theorem summary_configured_twoOperators :
    ∃ (r : Analysis) (values : List Value),
      (⟨configured [] FieldName.op⟩ : Pipeline).run twoOperators = .ok r ∧
      IsHistogram r.summary r.details FieldName.op values ∧
      r.summary.entries = [("add", .int 1), ("nn.relu", .int 2)] := by
  have hp : ofPasses (configured [] FieldName.op) = .ok ⟨configured [] FieldName.op⟩ := by cbv
  have hentries : ((⟨configured [] FieldName.op⟩ : Pipeline).run twoOperators).toOption.map
      (fun r => r.summary.entries) = some [("add", .int 1), ("nn.relu", .int 2)] := by cbv
  cases hr : (⟨configured [] FieldName.op⟩ : Pipeline).run twoOperators with
  | error e => rw [hr] at hentries; cases hentries
  | ok r =>
    rw [hr] at hentries
    obtain ⟨values, hvalues⟩ := summary_configured hp hr
    exact ⟨r, values, rfl, hvalues, Option.some.inj hentries⟩

end Pipeline

end GraphSurvey
