import GraphSurvey.Text.Label
import Mathlib
import Std.Data.String.ToNat

/-!
# Labels that are free

The label that is found for a taken one is never taken itself: of its numbered forms there are more
than the taken labels can fill. So a search through the numbered forms that nothing bounds ends all
the same. Labels that are kept apart one after the other are distinct, and labels that are distinct
from the start stay as they are.

## Main definitions

* `GraphSurvey.Text.SearchEnds` — the search for a number.

## Main results

* `GraphSurvey.Text.exists_free_number` — a taken label has a numbered form that is free.
* `GraphSurvey.Text.uniqueLabel_not_mem` — the label that is found is free.
* `GraphSurvey.Text.searchEnds_iff_isLeast` — where the search ends.
* `GraphSurvey.Text.uniqueLabel_first_free` — the label that is found is the first that is free.
* `GraphSurvey.Text.getElem?_uniqueLabels` — what becomes of each label of a list.
* `GraphSurvey.Text.nodup_uniqueLabels` — labels that are kept apart are distinct.
* `GraphSurvey.Text.uniqueLabels_of_nodup` — distinct labels are kept.
-/

namespace GraphSurvey.Text

variable {label : String} {taken : List String}

theorem numberedLabel_injective (label : String) : Function.Injective (numberedLabel label) := by
  intro m n h
  have hchars := congrArg String.toList h
  simp only [numberedLabel, String.toList_append, List.append_cancel_left_eq] at hchars
  exact Nat.repr_injective (String.toList_injective hchars)

theorem numberedLabel_ne (label : String) (n : Nat) : numberedLabel label n ≠ label := by
  intro h
  have hlength := congrArg String.length h
  simp only [numberedLabel, String.length_append] at hlength
  have hhash : "#".length = 1 := rfl
  omega

/-- A taken label and its numbered forms from `2` to `taken.length + 1` are too many to be all
taken. -/
theorem exists_free_number (h : label ∈ taken) :
    ∃ i < taken.length, numberedLabel label (i + 2) ∉ taken := by
  by_contra hall
  push Not at hall
  let forms := (List.range taken.length).map fun i => numberedLabel label (i + 2)
  have hnodup : (label :: forms).Nodup := by
    refine List.nodup_cons.mpr ⟨fun hmem => ?_, ?_⟩
    · obtain ⟨i, -, hi⟩ := List.mem_map.mp hmem
      exact numberedLabel_ne label (i + 2) hi
    · refine List.Nodup.map (fun i j hij => ?_) List.nodup_range
      have hnumbers := numberedLabel_injective label hij
      omega
  have hsubset : label :: forms ⊆ taken := by
    refine List.cons_subset.mpr ⟨h, fun form hform => ?_⟩
    obtain ⟨i, hi, rfl⟩ := List.mem_map.mp hform
    exact hall i (List.mem_range.mp hi)
  have hlength := (hnodup.subperm hsubset).length_le
  simp only [forms, List.length_cons, List.length_map, List.length_range] at hlength
  omega

/-- A free label is kept. -/
theorem uniqueLabel_of_not_mem (h : label ∉ taken) : uniqueLabel label taken = label := by
  rw [uniqueLabel, if_neg h]

/-- A taken label gets the least number from `2` on whose form is free, and that is among the first
`taken.length`. -/
theorem exists_isLeast_of_mem (h : label ∈ taken) :
    ∃ n, IsLeast {m | 2 ≤ m ∧ numberedLabel label m ∉ taken} n ∧ n ≤ taken.length + 1 ∧
      uniqueLabel label taken = numberedLabel label n := by
  rw [uniqueLabel, if_pos h]
  split
  case h_1 i hfound =>
    obtain ⟨hfree, hi, hbefore⟩ := List.find?_range_eq_some.mp hfound
    refine ⟨i + 2, ⟨⟨Nat.le_add_left 2 i, by simpa using hfree⟩, fun m hm => ?_⟩, ?_, rfl⟩
    · obtain ⟨j, rfl⟩ := Nat.exists_eq_add_of_le' hm.1
      by_contra hlt
      have htaken : numberedLabel label (j + 2) ∈ taken := by simpa using hbefore j (by omega)
      exact hm.2 htaken
    · have hlt := List.mem_range.mp hi
      omega
  case h_2 hnone =>
    obtain ⟨i, hi, hfree⟩ := exists_free_number h
    exact absurd hfree (by simpa using List.find?_eq_none.mp hnone i (List.mem_range.mpr hi))

/-- The label that is found is free. -/
theorem uniqueLabel_not_mem (label : String) (taken : List String) :
    uniqueLabel label taken ∉ taken := by
  by_cases h : label ∈ taken
  · obtain ⟨n, hleast, -, hlabel⟩ := exists_isLeast_of_mem h
    rw [hlabel]
    exact hleast.1.2
  · rwa [uniqueLabel_of_not_mem h]

/-- A free label is kept, and a taken one gets a number. -/
theorem uniqueLabel_cases (label : String) (taken : List String) :
    label ∉ taken ∧ uniqueLabel label taken = label ∨
      label ∈ taken ∧ ∃ n, 2 ≤ n ∧ uniqueLabel label taken = numberedLabel label n := by
  by_cases h : label ∈ taken
  · obtain ⟨n, hleast, -, hlabel⟩ := exists_isLeast_of_mem h
    exact .inr ⟨h, n, hleast.1.1, hlabel⟩
  · exact .inl ⟨h, uniqueLabel_of_not_mem h⟩

/-! ## The search for a number -/

/-- The search that tries the numbers from the first one on, one after the other, ends at the second
one. As long as the forms are taken nothing ends it. -/
inductive SearchEnds (label : String) (taken : List String) : Nat → Nat → Prop
  | free {n : Nat} (hfree : numberedLabel label n ∉ taken) : SearchEnds label taken n n
  | taken {n k : Nat} (htaken : numberedLabel label n ∈ taken)
      (h : SearchEnds label taken (n + 1) k) : SearchEnds label taken n k

/-- The search ends at the first number whose form is free, and it ends if there is one. -/
theorem searchEnds_iff_isLeast {n k : Nat} :
    SearchEnds label taken n k ↔ IsLeast {m | n ≤ m ∧ numberedLabel label m ∉ taken} k := by
  constructor
  · intro h
    induction h with
    | free hfree => exact ⟨⟨le_rfl, hfree⟩, fun m hm => hm.1⟩
    | @taken n k htaken h ih =>
      refine ⟨⟨(Nat.le_succ n).trans ih.1.1, ih.1.2⟩, fun m hm => ih.2 ⟨?_, hm.2⟩⟩
      refine Nat.lt_of_le_of_ne hm.1 fun heq => hm.2 ?_
      rwa [← heq]
  · rintro ⟨⟨hle, hfree⟩, hleast⟩
    -- from the number that is found down to the one that is tried first
    induction hle using Nat.decreasingInduction with
    | self => exact .free hfree
    | of_succ m hm ih =>
      have htaken : numberedLabel label m ∈ taken := by
        by_contra hnot
        have hkm : k ≤ m := hleast ⟨le_rfl, hnot⟩
        omega
      exact .taken htaken (ih fun i hi => hleast ⟨(Nat.le_succ m).trans hi.1, hi.2⟩)

/-- The label that is found is free: it is the label itself if that is free, and else the form at
which the search from `2` on ends. The search ends whatever is taken, at the least number whose form
is free, which is at most one more than there are taken labels. -/
theorem uniqueLabel_first_free (label : String) (taken : List String) :
    uniqueLabel label taken ∉ taken ∧
      (label ∉ taken → uniqueLabel label taken = label) ∧
      (label ∈ taken → ∃ n, SearchEnds label taken 2 n ∧
        uniqueLabel label taken = numberedLabel label n ∧
        IsLeast {m | 2 ≤ m ∧ numberedLabel label m ∉ taken} n ∧ n ≤ taken.length + 1) := by
  refine ⟨uniqueLabel_not_mem label taken, uniqueLabel_of_not_mem, fun h => ?_⟩
  obtain ⟨n, hleast, hbound, hlabel⟩ := exists_isLeast_of_mem h
  exact ⟨n, searchEnds_iff_isLeast.mpr hleast, hlabel, hleast, hbound⟩

/-- A label that looks numbered gets a number of its own, and the forms need not be taken in
order. -/
example : uniqueLabel "op#2" ["op#2#3", "op", "op#2", "op#2"] = "op#2#2" := by decide

/-! ## Several labels -/

@[simp] theorem uniqueLabels_nil : uniqueLabels [] = [] := rfl

/-- The last label is kept apart from those before it, which it does not change. -/
theorem uniqueLabels_concat (labels : List String) (label : String) :
    uniqueLabels (labels ++ [label]) =
      uniqueLabels labels ++ [uniqueLabel label (uniqueLabels labels)] := by
  rw [uniqueLabels, List.foldl_append]
  rfl

@[simp] theorem length_uniqueLabels (labels : List String) :
    (uniqueLabels labels).length = labels.length := by
  induction labels using List.reverseRecOn with
  | nil => rfl
  | append_singleton labels label ih => simp [uniqueLabels_concat, ih]

/-- Every label is kept apart from those before it. -/
theorem getElem?_uniqueLabels {labels : List String} {i : Nat} (h : labels[i]? = some label) :
    (uniqueLabels labels)[i]? = some (uniqueLabel label ((uniqueLabels labels).take i)) := by
  induction labels using List.reverseRecOn with
  | nil => cases h
  | append_singleton labels last ih =>
    rw [uniqueLabels_concat]
    rcases Nat.lt_or_ge i labels.length with hlt | hge
    · have hlt' : i < (uniqueLabels labels).length := by rwa [length_uniqueLabels]
      rw [List.getElem?_append_left hlt] at h
      rw [List.getElem?_append_left hlt', List.take_append_of_le_length hlt'.le]
      exact ih h
    · rw [List.getElem?_append_right hge, List.getElem?_singleton] at h
      split at h
      case isFalse => cases h
      case isTrue hi =>
        obtain rfl : i = (uniqueLabels labels).length := by
          rw [length_uniqueLabels]
          omega
        rw [List.getElem?_concat_length, List.take_left, Option.some.inj h]

/-- Labels that are kept apart are distinct. -/
theorem nodup_uniqueLabels (labels : List String) : (uniqueLabels labels).Nodup := by
  induction labels using List.reverseRecOn with
  | nil => exact List.nodup_nil
  | append_singleton labels label ih =>
    rw [uniqueLabels_concat, ← List.concat_eq_append]
    exact ih.concat (uniqueLabel_not_mem label (uniqueLabels labels))

/-- Distinct labels are kept. -/
theorem uniqueLabels_of_nodup {labels : List String} (h : labels.Nodup) :
    uniqueLabels labels = labels := by
  induction labels using List.reverseRecOn with
  | nil => rfl
  | append_singleton labels label ih =>
    obtain ⟨hlabels, -, hnew⟩ := List.nodup_append.mp h
    have hfree : label ∉ labels := fun hmem => hnew label hmem label (List.mem_singleton_self _) rfl
    rw [uniqueLabels_concat, ih hlabels, uniqueLabel_of_not_mem hfree]

end GraphSurvey.Text
