import GraphSurvey.Document.Json
import GraphSurvey.Proofs.Dictionary
import Mathlib

/-!
# Sorted documents

The members of a sorted object are those of a dictionary. Where the names of an object are distinct,
sorting it loses no member.

## Main definitions

* `GraphSurvey.Json.ObjectOf` — a document is an object of given members, in whatever order.

## Main results

* `GraphSurvey.Json.sorted_object` — a sorted object as a dictionary.
* `GraphSurvey.Json.objectOf_sorted` — an object with distinct names keeps its members, sorted.
-/

namespace GraphSurvey.Json

/-- The document is an object with distinct names whose members are the given ones in some order. -/
def ObjectOf (j : Json) (entries : List (String × Json)) : Prop :=
  ∃ members, j = .object members ∧ members.Perm entries ∧ (members.map Prod.fst).Nodup

/-- Every member sorted. -/
def sortedEntries (members : List (String × Json)) : List (String × Json) :=
  members.map fun e => (e.1, e.2.sorted)

theorem map_fst_sortedEntries (members : List (String × Json)) :
    (sortedEntries members).map Prod.fst = members.map Prod.fst := by
  rw [sortedEntries, List.map_map]
  rfl

theorem sortedEntries_of_sorted {members : List (String × Json)}
    (h : ∀ e ∈ members, e.2.sorted = e.2) : sortedEntries members = members := by
  refine (List.map_congr_left fun e he => ?_).trans members.map_id
  rw [h e he]
  rfl

theorem sortedMembers_eq (d : Dictionary Json) (members : List (String × Json)) :
    sortedMembers d.entries members = (d.insertAll (sortedEntries members)).entries := by
  induction members generalizing d with
  | nil => rfl
  | cons e rest ih => exact ih (d.insert e.1 e.2.sorted)

/-- The members of a sorted object are those of the dictionary of its sorted members. -/
theorem sorted_object (members : List (String × Json)) :
    (object members).sorted = .object (Dictionary.ofList (sortedEntries members)).entries := by
  rw [sorted, Dictionary.ofList_eq_insertAll, ← sortedMembers_eq]
  rfl

theorem sortedItems_eq (items : List Json) : sortedItems items = items.map sorted := by
  induction items with
  | nil => rfl
  | cons j rest ih => rw [sortedItems, ih, List.map_cons]

/-- An array is sorted item by item. -/
theorem sorted_array (items : List Json) : (array items).sorted = array (items.map sorted) := by
  rw [sorted, sortedItems_eq]

theorem sorted_text (s : String) : (text s).sorted = text s := rfl

/-- An array of texts is sorted already. -/
theorem sorted_texts (texts : List String) :
    (array (texts.map text)).sorted = array (texts.map text) := by
  rw [sorted_array, List.map_map]
  exact congrArg array (List.map_congr_left fun s _ => sorted_text s)

variable {members : List (String × Json)}

/-- Sorting an object with distinct names loses no member. -/
theorem objectOf_sorted (hnodup : (members.map Prod.fst).Nodup) :
    (object members).sorted.ObjectOf (sortedEntries members) :=
  ⟨_, sorted_object members, Dictionary.ofList_perm (by rwa [map_fst_sortedEntries]),
    (Dictionary.ofList (sortedEntries members)).increasing.nodup⟩

/-- An object with distinct names whose members are sorted already keeps them all. -/
theorem objectOf_sorted_of_sorted (hnodup : (members.map Prod.fst).Nodup)
    (hsorted : ∀ e ∈ members, e.2.sorted = e.2) : (object members).sorted.ObjectOf members := by
  have hobject := objectOf_sorted hnodup
  rwa [sortedEntries_of_sorted hsorted] at hobject

end GraphSurvey.Json
