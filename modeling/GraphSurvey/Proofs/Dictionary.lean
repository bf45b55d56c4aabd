import GraphSurvey.Dictionary
import Mathlib

/-!
# Looking names up

What a name stands for after an entry was put, and in a dictionary as a list of entries.

## Main results

* `GraphSurvey.Dictionary.get?_insert` — an inserted value is found under its name, and all other
  names stand for what they stood for before.
* `GraphSurvey.Dictionary.get?_eq_some_iff` — the entries of a dictionary are its names with their
  values.
* `GraphSurvey.Dictionary.ext_get?` — a dictionary is determined by what its names stand for.
* `GraphSurvey.Dictionary.get?_insertAll_of_mem`, `GraphSurvey.Dictionary.get?_insertAll_of_not_mem`
  — what a name stands for after entries with distinct names were inserted.
* `GraphSurvey.Dictionary.ofList_perm` — of entries with distinct names none is lost.
* `GraphSurvey.mem_sortedNames_iff` — the sorted names are those of the list.
-/

namespace GraphSurvey

variable {α : Type}

theorem findEntry_putEntry (name other : String) (a : α) (entries : List (String × α)) :
    findEntry other (putEntry name a entries) =
      if other = name then some a else findEntry other entries := by
  induction entries with
  | nil => simp only [putEntry, findEntry, eq_comm]
  | cons head rest ih =>
    obtain ⟨first, b⟩ := head
    by_cases hlt : name < first
    · simp only [putEntry, hlt, if_true, findEntry, eq_comm]
    by_cases heq : name = first
    · subst heq
      simp only [putEntry, hlt, if_false, if_true, findEntry]
      by_cases h : name = other
      · simp [h]
      · simp [h, Ne.symm h]
    · simp only [putEntry, hlt, heq, if_false, findEntry, ih]
      by_cases h : first = other
      · subst h; simp [Ne.symm heq]
      · simp only [h, if_false]

/-- A name that is found has an entry. -/
theorem mem_of_findEntry {name : String} {a : α} {entries : List (String × α)}
    (h : findEntry name entries = some a) : (name, a) ∈ entries := by
  induction entries with
  | nil => cases h
  | cons head rest ih =>
    obtain ⟨first, b⟩ := head
    rw [findEntry] at h
    split at h
    case isTrue heq =>
      obtain rfl := Option.some.inj h
      subst heq
      exact List.mem_cons_self
    case isFalse => exact List.mem_cons_of_mem _ (ih h)

/-- Every entry is found if the names increase. -/
theorem Increasing.findEntry_of_mem {name : String} {a : α} {entries : List (String × α)}
    (h : Increasing entries) (ha : (name, a) ∈ entries) : findEntry name entries = some a := by
  induction entries with
  | nil => cases ha
  | cons head rest ih =>
    obtain ⟨first, b⟩ := head
    obtain ⟨hhead, hrest⟩ := List.pairwise_cons.mp h
    rw [findEntry]
    rcases List.mem_cons.mp ha with heq | ha
    · rw [Prod.mk.injEq] at heq
      rw [if_pos heq.1.symm, heq.2]
    · have hne : first ≠ name := fun heq =>
        String.lt_irrefl name (heq ▸ hhead (name, a) ha)
      rw [if_neg hne]
      exact ih hrest ha

/-- Increasing names are distinct. -/
theorem Increasing.nodup {entries : List (String × α)} (h : Increasing entries) :
    (entries.map Prod.fst).Nodup := by
  refine List.pairwise_map.mpr (h.imp fun hlt heq => ?_)
  rw [heq] at hlt
  exact String.lt_irrefl _ hlt

namespace Dictionary

variable {d : Dictionary α} {name other : String} {a : α}

@[simp] theorem get?_empty (name : String) : (∅ : Dictionary α).get? name = none := rfl

/-- What a name stands for after an insertion. -/
theorem get?_insert (d : Dictionary α) (name other : String) (a : α) :
    (d.insert name a).get? other = if other = name then some a else d.get? other :=
  findEntry_putEntry name other a d.entries

@[simp] theorem get?_insert_self (d : Dictionary α) (name : String) (a : α) :
    (d.insert name a).get? name = some a := by
  rw [get?_insert, if_pos rfl]

theorem get?_insert_of_ne (h : other ≠ name) : (d.insert name a).get? other = d.get? other := by
  rw [get?_insert, if_neg h]

/-- A name stands for a value if they are an entry. -/
theorem get?_eq_some_iff : d.get? name = some a ↔ (name, a) ∈ d.entries :=
  ⟨mem_of_findEntry, d.increasing.findEntry_of_mem⟩

/-- Dictionaries in which every name stands for the same are the same. -/
theorem ext_get? {d' : Dictionary α} (h : ∀ name, d.get? name = d'.get? name) : d = d' := by
  have hmem (e : String × α) : e ∈ d.entries ↔ e ∈ d'.entries := by
    rw [← get?_eq_some_iff, ← get?_eq_some_iff, h]
  have hperm : d.entries.Perm d'.entries :=
    (List.perm_ext_iff_of_nodup d.increasing.nodup.of_map d'.increasing.nodup.of_map).mpr hmem
  have hentries : d.entries = d'.entries :=
    hperm.eq_of_pairwise (fun _ _ _ _ hlt hlt' => absurd hlt' (String.lt_asymm hlt)) d.increasing
      d'.increasing
  obtain ⟨entries, _⟩ := d
  obtain ⟨entries', _⟩ := d'
  obtain rfl : entries = entries' := hentries
  rfl

/-- The names are those that stand for a value. -/
theorem mem_names_iff : name ∈ d.names ↔ (d.get? name).isSome := by
  rw [Option.isSome_iff_exists, names, List.mem_map]
  constructor
  · rintro ⟨⟨_, a⟩, he, rfl⟩
    exact ⟨a, get?_eq_some_iff.mpr he⟩
  · rintro ⟨a, ha⟩
    exact ⟨(name, a), get?_eq_some_iff.mp ha, rfl⟩

/-- The dictionary with the values of a list of entries, one after the other. -/
def insertAll (d : Dictionary α) (entries : List (String × α)) : Dictionary α :=
  entries.foldl (fun d e => d.insert e.1 e.2) d

theorem ofList_eq_insertAll (entries : List (String × α)) : ofList entries = insertAll ∅ entries :=
  rfl

theorem insertAll_cons (d : Dictionary α) (e : String × α) (rest : List (String × α)) :
    d.insertAll (e :: rest) = (d.insert e.1 e.2).insertAll rest := rfl

/-- A name without an entry stands for what it stood for before. -/
theorem get?_insertAll_of_not_mem {entries : List (String × α)}
    (h : name ∉ entries.map Prod.fst) : (d.insertAll entries).get? name = d.get? name := by
  induction entries generalizing d with
  | nil => rfl
  | cons e rest ih =>
    obtain ⟨hne, hrest⟩ := not_or.mp (mt List.mem_cons.mpr h)
    rw [insertAll_cons, ih hrest, get?_insert_of_ne hne]

/-- Every entry is found if the names of the entries are distinct. -/
theorem get?_insertAll_of_mem {entries : List (String × α)}
    (hnodup : (entries.map Prod.fst).Nodup) (h : (name, a) ∈ entries) :
    (d.insertAll entries).get? name = some a := by
  induction entries generalizing d with
  | nil => cases h
  | cons e rest ih =>
    obtain ⟨hnew, hrest⟩ := List.nodup_cons.mp hnodup
    rw [insertAll_cons]
    rcases List.mem_cons.mp h with rfl | hmem
    · rw [get?_insertAll_of_not_mem hnew, get?_insert_self]
    · exact ih hrest hmem

theorem mem_of_mem_insert {e : String × α} (h : e ∈ (d.insert name a).entries) :
    e ∈ d.entries ∨ e = (name, a) := by
  have hfound := get?_eq_some_iff.mpr h
  rw [get?_insert] at hfound
  split at hfound
  case isTrue heq => exact .inr (Prod.ext heq (Option.some.inj hfound).symm)
  case isFalse => exact .inl (get?_eq_some_iff.mp hfound)

/-- Every entry after insertions was there before or was inserted. -/
theorem mem_of_mem_insertAll {entries : List (String × α)} {e : String × α}
    (h : e ∈ (d.insertAll entries).entries) : e ∈ d.entries ∨ e ∈ entries := by
  induction entries generalizing d with
  | nil => exact .inl h
  | cons first rest ih =>
    rcases ih h with hmem | hmem
    · rcases mem_of_mem_insert hmem with hold | rfl
      · exact .inl hold
      · exact .inr List.mem_cons_self
    · exact .inr (List.mem_cons_of_mem _ hmem)

/-- The dictionary of entries with distinct names has exactly these entries. -/
theorem ofList_perm {entries : List (String × α)} (hnodup : (entries.map Prod.fst).Nodup) :
    (ofList entries).entries.Perm entries := by
  refine (List.perm_ext_iff_of_nodup (ofList entries).increasing.nodup.of_map
    hnodup.of_map).mpr fun ⟨name, a⟩ => ?_
  rw [← get?_eq_some_iff, ofList_eq_insertAll]
  refine ⟨fun hfound => ?_, get?_insertAll_of_mem hnodup⟩
  by_cases hmem : name ∈ entries.map Prod.fst
  · obtain ⟨⟨_, b⟩, hb, rfl⟩ := List.mem_map.mp hmem
    rw [get?_insertAll_of_mem hnodup hb, Option.some.injEq] at hfound
    exact hfound ▸ hb
  · rw [get?_insertAll_of_not_mem hmem, get?_empty] at hfound
    cases hfound

/-- Inserting the entries of a dictionary with changed values changes what its names stand for, and
no other name. -/
theorem get?_insertAll_entries {β : Type} (d : Dictionary β) (e : Dictionary α) (f : α → β)
    (name : String) :
    (d.insertAll (e.entries.map fun x => (x.1, f x.2))).get? name =
      ((e.get? name).map f).or (d.get? name) := by
  have hnames : (e.entries.map fun x => (x.1, f x.2)).map Prod.fst = e.names := by
    rw [List.map_map]
    rfl
  cases h : e.get? name with
  | none =>
    refine get?_insertAll_of_not_mem (hnames ▸ fun hmem => ?_)
    rw [mem_names_iff, h] at hmem
    cases hmem
  | some a =>
    exact get?_insertAll_of_mem (hnames ▸ e.increasing.nodup)
      (List.mem_map.mpr ⟨(name, a), get?_eq_some_iff.mp h, rfl⟩)

/-- The dictionary of the entries of a dictionary with changed values. -/
theorem get?_insertAll_map {β : Type} (d : Dictionary α) (f : α → β) (name : String) :
    ((∅ : Dictionary β).insertAll (d.entries.map fun e => (e.1, f e.2))).get? name =
      (d.get? name).map f := by
  rw [get?_insertAll_entries, get?_empty, Option.or_none]

/-- The dictionary of the entries of a dictionary. -/
theorem ofList_entries (d : Dictionary α) : ofList d.entries = d := by
  refine ext_get? fun name => ?_
  simpa [ofList_eq_insertAll] using get?_insertAll_map d id name

/-- Entries with increasing names are those of their dictionary. -/
theorem entries_ofList {entries : List (String × α)} (h : Increasing entries) :
    (ofList entries).entries = entries :=
  congrArg Dictionary.entries (ofList_entries ⟨entries, h⟩)

/-- A dictionary is made again of what distinct names stand for, if all its names are among them. -/
theorem ofList_filterMap_get? {names : List String} (hnodup : names.Nodup)
    (hall : d.names ⊆ names) :
    ofList (names.filterMap fun name => (d.get? name).map fun a => (name, a)) = d := by
  have hnames : ((names.filterMap fun name => (d.get? name).map fun a => (name, a)).map
      Prod.fst).Nodup := by
    rw [List.map_filterMap]
    refine hnodup.filterMap fun first second name hfirst hsecond => ?_
    simp only [Option.map_map, Option.mem_def, Option.map_eq_some_iff, Function.comp_apply]
      at hfirst hsecond
    obtain ⟨_, -, rfl⟩ := hfirst
    obtain ⟨_, -, heq⟩ := hsecond
    exact heq.symm
  refine ext_get? fun name => ?_
  rw [ofList_eq_insertAll]
  cases h : d.get? name with
  | none =>
    refine get?_insertAll_of_not_mem fun hmem => ?_
    obtain ⟨⟨_, a⟩, he, rfl⟩ := List.mem_map.mp hmem
    obtain ⟨other, -, heq⟩ := List.mem_filterMap.mp he
    obtain ⟨b, hb, hentry⟩ := Option.map_eq_some_iff.mp heq
    obtain ⟨rfl, rfl⟩ := Prod.mk.inj hentry
    rw [h] at hb
    cases hb
  | some a =>
    have hmem : name ∈ names := hall (mem_names_iff.mpr (by rw [h]; rfl))
    exact get?_insertAll_of_mem hnames (List.mem_filterMap.mpr ⟨name, hmem, by rw [h]; rfl⟩)

/-- The order in which two names are inserted makes no difference. -/
theorem insert_comm {b : α} (hne : name ≠ other) :
    (d.insert name a).insert other b = (d.insert other b).insert name a := by
  refine ext_get? fun third => ?_
  simp only [get?_insert]
  by_cases h : third = other
  · simp [h, hne.symm]
  · simp [h]

end Dictionary

/-- The sorted names are those of the list. -/
theorem mem_sortedNames_iff {name : String} {names : List String} :
    name ∈ sortedNames names ↔ name ∈ names := by
  suffices h : ∀ d : Dictionary Unit,
      ((d.insertAll (names.map fun n => (n, ()))).get? name).isSome ↔
        (d.get? name).isSome ∨ name ∈ names by
    rw [sortedNames, Dictionary.mem_names_iff, Dictionary.ofList_eq_insertAll, h]
    simp
  induction names with
  | nil => exact fun d => by simp [Dictionary.insertAll]
  | cons first rest ih =>
    intro d
    rw [List.map_cons, Dictionary.insertAll_cons, ih, Dictionary.get?_insert, List.mem_cons]
    by_cases heq : name = first
    · simp [heq]
    · simp [heq]

theorem nodup_sortedNames (names : List String) : (sortedNames names).Nodup :=
  (Dictionary.ofList (names.map fun name => (name, ()))).increasing.nodup

theorem pairwise_sortedNames (names : List String) : (sortedNames names).Pairwise (· < ·) :=
  List.pairwise_map.mpr (Dictionary.ofList (names.map fun name => (name, ()))).increasing

/-- Lists with the same names have the same sorted names. -/
theorem sortedNames_congr {names names' : List String} (h : ∀ name, name ∈ names ↔ name ∈ names') :
    sortedNames names = sortedNames names' := by
  have hperm : (sortedNames names).Perm (sortedNames names') :=
    (List.perm_ext_iff_of_nodup (nodup_sortedNames _) (nodup_sortedNames _)).mpr fun name => by
      rw [mem_sortedNames_iff, mem_sortedNames_iff, h]
  exact hperm.eq_of_pairwise (fun _ _ _ _ hlt hlt' => absurd hlt' (String.lt_asymm hlt))
    (pairwise_sortedNames _) (pairwise_sortedNames _)

end GraphSurvey
