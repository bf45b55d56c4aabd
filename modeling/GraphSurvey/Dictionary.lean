/-!
# Dictionaries

A dictionary is a list of named values whose names increase, in the order of their code points. It
has one value for each of its names, and two dictionaries with the same values are the same list.

## Main definitions

* `GraphSurvey.putEntry`, `GraphSurvey.findEntry` — the operations on lists of entries.
* `GraphSurvey.Dictionary` — a list of entries with increasing names.
-/

namespace GraphSurvey

variable {α β : Type}

/-- Puts an entry among entries with increasing names, in place of an older one of its name. -/
def putEntry (name : String) (a : α) : List (String × α) → List (String × α)
  | [] => [(name, a)]
  | (other, b) :: rest =>
    if name < other then (name, a) :: (other, b) :: rest
    else if name = other then (name, a) :: rest
    else (other, b) :: putEntry name a rest

/-- The value of a name. -/
def findEntry (name : String) : List (String × α) → Option α
  | [] => none
  | (other, a) :: rest => if other = name then some a else findEntry name rest

/-- The names of the entries increase. -/
def Increasing (entries : List (String × α)) : Prop :=
  entries.Pairwise fun x y => x.1 < y.1

instance (entries : List (String × α)) : Decidable (Increasing entries) :=
  inferInstanceAs (Decidable (List.Pairwise _ _))

theorem name_of_mem_putEntry {name : String} {a : α} {entries : List (String × α)}
    {e : String × α} (h : e ∈ putEntry name a entries) : e.1 = name ∨ e ∈ entries := by
  induction entries with
  | nil => simp only [putEntry, List.mem_singleton] at h; exact .inl (h ▸ rfl)
  | cons head rest ih =>
    obtain ⟨other, b⟩ := head
    simp only [putEntry] at h
    split at h
    · rcases List.mem_cons.mp h with rfl | h
      · exact .inl rfl
      · exact .inr h
    · split at h
      · rcases List.mem_cons.mp h with rfl | h
        · exact .inl rfl
        · exact .inr (List.mem_cons_of_mem _ h)
      · rcases List.mem_cons.mp h with rfl | h
        · exact .inr List.mem_cons_self
        · exact (ih h).imp_right (List.mem_cons_of_mem _)

/-- Putting an entry keeps the names increasing. -/
theorem Increasing.putEntry {name : String} {a : α} {entries : List (String × α)}
    (h : Increasing entries) : Increasing (putEntry name a entries) := by
  induction entries with
  | nil => exact List.pairwise_singleton ..
  | cons head rest ih =>
    obtain ⟨other, b⟩ := head
    obtain ⟨hhead, hrest⟩ := List.pairwise_cons.mp h
    simp only [GraphSurvey.putEntry]
    split
    case isTrue hlt =>
      refine List.pairwise_cons.mpr ⟨fun e he => ?_, h⟩
      rcases List.mem_cons.mp he with rfl | he
      · exact hlt
      · exact String.lt_trans hlt (hhead e he)
    case isFalse hlt =>
      split
      case isTrue heq =>
        subst heq
        exact List.pairwise_cons.mpr ⟨hhead, hrest⟩
      case isFalse hne =>
        refine List.pairwise_cons.mpr ⟨fun e he => ?_, ih hrest⟩
        rcases name_of_mem_putEntry he with hname | he
        · simp only [hname]
          exact Std.lt_of_le_of_ne (String.not_lt.mp hlt) (Ne.symm hne)
        · exact hhead e he

/-- A list of entries with increasing names. -/
structure Dictionary (α : Type) where
  entries : List (String × α)
  increasing : Increasing entries

namespace Dictionary

/-- The dictionary without entries. -/
def empty : Dictionary α := ⟨[], List.Pairwise.nil⟩

instance : EmptyCollection (Dictionary α) := ⟨empty⟩

instance : Inhabited (Dictionary α) := ⟨empty⟩

/-- The value of a name. -/
def get? (d : Dictionary α) (name : String) : Option α := findEntry name d.entries

/-- The dictionary with a value for a name, in place of an older one. -/
def insert (d : Dictionary α) (name : String) (a : α) : Dictionary α :=
  ⟨putEntry name a d.entries, d.increasing.putEntry⟩

/-- The dictionary of a list of entries. Of several of one name the last counts. -/
def ofList (entries : List (String × α)) : Dictionary α :=
  entries.foldl (fun d e => d.insert e.1 e.2) ∅

/-- The names in increasing order. -/
def names (d : Dictionary α) : List String := d.entries.map Prod.fst

/-- The number of entries. -/
def size (d : Dictionary α) : Nat := d.entries.length

end Dictionary

/-- The increasing list of the names that occur in a list. -/
def sortedNames (names : List String) : List String :=
  (Dictionary.ofList (names.map fun name => (name, ()))).names

end GraphSurvey
