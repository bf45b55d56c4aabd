import GraphSurvey.Detail.Value

/-!
# Recorded details

The details of a node are values by the names of their fields. A store keeps the details of nodes in
the order in which the nodes were first mentioned.

## Main definitions

* `GraphSurvey.Details`, `GraphSurvey.Summary` — the fields of a node and of a graph.
* `GraphSurvey.DetailStore` — the details of nodes.
-/

namespace GraphSurvey

/-- The fields recorded for a node. -/
abbrev Details := Dictionary Value

/-- The fields recorded for a graph. -/
abbrev Summary := Dictionary Value

/-- Changes the details of a node, which are added at the end if there are none. -/
def changeEntry (id : NodeId) (change : Details → Details) :
    List (NodeId × Details) → List (NodeId × Details)
  | [] => [(id, change ∅)]
  | (other, d) :: rest =>
    if other = id then (other, change d) :: rest else (other, d) :: changeEntry id change rest

/-- Changing the details of a node keeps the nodes in their order, with the node at the end if it is
new. -/
theorem map_fst_changeEntry (id : NodeId) (change : Details → Details)
    (entries : List (NodeId × Details)) :
    (changeEntry id change entries).map Prod.fst =
      if id ∈ entries.map Prod.fst then entries.map Prod.fst
      else entries.map Prod.fst ++ [id] := by
  induction entries with
  | nil => rfl
  | cons head rest ih =>
    obtain ⟨other, d⟩ := head
    simp only [changeEntry]
    split
    · simp_all
    · simp only [List.map_cons, ih]
      grind

/-- The details of nodes, each node once. -/
structure DetailStore where
  entries : List (NodeId × Details)
  nodup : (entries.map Prod.fst).Nodup

namespace DetailStore

/-- The store without entries. -/
def empty : DetailStore := ⟨[], List.nodup_nil⟩

instance : EmptyCollection DetailStore := ⟨empty⟩

/-- Changes the details of a node. -/
def change (s : DetailStore) (id : NodeId) (f : Details → Details) : DetailStore where
  entries := changeEntry id f s.entries
  nodup := by
    rw [map_fst_changeEntry]
    split
    · exact s.nodup
    · rename_i h
      exact List.nodup_append.mpr ⟨s.nodup, List.pairwise_singleton .., by grind⟩

/-- Makes an entry for a node if there is none. -/
def openEntry (s : DetailStore) (id : NodeId) : DetailStore := s.change id fun d => d

/-- Records a field of a node, in place of an older value. -/
def record (s : DetailStore) (id : NodeId) (field : String) (v : Value) : DetailStore :=
  s.change id fun d => d.insert field v

/-- The details of a node. -/
def get? (s : DetailStore) (id : NodeId) : Option Details :=
  (s.entries.find? fun e => e.1 = id).map Prod.snd

/-- A field of a node. -/
def field? (s : DetailStore) (id : NodeId) (field : String) : Option Value :=
  (s.get? id).bind fun d => d.get? field

/-- The number of entries before that of a node. -/
def position? (s : DetailStore) (id : NodeId) : Option Nat :=
  s.entries.findIdx? fun e => e.1 = id

/-- The number of entries. -/
def size (s : DetailStore) : Nat := s.entries.length

/-- There are no entries. -/
def isEmpty (s : DetailStore) : Bool := s.entries.isEmpty

/-- The nodes in the order of their entries. -/
def nodes (s : DetailStore) : List NodeId := s.entries.map Prod.fst

/-- The names of the fields recorded for any node, in increasing order. -/
def fieldNames (s : DetailStore) : List String :=
  sortedNames (s.entries.flatMap fun e => e.2.names)

end DetailStore

/-- The document of details or of a summary. -/
def Details.toJson (d : Details) : Json := .object (Value.entriesToJson d.entries)

end GraphSurvey
