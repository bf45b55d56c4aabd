import GraphSurvey.Detail.Store
import GraphSurvey.Proofs.Dictionary
import Mathlib

/-!
# What a store shows

A store shows which fields its nodes have and what they hold. When a field is recorded, one field of
one node is new; when an entry is opened, none is. The nodes keep their order.

## Main definitions

* `GraphSurvey.View` — what every field of every node holds.
* `GraphSurvey.View.recordAll`, `GraphSurvey.DetailStore.recordAll` — fields of one node recorded
  one after the other.

## Main results

* `GraphSurvey.DetailStore.field?_recordAll`, `GraphSurvey.DetailStore.field?_openEntry` — what a
  store shows after a step.
* `GraphSurvey.View.recordAll_eq_getLast?` — the last value that is recorded for a field counts.
* `GraphSurvey.DetailStore.nodes_recordAll`, `GraphSurvey.DetailStore.nodes_openEntry` — the nodes
  after a step.
* `GraphSurvey.DetailStore.ext_field?` — a store is determined by its nodes and by what it shows.
-/

namespace GraphSurvey

theorem find?_changeEntry (id other : NodeId) (f : Details → Details)
    (entries : List (NodeId × Details)) :
    ((changeEntry id f entries).find? fun e => e.1 = other).map Prod.snd =
      if other = id then some (f (((entries.find? fun e => e.1 = id).map Prod.snd).getD ∅))
      else (entries.find? fun e => e.1 = other).map Prod.snd := by
  induction entries with
  | nil =>
    by_cases h : other = id
    · subst h; simp [changeEntry]
    · simp [changeEntry, h, Ne.symm h]
  | cons head rest ih =>
    obtain ⟨first, d⟩ := head
    by_cases hid : first = id
    · subst hid
      by_cases h : other = first
      · subst h; simp [changeEntry]
      · simp [changeEntry, h, Ne.symm h]
    · by_cases h : first = other
      · subst h; simp [changeEntry, hid]
      · simpa [changeEntry, hid, h] using ih

/-! ## Views -/

/-- What every field of every node holds. -/
abbrev View := NodeId → String → Option Value

namespace View

variable {view view' : View} {id other : NodeId} {field : String}

/-- The view after a field was recorded. -/
def record (view : View) (id : NodeId) (field : String) (v : Value) : View := fun other name =>
  if other = id ∧ name = field then some v else view other name

/-- The view after fields of a node were recorded, one after the other. -/
def recordAll (view : View) (id : NodeId) (writes : List (String × Value)) : View :=
  writes.foldl (fun view w => view.record id w.1 w.2) view

@[simp] theorem recordAll_cons (view : View) (id : NodeId) (w : String × Value)
    (rest : List (String × Value)) :
    view.recordAll id (w :: rest) = (view.record id w.1 w.2).recordAll id rest := rfl

theorem record_congr (v : Value) (name : String) (h : view other field = view' other field) :
    view.record id name v other field = view'.record id name v other field := by
  rw [record, record, h]

/-- What a field holds after others were recorded depends on what it held, and on nothing else. -/
theorem recordAll_congr (writes : List (String × Value))
    (h : view other field = view' other field) :
    view.recordAll id writes other field = view'.recordAll id writes other field := by
  induction writes generalizing view view' with
  | nil => exact h
  | cons w rest ih => exact ih (record_congr w.2 w.1 h)

/-- A field that is not recorded holds what it held. -/
theorem recordAll_of_not_written {writes : List (String × Value)}
    (h : ∀ w ∈ writes, w.1 ≠ field) : view.recordAll id writes other field = view other field := by
  induction writes generalizing view with
  | nil => rfl
  | cons w rest ih =>
    have hw : field ≠ w.1 := (h w List.mem_cons_self).symm
    rw [recordAll_cons, ih fun w' hw' => h w' (List.mem_cons_of_mem _ hw'), record,
      if_neg fun hsame => hw hsame.2]

/-- What a field holds after others were recorded was recorded or is what it held. -/
theorem mem_or_eq_of_recordAll {writes : List (String × Value)} {v : Value}
    (h : view.recordAll id writes other field = some v) :
    (field, v) ∈ writes ∨ view other field = some v := by
  induction writes generalizing view with
  | nil => exact .inr h
  | cons w rest ih =>
    rw [recordAll_cons] at h
    rcases ih h with hmem | hheld
    · exact .inl (List.mem_cons_of_mem _ hmem)
    · rw [record] at hheld
      by_cases hsame : other = id ∧ field = w.1
      · rw [if_pos hsame] at hheld
        have hw : w = (field, v) := Prod.ext hsame.2.symm (Option.some.inj hheld)
        exact .inl (List.mem_cons.mpr (.inl hw.symm))
      · rw [if_neg hsame] at hheld
        exact .inr hheld

/-- A field of the node holds the last value that was recorded for it, and what it held before if
there is none. -/
theorem recordAll_eq_getLast? (view : View) (id : NodeId) (field : String)
    (writes : List (String × Value)) :
    view.recordAll id writes id field =
      (writes.filterMap fun w => if w.1 = field then some w.2 else none).getLast?.or
        (view id field) := by
  induction writes generalizing view with
  | nil => rfl
  | cons w rest ih =>
    rw [recordAll_cons, ih, List.filterMap_cons, record]
    by_cases hw : w.1 = field
    · rw [if_pos hw, if_pos ⟨rfl, hw.symm⟩, List.getLast?_cons]
      cases (rest.filterMap fun w => if w.1 = field then some w.2 else none).getLast? <;> rfl
    · rw [if_neg hw, if_neg fun hsame => hw hsame.2.symm]

/-- A field that held nothing holds what was recorded, if anything was. -/
theorem recordAll_toList (h : view id field = none) (o : Option Value) (other : NodeId) :
    view.recordAll id (o.map fun v => (field, v)).toList other field =
      if other = id then o else view other field := by
  cases o with
  | none =>
    by_cases hid : other = id
    · subst hid
      rw [if_pos rfl]
      exact h
    · rw [if_neg hid]
      rfl
  | some v =>
    show (if other = id ∧ field = field then some v else view other field) = _
    simp only [and_true]

end View

/-! ## Fields -/

namespace DetailStore

variable {s : DetailStore} {id other : NodeId} {field : String} {v : Value}

/-- The details of a node after a change. -/
theorem get?_change (s : DetailStore) (id other : NodeId) (f : Details → Details) :
    (s.change id f).get? other =
      if other = id then some (f ((s.get? id).getD ∅)) else s.get? other :=
  find?_changeEntry id other f s.entries

/-- A recorded field holds its value, and all other fields hold what they held before. -/
theorem field?_record (s : DetailStore) (id : NodeId) (field : String) (v : Value) :
    (s.record id field v).field? = View.record s.field? id field v := by
  funext other name
  rw [View.record, field?, record, get?_change]
  by_cases hid : other = id
  · subst hid
    simp only [if_true, true_and, Option.bind_some, Dictionary.get?_insert, field?]
    by_cases hname : name = field
    · simp [hname]
    · cases s.get? other <;> simp [hname]
  · simp [hid, field?]

/-- An opened entry holds no new field. -/
@[simp] theorem field?_openEntry (s : DetailStore) (id : NodeId) :
    (s.openEntry id).field? = s.field? := by
  funext other name
  rw [field?, openEntry, get?_change]
  by_cases hid : other = id
  · subst hid
    cases h : s.get? other <;> simp [field?, h]
  · simp [hid, field?]

/-- Records fields of a node, one after the other. -/
def recordAll (s : DetailStore) (id : NodeId) (writes : List (String × Value)) : DetailStore :=
  writes.foldl (fun s w => s.record id w.1 w.2) s

theorem recordAll_append (s : DetailStore) (id : NodeId) (writes later : List (String × Value)) :
    s.recordAll id (writes ++ later) = (s.recordAll id writes).recordAll id later :=
  List.foldl_append

/-- Recording fields of a node leaves the details of the others as they are. -/
theorem get?_recordAll_of_ne (h : other ≠ id) (writes : List (String × Value)) :
    (s.recordAll id writes).get? other = s.get? other := by
  induction writes generalizing s with
  | nil => rfl
  | cons w rest ih =>
    rw [recordAll, List.foldl_cons, ← recordAll, ih, record, get?_change, if_neg h]

theorem field?_recordAll (s : DetailStore) (id : NodeId) (writes : List (String × Value)) :
    (s.recordAll id writes).field? = View.recordAll s.field? id writes := by
  induction writes generalizing s with
  | nil => rfl
  | cons w rest ih =>
    rw [recordAll, List.foldl_cons, ← recordAll, ih, field?_record]
    rfl

/-! ## Nodes -/

theorem nodes_change_of_mem {f : Details → Details} (h : id ∈ s.nodes) :
    (s.change id f).nodes = s.nodes :=
  (map_fst_changeEntry id f s.entries).trans (if_pos h)

theorem nodes_change_of_not_mem {f : Details → Details} (h : id ∉ s.nodes) :
    (s.change id f).nodes = s.nodes ++ [id] :=
  (map_fst_changeEntry id f s.entries).trans (if_neg h)

/-- Recording a field of a node with an entry keeps the nodes. -/
theorem nodes_record (h : id ∈ s.nodes) : (s.record id field v).nodes = s.nodes :=
  nodes_change_of_mem h

theorem nodes_recordAll (h : id ∈ s.nodes) (writes : List (String × Value)) :
    (s.recordAll id writes).nodes = s.nodes := by
  induction writes generalizing s with
  | nil => rfl
  | cons w rest ih =>
    rw [recordAll, List.foldl_cons, ← recordAll, ih (by rwa [nodes_record h]), nodes_record h]

/-- Recording fields keeps the order of the nodes; the node comes last if it is new. -/
theorem nodes_isPrefix_recordAll (s : DetailStore) (id : NodeId) (writes : List (String × Value)) :
    s.nodes <+: (s.recordAll id writes).nodes := by
  cases writes with
  | nil => exact List.prefix_rfl
  | cons w rest =>
    -- the node has an entry from the first field on
    have hfirst : s.nodes <+: (s.record id w.1 w.2).nodes ∧ id ∈ (s.record id w.1 w.2).nodes := by
      by_cases h : id ∈ s.nodes
      · rw [nodes_record h]
        exact ⟨List.prefix_rfl, h⟩
      · rw [record, nodes_change_of_not_mem h]
        exact ⟨List.prefix_append _ _, by simp⟩
    rw [recordAll, List.foldl_cons, ← recordAll, nodes_recordAll hfirst.2]
    exact hfirst.1

/-- A node whose entry is opened comes last. -/
theorem nodes_openEntry (h : id ∉ s.nodes) : (s.openEntry id).nodes = s.nodes ++ [id] :=
  nodes_change_of_not_mem h

theorem mem_nodes_openEntry (s : DetailStore) (id : NodeId) : id ∈ (s.openEntry id).nodes := by
  by_cases h : id ∈ s.nodes
  · rw [openEntry, nodes_change_of_mem h]; exact h
  · rw [nodes_openEntry h]; simp

/-- Stores with the same nodes have the same nodes after an entry was opened. -/
theorem nodes_openEntry_congr {t : DetailStore} (h : s.nodes = t.nodes) (id : NodeId) :
    (s.openEntry id).nodes = (t.openEntry id).nodes := by
  by_cases hmem : id ∈ s.nodes
  · rw [openEntry, openEntry, nodes_change_of_mem hmem, nodes_change_of_mem (h ▸ hmem), h]
  · rw [nodes_openEntry hmem, nodes_openEntry (h ▸ hmem), h]

/-- The nodes with details are those of the store. -/
theorem isSome_get?_iff : (s.get? id).isSome ↔ id ∈ s.nodes := by
  simp [get?, nodes]

/-- The details of a node are those of its entry. -/
theorem get?_of_mem {d : Details} (h : (id, d) ∈ s.entries) : s.get? id = some d := by
  cases hfind : s.entries.find? fun e => e.1 = id with
  | none => exact absurd (List.find?_eq_none.mp hfind _ h) (by simp)
  | some e =>
    have hid : e.1 = id := by simpa using List.find?_some hfind
    have heq := List.inj_on_of_nodup_map s.nodup (List.mem_of_find?_eq_some hfind) h hid
    rw [get?, hfind, heq]
    rfl

/-- A store is its nodes with their details. -/
theorem entries_eq (s : DetailStore) :
    s.entries = s.nodes.map fun id => (id, (s.get? id).getD ∅) := by
  rw [nodes, List.map_map]
  refine (List.map_id' _).symm.trans (List.map_congr_left fun e he => ?_)
  rw [Function.comp_apply, get?_of_mem he]
  rfl

/-- Nodes of stores that show the same of them have the same details. -/
theorem get?_eq_of_field? {t : DetailStore} (hid : id ∈ s.nodes) (hother : other ∈ t.nodes)
    (h : ∀ field, s.field? id field = t.field? other field) : s.get? id = t.get? other := by
  obtain ⟨d, hd⟩ := Option.isSome_iff_exists.mp (isSome_get?_iff.mpr hid)
  obtain ⟨d', hd'⟩ := Option.isSome_iff_exists.mp (isSome_get?_iff.mpr hother)
  have hsame : d = d' := Dictionary.ext_get? fun name => by
    have hname := h name
    rwa [field?, field?, hd, hd'] at hname
  rw [hd, hd', hsame]

/-- A store with renamed nodes that shows the same of them has the same entries up to names. -/
theorem entries_eq_map {t : DetailStore} {f : NodeId → NodeId} (hnodes : t.nodes = s.nodes.map f)
    (hfield : ∀ id ∈ s.nodes, ∀ field, t.field? (f id) field = s.field? id field) :
    t.entries = s.entries.map fun e => (f e.1, e.2) := by
  rw [t.entries_eq, s.entries_eq, hnodes, List.map_map, List.map_map]
  refine List.map_congr_left fun id hid => ?_
  have hmem : f id ∈ t.nodes := hnodes ▸ List.mem_map_of_mem hid
  rw [Function.comp_apply, Function.comp_apply, get?_eq_of_field? hmem hid (hfield id hid)]

/-- Stores that have the same nodes and show the same are the same. -/
theorem ext_field? {t : DetailStore} (hnodes : s.nodes = t.nodes) (hfield : s.field? = t.field?) :
    s = t := by
  have hentries : s.entries = t.entries := by
    rw [s.entries_eq, t.entries_eq, ← hnodes]
    refine List.map_congr_left fun id hid => ?_
    rw [get?_eq_of_field? hid (hnodes ▸ hid) fun field => congrFun (congrFun hfield id) field]
  obtain ⟨entries, _⟩ := s
  obtain ⟨entries', _⟩ := t
  obtain rfl : entries = entries' := hentries
  rfl

theorem field?_of_not_mem (h : id ∉ s.nodes) (field : String) : s.field? id field = none := by
  rw [← isSome_get?_iff, Option.not_isSome_iff_eq_none] at h
  rw [field?, h]
  rfl

end DetailStore

end GraphSurvey
