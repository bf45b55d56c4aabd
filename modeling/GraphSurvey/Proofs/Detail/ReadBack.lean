import GraphSurvey.Detail.Store
import GraphSurvey.Proofs.Document.Accepted
import GraphSurvey.Report.Table
import Mathlib

/-!
# Values are told by their texts

Nothing in the text of a value names its kind. It is known from the document alone: an integer is
read of a number, a text of a text, a sequence of an array and a map of an object, and of `null`
nothing is read. So a value is read back from each of its texts unless its containers are nested too
deep for the reader, and two values with a text in common are the same.

## Main definitions

* `GraphSurvey.Value.Fits` — integers fit signed words, and the names of maps increase.
* `GraphSurvey.Value.nesting` — how deep the containers of a value are nested.

## Main results

* `GraphSurvey.Value.ofTree_tree` — the tree of a value stands for it.
* `GraphSurvey.Value.decode_tree` — what is read of the document of a value.
* `GraphSurvey.Value.decode_yields` — what is read fits and is nested no deeper than is allowed.
* `GraphSurvey.values_told_by_text` — values are read back and told apart by their texts.
-/

namespace GraphSurvey

/-! ## Nested containers -/

/-- The outcome of reading as many containers inside each other where `depth` of them may be
opened. -/
def withinDepth (nesting depth : Nat) : Except Fault Unit :=
  if nesting ≤ depth then .ok () else .error .malformed

theorem withinDepth_succ_succ (nesting depth : Nat) :
    withinDepth (nesting + 1) (depth + 1) = withinDepth nesting depth := by
  simp only [withinDepth, Nat.add_le_add_iff_right]

/-- The deeper of two values decides. -/
theorem withinDepth_bind (first second depth : Nat) :
    (withinDepth first depth >>= fun _ => withinDepth second depth) =
      withinDepth (max first second) depth := by
  by_cases hfirst : first ≤ depth
  · simp only [withinDepth, max_le_iff, hfirst, true_and]
    rfl
  · simp only [withinDepth, max_le_iff, hfirst, false_and]
    rfl

/-- A number is read the same in every depth. -/
theorem Tree.check_number (depth : Nat) (n : Numeral) :
    (Tree.number n).check depth = n.number >>= fun _ => .ok () := by
  cases depth <;> rfl

theorem Tree.check_text (depth : Nat) (t : QuotedText) :
    (Tree.text t).check depth = t.content >>= fun _ => .ok () := by
  cases depth <;> rfl

namespace Value

/-! ## Recorded values -/

mutual

/-- The integers in the value fit signed words, and the names of its maps increase. -/
def Fits : Value → Prop
  | .int i => Decoder.IsSigned i
  | .text _ => True
  | .seq items => ItemsFit items
  | .map entries => Increasing entries ∧ EntriesFit entries

/-- All of the values fit. -/
def ItemsFit : List Value → Prop
  | [] => True
  | v :: rest => v.Fits ∧ ItemsFit rest

/-- The values of all entries fit. -/
def EntriesFit : List (String × Value) → Prop
  | [] => True
  | (_, v) :: rest => v.Fits ∧ EntriesFit rest

end

mutual

/-- Whether the value fits. -/
def decideFits : (v : Value) → Decidable v.Fits
  | .int i => inferInstanceAs (Decidable (Decoder.IsSigned i))
  | .text _ => .isTrue trivial
  | .seq items => decideItemsFit items
  | .map entries => @instDecidableAnd _ _ inferInstance (decideEntriesFit entries)

/-- Whether all of the values fit. -/
def decideItemsFit : (items : List Value) → Decidable (ItemsFit items)
  | [] => .isTrue trivial
  | v :: rest => @instDecidableAnd _ _ (decideFits v) (decideItemsFit rest)

/-- Whether the values of all entries fit. -/
def decideEntriesFit : (entries : List (String × Value)) → Decidable (EntriesFit entries)
  | [] => .isTrue trivial
  | (_, v) :: rest => @instDecidableAnd _ _ (decideFits v) (decideEntriesFit rest)

end

instance : DecidablePred Fits := decideFits

mutual

/-- How deep the containers of the value are nested. -/
def nesting : Value → Nat
  | .int _ | .text _ => 0
  | .seq items => itemsNesting items + 1
  | .map entries => entriesNesting entries + 1

/-- How deep the containers of the values are nested. -/
def itemsNesting : List Value → Nat
  | [] => 0
  | v :: rest => max v.nesting (itemsNesting rest)

/-- How deep the containers of the values of the entries are nested. -/
def entriesNesting : List (String × Value) → Nat
  | [] => 0
  | (_, v) :: rest => max v.nesting (entriesNesting rest)

end

section Parts

variable {items : List Value} {entries : List (String × Value)} {depth : Nat}

theorem itemsFit_iff : ItemsFit items ↔ ∀ v ∈ items, v.Fits := by
  induction items with
  | nil => simp [ItemsFit]
  | cons v rest ih => simp [ItemsFit, ih]

theorem entriesFit_iff : EntriesFit entries ↔ ∀ e ∈ entries, e.2.Fits := by
  induction entries with
  | nil => simp [EntriesFit]
  | cons e rest ih => simp [EntriesFit, ih]

theorem itemsNesting_le_iff : itemsNesting items ≤ depth ↔ ∀ v ∈ items, v.nesting ≤ depth := by
  induction items with
  | nil => simp [itemsNesting]
  | cons v rest ih => simp [itemsNesting, ih]

theorem entriesNesting_le_iff :
    entriesNesting entries ≤ depth ↔ ∀ e ∈ entries, e.2.nesting ≤ depth := by
  induction entries with
  | nil => simp [entriesNesting]
  | cons e rest ih => simp [entriesNesting, ih]

/-- A sequence fits and is nested no deeper than is allowed if its items are. -/
theorem fits_seq (h : ∀ v ∈ items, v.Fits ∧ v.nesting ≤ depth) :
    (seq items).Fits ∧ (seq items).nesting ≤ depth + 1 :=
  ⟨itemsFit_iff.mpr fun v hv => (h v hv).1,
    Nat.succ_le_succ (itemsNesting_le_iff.mpr fun v hv => (h v hv).2)⟩

/-- The map of a dictionary fits and is nested no deeper than is allowed if its values are. -/
theorem fits_map {d : Dictionary Value} (h : ∀ e ∈ d.entries, e.2.Fits ∧ e.2.nesting ≤ depth) :
    (map d.entries).Fits ∧ (map d.entries).nesting ≤ depth + 1 :=
  ⟨⟨d.increasing, entriesFit_iff.mpr fun e he => (h e he).1⟩,
    Nat.succ_le_succ (entriesNesting_le_iff.mpr fun e he => (h e he).2)⟩

end Parts

/-! ## From values to trees and back -/

/-- The integer of a numeral is the one that is read of it. -/
theorem ofNumeral_eq_some_iff {n : Numeral} {v : Value} :
    ofNumeral n = some v ↔ ∃ i, Decoder.integer 0 (.number n) = .ok i ∧ .int i = v := by
  rw [ofNumeral, Decoder.integer, Decoder.number]
  cases n.number with
  | error f =>
    refine iff_of_false (by simp) ?_
    rintro ⟨i, h, -⟩
    cases h
  | ok x =>
    cases x with
    | natural k =>
      rw [ok_bind]
      by_cases hk : k < signedBound <;> simp [hk]
    | negative k => simp [ok_bind]
    | real x =>
      refine iff_of_false (by simp) ?_
      rintro ⟨i, h, -⟩
      cases h

mutual

/-- The tree of a value stands for it. -/
theorem ofTree_tree {v : Value} (h : v.Fits) : ofTree v.toJson.tree = some v := by
  match v with
  | .int i => exact ofNumeral_eq_some_iff.mpr ⟨i, Decoder.integer_int h 0, rfl⟩
  | .text s => rw [toJson, Json.tree, ofTree, QuotedText.content_written]; rfl
  | .seq items => rw [toJson, Json.tree, ofTree, ofItems_trees h, Option.map_some]
  | .map entries =>
    have hentries := ofMembers_trees ∅ h.2
    rw [← Dictionary.ofList_eq_insertAll, Dictionary.entries_ofList h.1] at hentries
    rw [toJson, Json.tree, ofTree]
    exact congrArg (Option.map Value.map) hentries

theorem ofItems_trees {items : List Value} (h : ItemsFit items) :
    ofItems (Json.itemTrees (itemsToJson items)) = some items := by
  match items with
  | [] => rfl
  | v :: rest =>
    rw [itemsToJson, Json.itemTrees, ofItems, ofTree_tree h.1, ofItems_trees h.2]
    rfl

/-- The entries of a map are put among those before them. -/
theorem ofMembers_trees {entries : List (String × Value)} (d : Dictionary Value)
    (h : EntriesFit entries) :
    ofMembers d.entries (Json.memberTrees (entriesToJson entries)) =
      some (d.insertAll entries).entries := by
  match entries with
  | [] => rfl
  | (name, v) :: rest =>
    rw [entriesToJson, Json.memberTrees, ofMembers, QuotedText.content_written, ofTree_tree h.1]
    exact ofMembers_trees (d.insert name v) h.2

end

mutual

/-- Reading the tree of a value as one of any shape fails only at a container too many. -/
theorem check_tree (depth : Nat) {v : Value} (h : v.Fits) :
    v.toJson.tree.check depth = withinDepth v.nesting depth := by
  match v with
  | .int i =>
    obtain ⟨x, hx, -⟩ := bind_ok (Decoder.integer_int h depth)
    replace hx : (Numeral.ofInt i).number = .ok x := hx
    rw [toJson, Json.tree, Tree.check_number, hx]
    rfl
  | .text s =>
    rw [toJson, Json.tree, Tree.check_text, QuotedText.content_written]
    rfl
  | .seq items =>
    rw [toJson, Json.tree, nesting]
    cases depth with
    | zero => rfl
    | succ depth => rw [Tree.check, checkItems_trees depth h, withinDepth_succ_succ]
  | .map entries =>
    rw [toJson, Json.tree, nesting]
    cases depth with
    | zero => rfl
    | succ depth => rw [Tree.check, checkMembers_trees depth h.2, withinDepth_succ_succ]

theorem checkItems_trees (depth : Nat) {items : List Value} (h : ItemsFit items) :
    Tree.checkItems depth (Json.itemTrees (itemsToJson items)) =
      withinDepth (itemsNesting items) depth := by
  match items with
  | [] => rfl
  | v :: rest =>
    rw [itemsToJson, Json.itemTrees, Tree.checkItems, check_tree depth h.1,
      checkItems_trees depth h.2, withinDepth_bind, itemsNesting]

theorem checkMembers_trees (depth : Nat) {entries : List (String × Value)}
    (h : EntriesFit entries) :
    Tree.checkMembers depth (Json.memberTrees (entriesToJson entries)) =
      withinDepth (entriesNesting entries) depth := by
  match entries with
  | [] => rfl
  | (name, v) :: rest =>
    rw [entriesToJson, Json.memberTrees, Tree.checkMembers, QuotedText.content_written, ok_bind,
      check_tree depth h.1, checkMembers_trees depth h.2, withinDepth_bind, entriesNesting]

end

/-- What is read of the document of a value: the value, unless its containers are nested too
deep. -/
theorem decode_tree (depth : Nat) {v : Value} (h : v.Fits) :
    decode depth v.toJson.tree =
      if v.nesting ≤ depth then .ok v else .error .malformed := by
  have htree := ofTree_tree h
  rw [decode, check_tree depth h, withinDepth]
  split
  · rw [ok_bind, htree]
  · rfl

/-! ## What is read -/

mutual

/-- A value that stands in a tree without faults fits and is nested as deep as the tree at most. -/
theorem fits_of_ofTree {depth : Nat} {t : Tree} {v : Value} (hcheck : t.check depth = .ok ())
    (h : ofTree t = some v) : v.Fits ∧ v.nesting ≤ depth := by
  match t with
  | .number n =>
    obtain ⟨i, hi, rfl⟩ := ofNumeral_eq_some_iff.mp h
    exact ⟨Decoder.integer_yields hi, Nat.zero_le depth⟩
  | .text s =>
    obtain ⟨content, -, rfl⟩ := Option.map_eq_some_iff.mp h
    exact ⟨trivial, Nat.zero_le depth⟩
  | .array is =>
    obtain ⟨items, hitems, rfl⟩ := Option.map_eq_some_iff.mp h
    cases depth with
    | zero => cases hcheck
    | succ depth => exact fits_seq (fits_of_ofItems hcheck hitems)
  | .object ms =>
    obtain ⟨entries, hentries, rfl⟩ := Option.map_eq_some_iff.mp h
    cases depth with
    | zero => cases hcheck
    | succ depth =>
      obtain ⟨d, rfl, hd⟩ := fits_of_ofMembers (d := ∅) (List.forall_mem_nil _) hcheck hentries
      exact fits_map hd
  | .null | .bool _ | .garbled _ _ | .missing _ => cases h

theorem fits_of_ofItems {depth : Nat} {is : Items} {items : List Value}
    (hcheck : Tree.checkItems depth is = .ok ()) (h : ofItems is = some items) :
    ∀ v ∈ items, v.Fits ∧ v.nesting ≤ depth := by
  match is with
  | .close =>
    cases h
    exact List.forall_mem_nil _
  | .stop f => cases hcheck
  | .item t rest =>
    obtain ⟨_, ht, hrest⟩ := bind_ok hcheck
    rw [ofItems] at h
    cases hv : ofTree t with
    | none => simp only [hv] at h; cases h
    | some v =>
      simp only [hv] at h
      obtain ⟨more, hmore, rfl⟩ := Option.map_eq_some_iff.mp h
      exact List.forall_mem_cons.mpr ⟨fits_of_ofTree ht hv, fits_of_ofItems hrest hmore⟩

/-- The entries before the rest of an object stay in a dictionary with those of its rest. -/
theorem fits_of_ofMembers {depth : Nat} {ms : Members} {d : Dictionary Value}
    {entries : List (String × Value)} (hd : ∀ e ∈ d.entries, e.2.Fits ∧ e.2.nesting ≤ depth)
    (hcheck : Tree.checkMembers depth ms = .ok ()) (h : ofMembers d.entries ms = some entries) :
    ∃ d' : Dictionary Value, d'.entries = entries ∧
      ∀ e ∈ d'.entries, e.2.Fits ∧ e.2.nesting ≤ depth := by
  match ms with
  | .close => exact ⟨d, Option.some.inj h, hd⟩
  | .stop f => cases hcheck
  | .unnamed t => cases hcheck
  | .member name t rest =>
    obtain ⟨key, hkey, hcheck⟩ := bind_ok hcheck
    obtain ⟨_, ht, hrest⟩ := bind_ok hcheck
    rw [ofMembers, hkey] at h
    cases hv : ofTree t with
    | none => simp only [hv] at h; cases h
    | some v =>
      simp only [hv] at h
      refine fits_of_ofMembers (d := d.insert key v) (fun e he => ?_) hrest h
      rcases Dictionary.mem_of_mem_insert he with hold | rfl
      · exact hd e hold
      · exact fits_of_ofTree ht hv

end

/-- What is read fits, and its containers are nested no deeper than is allowed. -/
theorem decode_yields : decode.Yields fun depth v => v.Fits ∧ v.nesting ≤ depth := by
  intro depth t v h
  obtain ⟨_, hcheck, h⟩ := bind_ok h
  cases hv : ofTree t with
  | none => simp only [hv] at h; cases h
  | some w =>
    simp only [hv] at h
    obtain rfl := Except.ok.inj h
    exact fits_of_ofTree hcheck hv

end Value

/-! ## Cells and details -/

namespace Cell

/-- The value of the cell fits if it has one. -/
def Fits : Cell → Prop
  | .value v => v.Fits
  | .absent => True

instance : DecidablePred Fits
  | .value v => inferInstanceAs (Decidable v.Fits)
  | .absent => .isTrue trivial

/-- The tree of a cell stands for its value, and that of an absent cell for none. -/
theorem ofOption_ofTree {c : Cell} (h : c.Fits) : ofOption (Value.ofTree c.toJson.tree) = c := by
  cases c with
  | value v => exact congrArg ofOption (Value.ofTree_tree h)
  | absent => rfl

/-- Cells with a text in common are the same. -/
theorem eq_of_writes {a b : Cell} {cs : List Char} (ha : a.Fits) (hb : b.Fits)
    (hwrites : a.toJson.Writes cs) (hwrites' : b.toJson.Writes cs) : a = b := by
  rw [← ofOption_ofTree ha, ← ofOption_ofTree hb, Json.tree_eq_of_writes hwrites hwrites']

end Cell

/-- The document of details is that of the map of their fields. -/
theorem Details.toJson_eq (d : Details) : Details.toJson d = (Value.map d.entries).toJson := by
  rw [Details.toJson, Value.toJson]

/-- Details with a text in common are the same. -/
theorem Details.eq_of_writes {d e : Details} {cs : List Char} (hd : ∀ x ∈ d.entries, x.2.Fits)
    (he : ∀ x ∈ e.entries, x.2.Fits) (hwrites : (Details.toJson d).Writes cs)
    (hwrites' : (Details.toJson e).Writes cs) : d = e := by
  have hdfits : (Value.map d.entries).Fits := ⟨d.increasing, Value.entriesFit_iff.mpr hd⟩
  have hefits : (Value.map e.entries).Fits := ⟨e.increasing, Value.entriesFit_iff.mpr he⟩
  rw [toJson_eq] at hwrites hwrites'
  have htree := Json.tree_eq_of_writes hwrites hwrites'
  have hmap : some (Value.map d.entries) = some (Value.map e.entries) := by
    rw [← Value.ofTree_tree hdfits, ← Value.ofTree_tree hefits, htree]
  have hentries : d.entries = e.entries := Value.map.inj (Option.some.inj hmap)
  rw [← Dictionary.ofList_entries d, hentries, Dictionary.ofList_entries]

/-- Values are read back from every text that is written for them as long as their containers are
nested no deeper than the reader allows, and all values that are read are of this kind. Their texts
tell them apart, however deep they are nested: cells with a text in common have the same value or
are both absent, and details or summaries with a text in common have the same fields with the same
values. -/
theorem values_told_by_text :
    (∀ v : Value, v.Fits → v.nesting ≤ nestingLimit →
      ∀ s : String, v.toJson.Writes s.toList → Value.decode.ofText s = .ok v) ∧
    (∀ (s : String) (v : Value), Value.decode.ofText s = .ok v →
      v.Fits ∧ v.nesting ≤ nestingLimit) ∧
    (∀ a b : Cell, a.Fits → b.Fits →
      ∀ cs, a.toJson.Writes cs → b.toJson.Writes cs → a = b) ∧
    ∀ d e : Details, (∀ x ∈ d.entries, x.2.Fits) → (∀ x ∈ e.entries, x.2.Fits) →
      ∀ cs, (Details.toJson d).Writes cs → (Details.toJson e).Writes cs → d = e := by
  refine ⟨fun v hfits hnesting s hs => ?_, fun s v h => Value.decode_yields.of_ofText h,
    fun a b ha hb cs => Cell.eq_of_writes ha hb, fun d e hd he cs => Details.eq_of_writes hd he⟩
  rw [Value.decode.ofText_of_writes hs, Value.decode_tree nestingLimit hfits, if_pos hnesting]

/-- A value of all kinds. Its texts look like a number, like nothing and like brackets, and one of
its names is empty. -/
def mixedValue : Value :=
  .seq [.int (-9223372036854775808), .text "1", .text "null", .seq [], .map [],
    .map [("", .seq [.map [("[]", .text "\"\n\u0001\\")]]), ("0", .int 0)]]

theorem values_told_by_text_mixedValue :
    (mixedValue.Fits ∧ mixedValue.nesting ≤ nestingLimit) ∧
    Value.decode.ofText mixedValue.toJson.compact = .ok mixedValue ∧
    Value.decode.ofText mixedValue.toJson.indented = .ok mixedValue ∧
    ¬ (Cell.value (.text "null")).toJson.Writes Cell.absent.toJson.chars ∧
    ¬ (Details.toJson ((∅ : Details).insert "a" (.int 1))).Writes
      (Details.toJson ((∅ : Details).insert "a" (.text "1"))).chars := by
  obtain ⟨hread, hyields, hcells, hdetails⟩ := values_told_by_text
  have hcompact := hread mixedValue (by decide) (by decide) _ (Json.writes_compact _)
  have hindented := hread mixedValue (by decide) (by decide) _ (Json.writes_indented _)
  refine ⟨hyields _ _ hcompact, hcompact, hindented, fun hsame => ?_, fun hsame => ?_⟩
  · have hcell := hcells _ _ (by decide) (by decide) _ hsame (Json.writes_chars _)
    cases hcell
  · have hfields := hdetails _ _ (by decide) (by decide) _ hsame (Json.writes_chars _)
    have hvalue := congrArg (fun d : Details => (d.get? "a").map Value.kind) hfields
    exact absurd hvalue (by decide)

end GraphSurvey
