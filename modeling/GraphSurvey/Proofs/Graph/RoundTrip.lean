import GraphSurvey.Graph.Read
import GraphSurvey.Proofs.Document.Decoded
import Mathlib

/-!
# Graphs are read back

A graph is written as a document and read back part by part. All that can go wrong is in the
numbers: what is not finite is written as `null` and then refused, and the digits of a finite number
may be read as a number next to it, since the decoder of numbers rounds more than once.

## Main definitions

* `GraphSurvey.Binary64.ReadsBack`, `GraphSurvey.Binary32.ReadsBack` — the digits written for a
  number are read as the number.
* `GraphSurvey.Graph.doubles`, `GraphSurvey.Graph.singles` — the numbers in a graph.
* `GraphSurvey.Graph.Fits` — labels, extents and integers are words.

## Main results

* `GraphSurvey.Graph.decode_tree` — what is read of the document of a graph.
* `GraphSurvey.Graph.ofText_written` — a graph whose numbers are finite is read back from its text,
  and no other is.
-/

namespace GraphSurvey

variable {depth : Nat}

/-! ## Numbers -/

/-- A number in a graph: that of an attribute, or an element of a constant. -/
inductive StoredNumber where
  | double (x : Binary64)
  | single (x : Binary32)
  deriving DecidableEq, Repr

namespace StoredNumber

/-- The number is finite. -/
def isFinite : StoredNumber → Bool
  | .double x => x.isFinite
  | .single x => x.isFinite

/-- The digits that are written for the number are read as the number. -/
def ReadsBack : StoredNumber → Prop
  | .double x => Decoder.double.ofText (Json.double x).compact = .ok x
  | .single x => Decoder.single.ofText (Json.single x).compact = .ok x

instance : DecidablePred ReadsBack
  | .double x => inferInstanceAs (Decidable (Decoder.double.ofText (Json.double x).compact = .ok x))
  | .single x => inferInstanceAs (Decidable (Decoder.single.ofText (Json.single x).compact = .ok x))

end StoredNumber

namespace Decoder

/-- A number is read the same in every depth. -/
theorem double_depth (depth other : Nat) (t : Tree) : double depth t = double other t := by
  cases t <;> rfl

theorem single_depth (depth other : Nat) (t : Tree) : single depth t = single other t := by
  cases t <;> rfl

/-- What is read of a number: the number itself if its digits are read as it, and a fault if it has
no digits. -/
theorem real_tree {f : BinaryFormat} {layout : Layout} {d : Decoder (Binary f)} {x : Binary f}
    {j : Json} (hj : j.tree = Json.realTree layout x) (hdepth : ∀ n m t, d n t = d m t)
    (hnull : ∀ n, d n .null = .error .mismatch)
    (h : x.isFinite = true → d.ofText j.compact = .ok x) (depth : Nat) :
    d depth j.tree = readBack x.isFinite x := by
  cases hfinite : x.isFinite with
  | true => rw [hdepth depth nestingLimit, ← ofText_compact d, h hfinite, readBack_true]
  | false =>
    rw [hj, Json.realTree, hfinite]
    exact hnull depth

theorem double_tree {x : Binary64} (h : x.isFinite = true → (StoredNumber.double x).ReadsBack)
    (depth : Nat) : double depth (Json.double x).tree = readBack x.isFinite x :=
  real_tree rfl double_depth (fun _ => rfl) h depth

theorem single_tree {x : Binary32} (h : x.isFinite = true → (StoredNumber.single x).ReadsBack)
    (depth : Nat) : single depth (Json.single x).tree = readBack x.isFinite x :=
  real_tree rfl single_depth (fun _ => rfl) h depth

end Decoder

/-! ## Positions and shapes -/

/-- The position is a word. -/
def NodeId.Fits (id : NodeId) : Prop := id.index < wordBound

instance : DecidablePred NodeId.Fits := fun id => inferInstanceAs (Decidable (id.index < wordBound))

theorem NodeId.decode_tree {id : NodeId} (h : id.Fits) (depth : Nat) :
    NodeId.decode depth id.toJson.tree = .ok id := by
  rw [decode, Decoder.map, toJson, Decoder.size_int h]
  rfl

theorem NodeId.decode_list {ids : List NodeId} (h : ∀ id ∈ ids, id.Fits)
    (hnesting : (Json.array (ids.map toJson)).nesting ≤ depth) :
    Decoder.list NodeId.decode depth (Json.array (ids.map toJson)).tree = .ok ids :=
  Decoder.list_map_ok hnesting fun id hid d _ => decode_tree (h id hid) d

theorem Shape.decode_tree {shape : Shape} (h : ∀ n ∈ shape, n < wordBound)
    (hnesting : (Json.sizes shape).nesting ≤ depth) :
    Shape.decode depth (Json.sizes shape).tree = .ok shape :=
  Decoder.list_map_ok hnesting fun n hn d _ => Decoder.size_int (h n hn) d

/-! ## Types -/

namespace ResultType

mutual

/-- The extents in the type are words. -/
def Fits : ResultType → Prop
  | .tensor shape => ∀ n ∈ shape, n < wordBound
  | .tuple fields => FieldsFit fields
  | .named _ => True

/-- The extents in all of the types are words. -/
def FieldsFit : List ResultType → Prop
  | [] => True
  | ty :: rest => ty.Fits ∧ FieldsFit rest

end

mutual

/-- Whether the extents in the type are words. -/
def decideFits : (ty : ResultType) → Decidable ty.Fits
  | .tensor shape => inferInstanceAs (Decidable (∀ n ∈ shape, n < wordBound))
  | .tuple fields => decideFieldsFit fields
  | .named _ => .isTrue trivial

/-- Whether the extents in all of the types are words. -/
def decideFieldsFit : (fields : List ResultType) → Decidable (FieldsFit fields)
  | [] => .isTrue trivial
  | ty :: rest => @instDecidableAnd _ _ (decideFits ty) (decideFieldsFit rest)

end

instance : DecidablePred Fits := decideFits

/-- A type is read as its name tells. -/
theorem decode_tagged (name : String) (j : Json) (depth : Nat) :
    decode (depth + 1) (Json.tagged name j).tree =
      match name with
      | "Tensor" => ResultType.tensor <$> Shape.decode depth j.tree
      | "Tuple" => ResultType.tuple <$> decodeTuple depth j.tree
      | "Opaque" => ResultType.named <$> Decoder.text depth j.tree
      | _ => .error .mismatch := by
  rw [Decoder.tree_tagged, decode, QuotedText.content_written]
  show (match name with
    | "Tensor" => Shape.decode depth j.tree >>= fun shape => Except.ok (ResultType.tensor shape)
    | "Tuple" => decodeTuple depth j.tree >>= fun fields => Except.ok (ResultType.tuple fields)
    | "Opaque" => Decoder.text depth j.tree >>= fun name => Except.ok (ResultType.named name)
    | _ => Except.error Fault.mismatch) = _
  split
  · cases Shape.decode depth j.tree <;> rfl
  · cases decodeTuple depth j.tree <;> rfl
  · cases Decoder.text depth j.tree <;> rfl
  · rfl

mutual

/-- A type is read back. -/
theorem decode_tree {depth : Nat} {ty : ResultType} (hfits : ty.Fits)
    (hnesting : ty.toJson.nesting ≤ depth) : decode depth ty.toJson.tree = .ok ty := by
  match ty with
  | .tensor shape =>
    rw [toJson, Json.nesting_tagged] at hnesting
    obtain ⟨d, rfl⟩ := Nat.exists_eq_add_of_le' (Nat.le_of_add_left_le hnesting)
    rw [toJson, decode_tagged, Shape.decode_tree hfits (Nat.le_of_succ_le_succ hnesting)]
    rfl
  | .tuple fields =>
    rw [toJson, Json.nesting_tagged, Json.nesting] at hnesting
    have hfields : decodeFields (depth - 2) (Json.itemTrees (fieldsToJson fields)) = .ok fields :=
      decodeFields_trees hfits (Nat.le_sub_of_add_le hnesting)
    obtain ⟨d, rfl⟩ := Nat.exists_eq_add_of_le' (Nat.le_of_add_left_le hnesting : 2 ≤ depth)
    rw [toJson, decode_tagged, Json.tree]
    show ResultType.tuple <$> decodeFields d (Json.itemTrees (fieldsToJson fields)) = _
    rw [Nat.add_sub_cancel] at hfields
    rw [hfields]
    rfl
  | .named name =>
    rw [toJson, Json.nesting_tagged] at hnesting
    obtain ⟨d, rfl⟩ := Nat.exists_eq_add_of_le' (Nat.le_of_add_left_le hnesting)
    rw [toJson, decode_tagged, Decoder.text_text]
    rfl

/-- The types of a list are read back. -/
theorem decodeFields_trees {depth : Nat} {fields : List ResultType} (hfits : FieldsFit fields)
    (hnesting : Json.itemsNesting (fieldsToJson fields) ≤ depth) :
    decodeFields depth (Json.itemTrees (fieldsToJson fields)) = .ok fields := by
  match fields with
  | [] => rfl
  | ty :: rest =>
    obtain ⟨hty, hrest⟩ := hfits
    rw [fieldsToJson, Json.itemsNesting, max_le_iff] at hnesting
    rw [fieldsToJson, Json.itemTrees, decodeFields, decode_tree hty hnesting.1,
      decodeFields_trees hrest hnesting.2]
    rfl

end

end ResultType

/-! ## Attributes -/

namespace Attr

/-- The integers of the attribute fit signed words. -/
def Fits : Attr → Prop
  | .int i => Decoder.IsSigned i
  | .ints is => ∀ i ∈ is, Decoder.IsSigned i
  | .float _ | .text _ => True

instance : DecidablePred Fits
  | .int i => inferInstanceAs (Decidable (Decoder.IsSigned i))
  | .ints is => inferInstanceAs (Decidable (∀ i ∈ is, Decoder.IsSigned i))
  | .float _ | .text _ => .isTrue trivial

/-- The numbers in the attribute. -/
def numbers : Attr → List StoredNumber
  | .float x => [.double x]
  | .int _ | .ints _ | .text _ => []

/-- What is read of an attribute. -/
theorem decode_tree {a : Attr} (hfits : a.Fits) (hnesting : a.toJson.nesting ≤ depth)
    (hback : ∀ x ∈ a.numbers, x.isFinite = true → x.ReadsBack) :
    Attr.decode depth a.toJson.tree = readBack (a.numbers.all StoredNumber.isFinite) a := by
  cases a with
  | int i =>
    exact Decoder.variant_tagged rfl hnesting fun n _ =>
      Decoder.map_readBack Attr.int (Decoder.integer_int hfits n)
  | ints is =>
    refine Decoder.variant_tagged rfl hnesting fun n hn => Decoder.map_readBack Attr.ints ?_
    exact Decoder.list_map_ok hn fun i hi m _ => Decoder.integer_int (hfits i hi) m
  | float x =>
    have hx := Decoder.double_tree (hback (.double x) (List.mem_singleton_self _))
    rw [numbers, List.all_cons, List.all_nil, Bool.and_true]
    exact Decoder.variant_tagged rfl hnesting fun n _ => Decoder.map_readBack Attr.float (hx n)
  | text s =>
    exact Decoder.variant_tagged rfl hnesting fun n _ =>
      Decoder.map_readBack Attr.text (Decoder.text_text s n)

/-- What is read of the attributes of a call. -/
theorem decodeAll_tree {attrs : Dictionary Attr} (hfits : ∀ e ∈ attrs.entries, e.2.Fits)
    (hnesting : (Json.object (attrs.entries.map fun e => (e.1, e.2.toJson))).nesting ≤ depth)
    (hback : ∀ e ∈ attrs.entries, ∀ x ∈ e.2.numbers, x.isFinite = true → x.ReadsBack) :
    decodeAll depth (Json.object (attrs.entries.map fun e => (e.1, e.2.toJson))).tree =
      readBack (attrs.entries.all fun e => e.2.numbers.all StoredNumber.isFinite) attrs := by
  have hentries := Decoder.entries_map (fun a => a.numbers.all StoredNumber.isFinite) hnesting
    fun e he n hn => decode_tree (hfits e he) hn (hback e he)
  rw [decodeAll, Decoder.map_readBack Dictionary.ofList hentries, Dictionary.ofList_entries]

end Attr

/-! ## Calls -/

namespace Call

/-- The labels, extents and integers in the call are words. -/
structure Fits (c : Call) : Prop where
  args : ∀ id ∈ c.args, id.Fits
  attrs : ∀ e ∈ c.attrs.entries, e.2.Fits
  result : c.result.Fits

instance : DecidablePred Fits := fun c =>
  decidable_of_iff ((∀ id ∈ c.args, id.Fits) ∧ (∀ e ∈ c.attrs.entries, e.2.Fits) ∧ c.result.Fits)
    ⟨fun h => ⟨h.1, h.2.1, h.2.2⟩, fun h => ⟨h.args, h.attrs, h.result⟩⟩

/-- The numbers in the call. -/
def numbers (c : Call) : List StoredNumber := c.attrs.entries.flatMap fun e => e.2.numbers

/-- What is read of a call. -/
theorem decode_tree {c : Call} (hfits : c.Fits) (hnesting : c.toJson.nesting ≤ depth)
    (hback : ∀ x ∈ c.numbers, x.isFinite = true → x.ReadsBack) :
    Call.record.decode depth c.toJson.tree = readBack (c.numbers.all StoredNumber.isFinite) c := by
  refine Record.decode_object (s := ⟨some c.op, some c.args, some c.attrs, some c.result⟩)
    hnesting (fun n hmembers => ?_) rfl
  simp only [List.forall_mem_cons] at hmembers
  obtain ⟨-, hargs, hattrs, hresult, -⟩ := hmembers
  rw [numbers, List.forall_mem_flatMap] at hback
  rw [numbers, List.all_flatMap, ← Bool.and_true (List.all _ _)]
  exact Record.readMembers_cons_ok rfl rfl rfl (Decoder.text_text c.op n) <|
    Record.readMembers_cons_ok rfl rfl rfl (NodeId.decode_list hfits.args hargs) <|
    Record.readMembers_cons rfl rfl rfl (Attr.decodeAll_tree hfits.attrs hattrs hback) <|
    Record.readMembers_cons_ok rfl rfl rfl (ResultType.decode_tree hfits.result hresult) <|
    Record.readMembers_nil _ _ _

end Call

/-! ## Constants -/

namespace Literal

/-- The elements of the array. -/
def numbers (l : Literal) : List StoredNumber := l.data.map .single

/-- The extents of an array are words, since without the zeros their product is. -/
theorem extent_lt {l : Literal} {n : Nat} (h : n ∈ l.shape) : n < wordBound := by
  rcases eq_or_ne n 0 with rfl | hn
  · decide
  have hmem : n ∈ l.shape.filter (· ≠ 0) := List.mem_filter.mpr ⟨h, decide_eq_true hn⟩
  have hpos : 0 < (l.shape.filter (· ≠ 0)).prod := by
    refine Nat.pos_of_ne_zero (List.prod_ne_zero fun hzero => ?_)
    simp at hzero
  calc n ≤ (l.shape.filter (· ≠ 0)).prod := Nat.le_of_dvd hpos (List.dvd_prod hmem)
    _ < signedBound := l.bounded
    _ < wordBound := by decide

theorem decodeVersion_one (depth : Nat) : decodeVersion depth (Json.int 1).tree = .ok 1 := rfl

/-- What is read of an array of numbers. -/
theorem decode_tree {l : Literal} (hnesting : l.toJson.nesting ≤ depth)
    (hback : ∀ x ∈ l.numbers, x.isFinite = true → x.ReadsBack) :
    Literal.decode depth l.toJson.tree = readBack (l.numbers.all StoredNumber.isFinite) l := by
  have hparts : Literal.ofParts l.shape l.data = .ok l := by
    rw [ofParts, dif_pos l.bounded, dif_pos l.length_data]
  refine Record.decode_object (s := (⟨some 1, some l.shape, some l.data⟩ : LiteralDraft)) hnesting
    (fun n hmembers => ?_) hparts
  simp only [List.forall_mem_cons] at hmembers
  obtain ⟨-, hshape, hdata, -⟩ := hmembers
  rw [numbers, List.forall_mem_map] at hback
  rw [numbers, List.all_map, ← Bool.and_true (List.all _ _)]
  exact Record.readMembers_cons_ok rfl rfl rfl (decodeVersion_one n) <|
    Record.readMembers_cons_ok rfl rfl rfl (Shape.decode_tree (fun _ => extent_lt) hshape) <|
    Record.readMembers_cons rfl rfl rfl (Decoder.list_map _ hdata fun x hx m _ =>
      Decoder.single_tree (hback x hx) m) <|
    Record.readMembers_nil _ _ _

end Literal

/-! ## Nodes -/

theorem VarRole.decode_tree (role : VarRole) (depth : Nat) :
    VarRole.decode depth role.toJson.tree = .ok role := by
  cases role with
  | input => exact Decoder.symbol_text _ "Input" depth
  | parameter => exact Decoder.symbol_text _ "Parameter" depth

namespace NodeKind

/-- The labels, extents and integers in what a node is are words. Those of a constant are. -/
def Fits : NodeKind → Prop
  | .call c => c.Fits
  | .var _ _ ty => ty.Fits
  | .constant _ _ => True

instance : DecidablePred Fits
  | .call c => inferInstanceAs (Decidable c.Fits)
  | .var _ _ ty => inferInstanceAs (Decidable ty.Fits)
  | .constant _ _ => .isTrue trivial

/-- The numbers in what a node is. -/
def numbers : NodeKind → List StoredNumber
  | .call c => c.numbers
  | .var _ _ _ => []
  | .constant _ value => value.numbers

/-- What is read of what a node is. -/
theorem decode_tree {k : NodeKind} (hfits : k.Fits) (hnesting : k.toJson.nesting ≤ depth)
    (hback : ∀ x ∈ k.numbers, x.isFinite = true → x.ReadsBack) :
    NodeKind.decode depth k.toJson.tree = readBack (k.numbers.all StoredNumber.isFinite) k := by
  cases k with
  | call c =>
    exact Decoder.variant_tagged rfl hnesting fun n hn =>
      Decoder.map_readBack NodeKind.call (Call.decode_tree hfits hn hback)
  | var name role ty =>
    refine Decoder.variant_tagged rfl hnesting fun n hn =>
      Record.decode_object (s := ⟨some name, some role, some ty⟩) hn (fun m hmembers => ?_) rfl
    simp only [List.forall_mem_cons] at hmembers
    obtain ⟨-, -, htype, -⟩ := hmembers
    exact Record.readMembers_cons_ok rfl rfl rfl (Decoder.text_text name m) <|
      Record.readMembers_cons_ok rfl rfl rfl (VarRole.decode_tree role m) <|
      Record.readMembers_cons_ok rfl rfl rfl (ResultType.decode_tree hfits htype) <|
      Record.readMembers_nil _ _ _
  | constant name value =>
    refine Decoder.variant_tagged rfl hnesting fun n hn =>
      Record.decode_object (s := ⟨some name, some value⟩) hn (fun m hmembers => ?_) rfl
    simp only [List.forall_mem_cons] at hmembers
    obtain ⟨-, hvalue, -⟩ := hmembers
    rw [numbers, ← Bool.and_true (List.all _ _)]
    exact Record.readMembers_cons_ok rfl rfl rfl (Decoder.text_text name m) <|
      Record.readMembers_cons rfl rfl rfl (Literal.decode_tree hvalue hback) <|
      Record.readMembers_nil _ _ _

end NodeKind

namespace Node

/-- The labels, extents and integers in the node are words. -/
structure Fits (n : Node) : Prop where
  id : n.id.Fits
  kind : n.kind.Fits

instance : DecidablePred Fits := fun n =>
  decidable_of_iff (n.id.Fits ∧ n.kind.Fits) ⟨fun h => ⟨h.1, h.2⟩, fun h => ⟨h.id, h.kind⟩⟩

/-- What is read of a node. -/
theorem decode_tree {n : Node} (hfits : n.Fits) (hnesting : n.toJson.nesting ≤ depth)
    (hback : ∀ x ∈ n.kind.numbers, x.isFinite = true → x.ReadsBack) :
    Node.record.decode depth n.toJson.tree =
      readBack (n.kind.numbers.all StoredNumber.isFinite) n := by
  refine Record.decode_object (s := ⟨some n.id, some n.kind⟩) hnesting (fun m hmembers => ?_) rfl
  simp only [List.forall_mem_cons] at hmembers
  obtain ⟨-, hkind, -⟩ := hmembers
  rw [← Bool.and_true (List.all _ _)]
  exact Record.readMembers_cons_ok rfl rfl rfl (NodeId.decode_tree hfits.id m) <|
    Record.readMembers_cons rfl rfl rfl (NodeKind.decode_tree hfits.kind hkind hback) <|
    Record.readMembers_nil _ _ _

end Node

/-! ## Graphs -/

namespace Graph

/-- The labels, extents and integers in the graph are words. -/
structure Fits (g : Graph) : Prop where
  nodes : ∀ n ∈ g.nodes.toList, n.Fits
  outputs : ∀ id ∈ g.outputs, id.Fits

instance : DecidablePred Fits := fun g =>
  decidable_of_iff ((∀ n ∈ g.nodes.toList, n.Fits) ∧ ∀ id ∈ g.outputs, id.Fits)
    ⟨fun h => ⟨h.1, h.2⟩, fun h => ⟨h.nodes, h.outputs⟩⟩

/-- The numbers in the graph. -/
def numbers (g : Graph) : List StoredNumber := g.nodes.toList.flatMap fun n => n.kind.numbers

/-- What is read of a graph. -/
theorem decode_tree {g : Graph} (hfits : g.Fits) (hnesting : g.toJson.nesting ≤ depth)
    (hback : ∀ x ∈ g.numbers, x.isFinite = true → x.ReadsBack) :
    Graph.decode depth g.toJson.tree = readBack (g.numbers.all StoredNumber.isFinite) g := by
  refine Record.decode_object (s := ⟨some g.name, some g.nodes.toList, some g.outputs⟩)
    hnesting (fun m hmembers => ?_) rfl
  simp only [List.forall_mem_cons] at hmembers
  obtain ⟨-, hnodes, houtputs, -⟩ := hmembers
  rw [numbers, List.forall_mem_flatMap] at hback
  rw [numbers, List.all_flatMap, ← Bool.and_true (List.all _ _)]
  exact Record.readMembers_cons_ok rfl rfl rfl (Decoder.text_text g.name m) <|
    Record.readMembers_cons rfl rfl rfl (Decoder.list_map _ hnodes fun n hn _ hn' =>
      Node.decode_tree (hfits.nodes n hn) hn' (hback n hn)) <|
    Record.readMembers_cons_ok rfl rfl rfl (NodeId.decode_list hfits.outputs houtputs) <|
    Record.readMembers_nil _ _ _

/-- A graph whose numbers are finite is read back from the text that is written for it. The text
of any other graph is refused. -/
theorem ofText_written {g : Graph} (hfits : g.Fits) (hnesting : g.toJson.nesting ≤ nestingLimit)
    (hback : ∀ x ∈ g.numbers, x.isFinite = true → x.ReadsBack) :
    ((∀ x ∈ g.numbers, x.isFinite = true) → Graph.decode.ofText g.toJson.compact = .ok g) ∧
      ((∃ x ∈ g.numbers, x.isFinite = false) →
        Graph.decode.ofText g.toJson.compact = .error .mismatch) := by
  rw [Decoder.ofText_compact, decode_tree hfits hnesting hback]
  constructor
  · intro hfinite
    rw [List.all_eq_true.mpr hfinite, readBack_true]
  · intro hinfinite
    rw [List.all_eq_false.mpr (by simpa using hinfinite), readBack_false]

end Graph

/-- A graph with a number in an attribute and in a constant. Its labels are not the positions of its
nodes, and there are marks in its names that are escaped. -/
def scaledGraph (factor : Binary64) (weight : Binary32) : Graph where
  name := "net \"ω\"\n"
  nodes :=
    #[⟨⟨18446744073709551615⟩, .constant "w" ⟨[1, 1], [weight], rfl, by decide⟩⟩,
      ⟨⟨0⟩, .call ⟨"scale", [⟨7⟩],
        .ofList [("factor", .float factor), ("axes", .ints [-9223372036854775808, 2])],
        .tuple [.tensor [2], .tuple [], .named "T\\"]⟩⟩,
      ⟨⟨0⟩, .var "\u0001" .input (.tensor [])⟩]
  outputs := [⟨1⟩]

theorem Graph.ofText_written_scaledGraph :
    Graph.decode.ofText (scaledGraph (.ofRatio true 1 10) (.ofRatio false 1 3)).toJson.compact =
        .ok (scaledGraph (.ofRatio true 1 10) (.ofRatio false 1 3)) ∧
      Graph.decode.ofText (scaledGraph (.zero true) (.infinite true)).toJson.compact =
        .error .mismatch :=
  ⟨(ofText_written (by decide +kernel) (by decide +kernel) (by decide +kernel)).1
      (by decide +kernel),
    (ofText_written (by decide +kernel) (by decide +kernel) (by decide +kernel)).2
      (by decide +kernel)⟩

end GraphSurvey
