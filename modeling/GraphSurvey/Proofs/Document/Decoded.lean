import GraphSurvey.Document.Decode
import GraphSurvey.Graph.Written
import GraphSurvey.Proofs.Dictionary
import GraphSurvey.Proofs.Document.Indented
import Mathlib

/-!
# Decoders on written documents

What the decoders make of trees of documents. Scalars within the bounds of a word are read as they
are, and a list, a dictionary, a record or a variant is read part by part. A number that is not
finite is written as `null`, which a decoder of numbers refuses as a value of another kind; so
reading something back gives either all of it or that fault.

## Main definitions

* `GraphSurvey.readBack` — the thing itself, or the fault of a value of another kind.
* `GraphSurvey.Json.nesting` — how deep the containers of a document are nested.

## Main results

* `GraphSurvey.Decoder.ofText_of_writes` — what is read of a text that is written for a document.
* `GraphSurvey.Decoder.size_int`, `GraphSurvey.Decoder.integer_int` — integers.
* `GraphSurvey.Decoder.list_map`, `GraphSurvey.Decoder.entries_map` — lists and dictionaries.
* `GraphSurvey.Record.readMembers_member`, `GraphSurvey.Decoder.variant_tagged` — records and
  variants.
-/

namespace GraphSurvey

variable {α β σ : Type} {depth : Nat}

/-! ## All or a mismatch -/

/-- What is read of something that was written: all of it, or the fault of a value of another kind
if not all of it was kept. -/
def readBack (kept : Bool) (a : α) : Except Fault α := if kept then .ok a else .error .mismatch

@[simp] theorem readBack_true (a : α) : readBack true a = .ok a := rfl

@[simp] theorem readBack_false (a : α) : readBack false a = .error .mismatch := rfl

theorem ok_bind (a : α) (f : α → Except Fault β) : (Except.ok a >>= f) = f a := rfl

/-- What is made of something that was read back. -/
theorem Decoder.map_readBack {d : Decoder α} {t : Tree} {kept : Bool} {a : α} (f : α → β)
    (h : d depth t = readBack kept a) : d.map f depth t = readBack kept (f a) := by
  rw [Decoder.map, h]
  cases kept <;> rfl

/-! ## Texts and trees -/

/-- A decoder goes over the text of a document as it goes over its tree. -/
theorem Decoder.ofText_of_writes (d : Decoder α) {j : Json} {s : String} (h : j.Writes s.toList) :
    d.ofText s = d nestingLimit j.tree := by
  rw [ofText, Json.tree_ofText_of_writes h]
  show (d nestingLimit j.tree >>= fun a => .ok a) = d nestingLimit j.tree
  cases d nestingLimit j.tree <;> rfl

theorem Decoder.ofText_compact (d : Decoder α) (j : Json) :
    d.ofText j.compact = d nestingLimit j.tree :=
  d.ofText_of_writes j.writes_compact

theorem Decoder.ofText_map (d : Decoder α) (f : α → β) (s : String) :
    (d.map f).ofText s = f <$> d.ofText s := by
  rw [ofText, ofText, map]
  cases d nestingLimit (Tree.ofText s).1 with
  | error _ => rfl
  | ok a =>
    show (if (Tree.ofText s).2 then .error .malformed else .ok (f a)) =
      f <$> (if (Tree.ofText s).2 then Except.error Fault.malformed else .ok a)
    split <;> rfl

/-! ## Nesting -/

namespace Json

mutual

/-- The number of containers around the innermost value, at most. -/
def nesting : Json → Nat
  | .null | .bool _ | .int _ | .double _ | .single _ | .text _ => 0
  | .array items => itemsNesting items + 1
  | .object members => membersNesting members + 1

/-- The greatest depth of the items of an array. -/
def itemsNesting : List Json → Nat
  | [] => 0
  | j :: rest => max j.nesting (itemsNesting rest)

/-- The greatest depth of the members of an object. -/
def membersNesting : List (String × Json) → Nat
  | [] => 0
  | (_, j) :: rest => max j.nesting (membersNesting rest)

end

theorem itemsNesting_le_iff {items : List Json} {n : Nat} :
    itemsNesting items ≤ n ↔ ∀ j ∈ items, j.nesting ≤ n := by
  induction items with
  | nil => simp [itemsNesting]
  | cons j rest ih => simp [itemsNesting, ih]

theorem membersNesting_le_iff {members : List (String × Json)} {n : Nat} :
    membersNesting members ≤ n ↔ ∀ m ∈ members, m.2.nesting ≤ n := by
  induction members with
  | nil => simp [membersNesting]
  | cons m rest ih => simp [membersNesting, ih]

theorem itemsNesting_map_le_iff {write : α → Json} {as : List α} {n : Nat} :
    itemsNesting (as.map write) ≤ n ↔ ∀ a ∈ as, (write a).nesting ≤ n := by
  rw [itemsNesting_le_iff, List.forall_mem_map]

theorem nesting_array_map_le {write : α → Json} {as : List α} {n : Nat}
    (h : ∀ a ∈ as, (write a).nesting ≤ n) : (array (as.map write)).nesting ≤ n + 1 :=
  Nat.succ_le_succ (itemsNesting_map_le_iff.mpr h)

theorem nesting_object_le {members : List (String × Json)} {n : Nat}
    (h : ∀ m ∈ members, m.2.nesting ≤ n) : (object members).nesting ≤ n + 1 :=
  Nat.succ_le_succ (membersNesting_le_iff.mpr h)

/-- An array of scalars is one container. -/
theorem nesting_scalars {write : α → Json} (h : ∀ a, (write a).nesting = 0) (as : List α) :
    (array (as.map write)).nesting = 1 :=
  congrArg (· + 1) (Nat.le_zero.mp (itemsNesting_map_le_iff.mpr fun a _ => (h a).le))

@[simp] theorem nesting_sizes (ns : List Nat) : (sizes ns).nesting = 1 :=
  nesting_scalars (fun _ => rfl) ns

@[simp] theorem nesting_ints (is : List Int) : (ints is).nesting = 1 :=
  nesting_scalars (fun _ => rfl) is

@[simp] theorem nesting_tagged (name : String) (j : Json) :
    (tagged name j).nesting = j.nesting + 1 :=
  congrArg (· + 1) (Nat.max_zero _)

end Json

/-! ## Integers -/

theorem digitsValue_toDigits (n : Nat) : digitsValue (Nat.toDigits 10 n) = n :=
  Nat.ofDigitChars_ten_toDigits

/-- The numeral of a natural number that fits a word stands for it. -/
theorem number_ofInt_natCast {n : Nat} (h : n < wordBound) :
    (Numeral.ofInt n).number = .ok (.natural n) := by
  have hvalue : digitsValue (Numeral.ofInt n).whole = n := digitsValue_toDigits n
  have hpositive : (Numeral.ofInt n).negative = false := by simp [Numeral.ofInt]
  simp only [Numeral.number, hvalue, hpositive]
  rw [if_pos ⟨rfl, rfl, trivial, h⟩]

/-- The numeral of a negative integer that fits a word stands for it. -/
theorem number_ofInt_neg {i : Int} (hneg : i < 0) (h : -(signedBound : Int) ≤ i) :
    (Numeral.ofInt i).number = .ok (.negative i.natAbs) := by
  have hvalue : digitsValue (Numeral.ofInt i).whole = i.natAbs := digitsValue_toDigits _
  have hnegative : (Numeral.ofInt i).negative = true := decide_eq_true hneg
  simp only [Numeral.number, hvalue, hnegative]
  rw [if_neg (by simp), if_pos ⟨rfl, rfl, trivial, by omega, by omega⟩]

namespace Decoder

/-- A natural number that fits a word is read as it is. -/
theorem size_int {n : Nat} (h : n < wordBound) (depth : Nat) :
    size depth (Json.int n).tree = .ok n := by
  rw [Json.tree, size, number, number_ofInt_natCast h]
  rfl

/-- The integer fits a signed word. -/
def IsSigned (i : Int) : Prop := -(signedBound : Int) ≤ i ∧ i < signedBound

instance : DecidablePred IsSigned := fun i =>
  inferInstanceAs (Decidable (-(signedBound : Int) ≤ i ∧ i < signedBound))

/-- An integer that fits a signed word is read as it is. -/
theorem integer_int {i : Int} (h : IsSigned i) (depth : Nat) :
    integer depth (Json.int i).tree = .ok i := by
  rw [Json.tree, integer, number]
  rcases lt_or_ge i 0 with hneg | hpos
  · rw [number_ofInt_neg hneg h.1]
    exact congrArg Except.ok (by omega)
  · obtain ⟨n, rfl⟩ := Int.eq_ofNat_of_zero_le hpos
    have hn : n < signedBound := by exact_mod_cast h.2
    rw [number_ofInt_natCast (hn.trans (by decide))]
    exact if_pos hn

/-! ## Texts -/

theorem text_text (s : String) (depth : Nat) : text depth (Json.text s).tree = .ok s :=
  QuotedText.content_written s

theorem symbol_text (meaning : String → Option α) (name : String) (depth : Nat) :
    symbol meaning depth (Json.text name).tree =
      match meaning name with
      | some a => .ok a
      | none => .error .mismatch := by
  rw [Json.tree, symbol, QuotedText.content_written]
  rfl

/-! ## Lists and dictionaries -/

theorem items_map {d : Tree → Except Fault α} {write : α → Json} {kept : α → Bool} {as : List α}
    (h : ∀ a ∈ as, d (write a).tree = readBack (kept a) a) :
    items d (Json.itemTrees (as.map write)) = readBack (as.all kept) as := by
  induction as with
  | nil => rfl
  | cons a rest ih =>
    obtain ⟨ha, hrest⟩ := List.forall_mem_cons.mp h
    rw [List.map_cons, Json.itemTrees, items, ha, ih hrest, List.all_cons]
    cases kept a <;> cases rest.all kept <;> rfl

/-- A list is read back if all its items are. -/
theorem list_map {d : Decoder α} {write : α → Json} {as : List α} (kept : α → Bool)
    (hnesting : (Json.array (as.map write)).nesting ≤ depth)
    (h : ∀ a ∈ as, ∀ n, (write a).nesting ≤ n → d n (write a).tree = readBack (kept a) a) :
    list d depth (Json.array (as.map write)).tree = readBack (as.all kept) as := by
  obtain ⟨n, rfl⟩ := Nat.exists_eq_add_of_le' (Nat.le_of_add_left_le hnesting)
  have hitems := Json.itemsNesting_map_le_iff.mp (Nat.le_of_succ_le_succ hnesting)
  exact items_map fun a ha => h a ha n (hitems a ha)

/-- A list of things that are all kept is read back. -/
theorem list_map_ok {d : Decoder α} {write : α → Json} {as : List α}
    (hnesting : (Json.array (as.map write)).nesting ≤ depth)
    (h : ∀ a ∈ as, ∀ n, (write a).nesting ≤ n → d n (write a).tree = .ok a) :
    list d depth (Json.array (as.map write)).tree = .ok as := by
  rw [list_map (fun _ => true) hnesting h, List.all_eq_true.mpr fun _ _ => rfl, readBack_true]

theorem members_map {d : Tree → Except Fault α} {write : α → Json} {kept : α → Bool}
    {as : List (String × α)} (h : ∀ a ∈ as, d (write a.2).tree = readBack (kept a.2) a.2) :
    members d (Json.memberTrees (as.map fun e => (e.1, write e.2))) =
      readBack (as.all fun e => kept e.2) as := by
  induction as with
  | nil => rfl
  | cons a rest ih =>
    obtain ⟨ha, hrest⟩ := List.forall_mem_cons.mp h
    rw [List.map_cons, Json.memberTrees, members, QuotedText.content_written, ha, ih hrest,
      List.all_cons]
    cases kept a.2 <;> cases rest.all fun e => kept e.2 <;> rfl

/-- A row of named values is read back if all the values are. -/
theorem entries_map {d : Decoder α} {write : α → Json} {as : List (String × α)} (kept : α → Bool)
    (hnesting : (Json.object (as.map fun e => (e.1, write e.2))).nesting ≤ depth)
    (h : ∀ a ∈ as, ∀ n, (write a.2).nesting ≤ n → d n (write a.2).tree = readBack (kept a.2) a.2) :
    entries d depth (Json.object (as.map fun e => (e.1, write e.2))).tree =
      readBack (as.all fun e => kept e.2) as := by
  obtain ⟨n, rfl⟩ := Nat.exists_eq_add_of_le' (Nat.le_of_add_left_le hnesting)
  have hmembers := Json.membersNesting_le_iff.mp (Nat.le_of_succ_le_succ hnesting)
  rw [List.forall_mem_map] at hmembers
  exact members_map fun a ha => h a ha n (hmembers a ha)

/-! ## Variants -/

theorem tree_tagged (name : String) (j : Json) :
    (Json.tagged name j).tree = .object (.member (.written name) j.tree .close) := rfl

/-- A variant is read back if its content is. -/
theorem variant_tagged {content : String → Option (Decoder α)} {name : String} {d : Decoder α}
    {j : Json} {kept : Bool} {a : α} (hcontent : content name = some d)
    (hnesting : (Json.tagged name j).nesting ≤ depth)
    (h : ∀ n, j.nesting ≤ n → d n j.tree = readBack kept a) :
    variant content depth (Json.tagged name j).tree = readBack kept a := by
  rw [Json.nesting_tagged] at hnesting
  obtain ⟨n, rfl⟩ := Nat.exists_eq_add_of_le' (Nat.le_of_add_left_le hnesting)
  rw [tree_tagged, variant, QuotedText.content_written, ok_bind]
  simp only [hcontent]
  rw [h n (Nat.le_of_succ_le_succ hnesting)]
  cases kept <;> rfl

end Decoder

/-! ## Records -/

namespace Record

variable {r : Record σ α} {field : RecordField σ} {name : String} {s : σ}

/-- A member of a field that was not given yet is read by the decoder of the field. -/
theorem readMembers_member (hfield : r.fields.find? (·.name = name) = some field)
    (hnew : field.isGiven s = false) (depth : Nat) (j : Json) (rest : List (String × Json)) :
    r.readMembers depth s (Json.memberTrees ((name, j) :: rest)) =
      field.read depth j.tree s >>= fun s' => r.readMembers depth s' (Json.memberTrees rest) := by
  rw [Json.memberTrees, readMembers, QuotedText.content_written, ok_bind]
  simp only [hfield, hnew, Bool.false_eq_true, if_false]

theorem readMembers_nil (r : Record σ α) (depth : Nat) (s : σ) :
    r.readMembers depth s (Json.memberTrees []) = readBack true s := rfl

/-- The members of a record are read back one after the other. -/
theorem readMembers_cons {d : Decoder β} {set : β → σ → σ} {b : β} {s' : σ} {kept keptRest : Bool}
    {j : Json} {rest : List (String × Json)}
    (hfield : r.fields.find? (·.name = name) = some field) (hnew : field.isGiven s = false)
    (hread : field.read = fun depth t s => (set · s) <$> d depth t)
    (hd : d depth j.tree = readBack kept b)
    (hrest : r.readMembers depth (set b s) (Json.memberTrees rest) = readBack keptRest s') :
    r.readMembers depth s (Json.memberTrees ((name, j) :: rest)) =
      readBack (kept && keptRest) s' := by
  rw [readMembers_member hfield hnew, hread]
  show ((set · s) <$> d depth j.tree >>= fun s' =>
    r.readMembers depth s' (Json.memberTrees rest)) = readBack (kept && keptRest) s'
  rw [hd]
  cases kept with
  | true => exact hrest
  | false => rfl

/-- A member that is kept does not matter for what else of a record is read back. -/
theorem readMembers_cons_ok {d : Decoder β} {set : β → σ → σ} {b : β} {s' : σ} {kept : Bool}
    {j : Json} {rest : List (String × Json)}
    (hfield : r.fields.find? (·.name = name) = some field) (hnew : field.isGiven s = false)
    (hread : field.read = fun depth t s => (set · s) <$> d depth t) (hd : d depth j.tree = .ok b)
    (hrest : r.readMembers depth (set b s) (Json.memberTrees rest) = readBack kept s') :
    r.readMembers depth s (Json.memberTrees ((name, j) :: rest)) = readBack kept s' :=
  readMembers_cons hfield hnew hread (hd.trans (readBack_true b).symm) hrest

/-- A record is read back if its members are. -/
theorem decode_object {kept : Bool} {a : α} {members : List (String × Json)}
    (hnesting : (Json.object members).nesting ≤ depth)
    (hmembers : ∀ n, (∀ m ∈ members, m.2.nesting ≤ n) →
      r.readMembers n r.start (Json.memberTrees members) = readBack kept s)
    (hfinish : r.finish s = .ok a) :
    r.decode depth (Json.object members).tree = readBack kept a := by
  obtain ⟨n, rfl⟩ := Nat.exists_eq_add_of_le' (Nat.le_of_add_left_le hnesting)
  show (r.readMembers n r.start (Json.memberTrees members) >>= r.finish) = readBack kept a
  rw [hmembers n (Json.membersNesting_le_iff.mp (Nat.le_of_succ_le_succ hnesting))]
  cases kept with
  | true => exact hfinish
  | false => rfl

/-- A record is read back if its members are all kept. -/
theorem decode_object_kept {a : α} {members : List (String × Json)}
    (hnesting : (Json.object members).nesting ≤ depth)
    (hmembers : ∀ n, (∀ m ∈ members, m.2.nesting ≤ n) →
      r.readMembers n r.start (Json.memberTrees members) = readBack true s)
    (hfinish : r.finish s = .ok a) : r.decode depth (Json.object members).tree = .ok a :=
  decode_object hnesting hmembers hfinish

end Record

end GraphSurvey
