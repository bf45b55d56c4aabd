import GraphSurvey.Document.Decode
import GraphSurvey.Document.Json
import GraphSurvey.Graph.Basic

/-!
# Recorded values

What is recorded about a node or a graph is an integer, a text, a sequence of values or a map of
values by names. The names of a map increase. A document of a value is the value itself: an integer
within 64 bits, a text, an array or an object, and nothing else.

## Main definitions

* `GraphSurvey.Value`, `GraphSurvey.ValueKind` — values and their kinds.
* `GraphSurvey.Value.ofType` — a type as nested sequences of integers.
* `GraphSurvey.Value.text`, `GraphSurvey.Value.toJson`, `GraphSurvey.Value.decode` — the text of a
  value, its document, and the value of a document.
-/

namespace GraphSurvey

/-- A recorded value. -/
inductive Value where
  | int (i : Int)
  | text (s : String)
  | seq (items : List Value)
  /-- The names increase. -/
  | map (entries : List (String × Value))

/-- The kind of a value. -/
inductive ValueKind where
  | int
  | text
  | seq
  | map
  deriving DecidableEq, Repr

/-- The name of a kind. -/
def ValueKind.name : ValueKind → String
  | .int => "int"
  | .text => "str"
  | .seq => "seq"
  | .map => "map"

namespace Value

/-- The kind of the value. -/
def kind : Value → ValueKind
  | .int _ => .int
  | .text _ => .text
  | .seq _ => .seq
  | .map _ => .map

/-- A sequence of integers. -/
def ofInts (is : List Int) : Value := .seq (is.map .int)

mutual

/-- A type as nested sequences: the extents of a tensor, the fields of a tuple. A type that is known
by its name only has no such form, nor has a tuple with such a field. -/
def ofType : ResultType → Option Value
  | .tensor shape => some (ofInts (shape.map signedWord))
  | .tuple fields => (ofTypes fields).map .seq
  | .named _ => none

/-- The types of a list as nested sequences, if all of them have that form. -/
def ofTypes : List ResultType → Option (List Value)
  | [] => some []
  | ty :: rest =>
    match ofType ty with
    | none => none
    | some v => (ofTypes rest).map (v :: ·)

end

/-- The element at an index: of a sequence the one at that position, of a map the one whose name is
the index in decimal. -/
def at? (index : Nat) : Value → Option Value
  | .seq items => items[index]?
  | .map entries => findEntry (toString index) entries
  | .int _ | .text _ => none

mutual

/-- The value in words. -/
def words : Value → String
  | .int i => toString i
  | .text s => s
  | .seq items => bracketed (itemWords items)
  | .map entries => "\x7b" ++ ", ".intercalate (entryWords entries) ++ "\x7d"

/-- The items of a sequence in words. -/
def itemWords : List Value → List String
  | [] => []
  | v :: rest => v.words :: itemWords rest

/-- The entries of a map in words. -/
def entryWords : List (String × Value) → List String
  | [] => []
  | (name, v) :: rest => (name ++ ": " ++ v.words) :: entryWords rest

end

instance : ToString Value := ⟨words⟩

/-! ## Documents -/

mutual

/-- The document of a value. -/
def toJson : Value → Json
  | .int i => .int i
  | .text s => .text s
  | .seq items => .array (itemsToJson items)
  | .map entries => .object (entriesToJson entries)

/-- The documents of the items of a sequence. -/
def itemsToJson : List Value → List Json
  | [] => []
  | v :: rest => v.toJson :: itemsToJson rest

/-- The documents of the entries of a map. -/
def entriesToJson : List (String × Value) → List (String × Json)
  | [] => []
  | (name, v) :: rest => (name, v.toJson) :: entriesToJson rest

end

/-- The integer of a numeral, if it lies within 64 bits. -/
def ofNumeral (n : Numeral) : Option Value :=
  match n.number with
  | .ok (.natural k) => if k < signedBound then some (.int k) else none
  | .ok (.negative k) => some (.int (-k))
  | .ok (.real _) | .error _ => none

mutual

/-- The value of a tree that is free of faults, if it has one. -/
def ofTree : Tree → Option Value
  | .number n => ofNumeral n
  | .text t => t.content.toOption.map .text
  | .array items => (ofItems items).map .seq
  | .object members => (ofMembers [] members).map .map
  | .null | .bool _ | .garbled _ _ | .missing _ => none

/-- The values of the rest of an array. -/
def ofItems : Items → Option (List Value)
  | .item t rest =>
    match ofTree t with
    | none => none
    | some v => (ofItems rest).map (v :: ·)
  | .close | .stop _ => some []

/-- The entries before the rest of an object with those of its rest. Of several of one name the last
counts. -/
def ofMembers (before : List (String × Value)) : Members → Option (List (String × Value))
  | .member name t rest =>
    match name.content.toOption, ofTree t with
    | some key, some v => ofMembers (putEntry key v before) rest
    | _, _ => none
  | .close | .stop _ | .unnamed _ => some before

end

/-- A value. The whole of it is read before its shape is looked at. -/
def decode : Decoder Value := fun depth t => do
  t.check depth
  match ofTree t with
  | some v => .ok v
  | none => .error .mismatch

end Value

end GraphSurvey
