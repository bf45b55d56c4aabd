import GraphSurvey.Document.Tree

/-!
# Decoding trees

A decoder turns the tree of a value into something of a type, or finds the fault that comes first in
the order of the text. Besides the tree it takes the number of containers that may still be opened:
the container that exceeds it is malformed.

A record is written as an object with its fields in any order, or as an array with its fields in the
order of their declaration. A variant is written as an object whose only member has the name of the
variant; a variant without content may also be written as its name alone.

## Main definitions

* `GraphSurvey.Decoder`, `GraphSurvey.Decoder.ofText` — decoders, and what they make of a text.
* `GraphSurvey.Decoder.list`, `GraphSurvey.Record.decode`, `GraphSurvey.Decoder.variant` — decoders
  of lists, records and variants from those of their parts.
* `GraphSurvey.Tree.skip`, `GraphSurvey.Tree.check` — passing over a value, and reading one of any
  shape.
-/

namespace GraphSurvey

/-- Containers may be nested this deep. -/
def nestingLimit : Nat := 127

namespace Tree

/-- The fault met where a value of another kind is wanted. A scalar is read before its kind is
refused. -/
def wrongKind : Tree → Fault
  | .null | .bool _ | .array _ | .object _ => .mismatch
  | .number n =>
    match n.number with
    | .ok _ => .mismatch
    | .error f => f
  | .text t =>
    match t.content with
    | .ok _ => .mismatch
    | .error f => f
  | .garbled read _ => read
  | .missing f => f

/-- The fault met where a name is wanted. -/
def wrongName : Tree → Fault
  | .missing f => f
  | _ => .malformed

mutual

/-- Passes over a value. Numbers may be too great, surrogate units may be alone, and containers may
be nested without bound. -/
def skip : Tree → Except Fault Unit
  | .null | .bool _ | .number _ => .ok ()
  | .text t =>
    match t.fault with
    | none => .ok ()
    | some f => .error f
  | .array items => skipItems items
  | .object members => skipMembers members
  | .garbled _ skipped => .error skipped
  | .missing f => .error f

/-- Passes over the rest of an array. -/
def skipItems : Items → Except Fault Unit
  | .close => .ok ()
  | .stop f => .error f
  | .item t rest => do t.skip; skipItems rest

/-- Passes over the rest of an object. -/
def skipMembers : Members → Except Fault Unit
  | .close => .ok ()
  | .stop f => .error f
  | .unnamed t => .error t.wrongName
  | .member name t rest =>
    match name.fault with
    | some f => .error f
    | none => do t.skip; skipMembers rest

end

mutual

/-- Reads a value of any shape. The first number is that of the containers that may be opened. -/
def check : Nat → Tree → Except Fault Unit
  | _, .null | _, .bool _ => .ok ()
  | _, .number n => do let _ ← n.number
  | _, .text t => do let _ ← t.content
  | depth + 1, .array items => checkItems depth items
  | depth + 1, .object members => checkMembers depth members
  | 0, .array _ | 0, .object _ => .error .malformed
  | _, .garbled read _ => .error read
  | _, .missing f => .error f

/-- Reads the rest of an array of values of any shape. -/
def checkItems (depth : Nat) : Items → Except Fault Unit
  | .close => .ok ()
  | .stop f => .error f
  | .item t rest => do t.check depth; checkItems depth rest

/-- Reads the rest of an object of values of any shape. -/
def checkMembers (depth : Nat) : Members → Except Fault Unit
  | .close => .ok ()
  | .stop f => .error f
  | .unnamed t => .error t.wrongName
  | .member name t rest => do
    let _ ← name.content
    t.check depth
    checkMembers depth rest

end

end Tree

/-- A decoder. It takes the number of containers that may still be opened. -/
abbrev Decoder (α : Type) := Nat → Tree → Except Fault α

namespace Decoder

variable {α β σ : Type}

/-- What a decoder makes of a text. -/
def ofText (d : Decoder α) (s : String) : Except Fault α := do
  let a ← d nestingLimit (Tree.ofText s).1
  if (Tree.ofText s).2 then .error .malformed else .ok a

/-- What a decoder makes of the tree of a whole document. -/
def ofTree (d : Decoder α) (t : Tree) : Except Fault α := d nestingLimit t

/-- Decodes and applies a function. -/
def map (f : α → β) (d : Decoder α) : Decoder β := fun depth t => f <$> d depth t

/-! ## Scalars -/

/-- A text. -/
def text : Decoder String
  | _, .text t => t.content
  | _, t => .error t.wrongKind

/-- A truth value. -/
def bool : Decoder Bool
  | _, .bool b => .ok b
  | _, t => .error t.wrongKind

/-- Nothing. -/
def null : Decoder Unit
  | _, .null => .ok ()
  | _, t => .error t.wrongKind

/-- The number of a numeral. -/
def number : Decoder Number
  | _, .number n => n.number
  | _, t => .error t.wrongKind

/-- A natural number of 64 bits. -/
def size : Decoder Nat := fun depth t => do
  match ← number depth t with
  | .natural n => .ok n
  | _ => .error .mismatch

/-- An integer of 64 bits. -/
def integer : Decoder Int := fun depth t => do
  match ← number depth t with
  | .natural n => if n < signedBound then .ok n else .error .mismatch
  | .negative n => .ok (-n)
  | .real _ => .error .mismatch

/-- A number of double precision. -/
def double : Decoder Binary64 := fun depth t => do
  match ← number depth t with
  | .natural n => .ok (Binary.ofNat n)
  | .negative n => .ok (Binary.ofInt (-n))
  | .real x => .ok x

/-- A number of single precision. What is no integer passes through double precision. -/
def single : Decoder Binary32 := fun depth t => do
  match ← number depth t with
  | .natural n => .ok (Binary.ofNat n)
  | .negative n => .ok (Binary.ofInt (-n))
  | .real x => .ok x.narrow

/-- A value, or nothing. -/
def optional (d : Decoder α) : Decoder (Option α)
  | _, .null => .ok none
  | depth, t => some <$> d depth t

/-! ## Lists and dictionaries -/

/-- The items of an array. -/
def items (d : Tree → Except Fault α) : Items → Except Fault (List α)
  | .close => .ok []
  | .stop f => .error f
  | .item t rest => do
    let a ← d t
    return a :: (← items d rest)

/-- The members of an object. -/
def members (d : Tree → Except Fault α) : Members → Except Fault (List (String × α))
  | .close => .ok []
  | .stop f => .error f
  | .unnamed t => .error t.wrongName
  | .member name t rest => do
    let key ← name.content
    let a ← d t
    return (key, a) :: (← members d rest)

/-- A list. -/
def list (d : Decoder α) : Decoder (List α)
  | depth + 1, .array is => items (d depth) is
  | 0, .array _ => .error .malformed
  | _, t => .error t.wrongKind

/-- A row of named values, in the order of the text. -/
def entries (d : Decoder α) : Decoder (List (String × α))
  | depth + 1, .object ms => members (d depth) ms
  | 0, .object _ => .error .malformed
  | _, t => .error t.wrongKind

end Decoder

/-! ## Records -/

/-- A field of a record that is put together in drafts of type `σ`. -/
structure RecordField (σ : Type) where
  name : String
  /-- The field may not be given again. -/
  isGiven : σ → Bool
  /-- The field may be missing. -/
  isOptional : Bool
  read : Nat → Tree → σ → Except Fault σ

/-- A record. -/
structure Record (σ α : Type) where
  /-- The fields in the order of their declaration. -/
  fields : List (RecordField σ)
  /-- Members of other names are passed over. -/
  isOpen : Bool
  start : σ
  finish : σ → Except Fault α

namespace RecordField

variable {α σ : Type}

/-- A field that must be given once. -/
def required (name : String) (d : Decoder α) (get : σ → Option α) (set : α → σ → σ) : RecordField σ where
  name := name
  isGiven s := (get s).isSome
  isOptional := false
  read depth t s := (set · s) <$> d depth t

/-- A field that may be given once. -/
def optional (name : String) (d : Decoder α) (get : σ → Option α) (set : α → σ → σ) : RecordField σ :=
  { required name d get set with isOptional := true }

/-- A field that must be given and may be given again. -/
def repeatable (name : String) (d : Decoder α) (set : α → σ → σ) : RecordField σ where
  name := name
  isGiven _ := false
  isOptional := false
  read depth t s := (set · s) <$> d depth t

end RecordField

/-- A field that must have been given by now. -/
def given {α : Type} : Option α → Except Fault α
  | some a => .ok a
  | none => .error .mismatch

namespace Record

variable {σ α : Type}

/-- Goes through the members of an object. A name that may not be given again is refused before its
value is looked at. -/
def readMembers (r : Record σ α) (depth : Nat) : σ → Members → Except Fault σ
  | s, .close => .ok s
  | _, .stop f => .error f
  | _, .unnamed t => .error t.wrongName
  | s, .member name t rest => do
    let key ← name.content
    match r.fields.find? (·.name = key) with
    | some field =>
      if field.isGiven s then .error .mismatch
      else r.readMembers depth (← field.read depth t s) rest
    | none =>
      if r.isOpen then t.skip; r.readMembers depth s rest
      else .error .mismatch

/-- Goes through the items of an array, one for each field, and gives back the rest of it. -/
def readItems (depth : Nat) : List (RecordField σ) → σ → Items → Except Fault (σ × Items)
  | [], s, is => .ok (s, is)
  | _ :: _, _, .stop f => .error f
  | field :: fields, s, .close =>
    if field.isOptional then readItems depth fields s .close else .error .mismatch
  | field :: fields, s, .item t rest => do
    readItems depth fields (← field.read depth t s) rest

/-- Decodes the record. -/
def decode (r : Record σ α) : Decoder α
  | depth + 1, .object ms => do r.finish (← r.readMembers depth r.start ms)
  | depth + 1, .array is => do
    let (s, rest) ← readItems depth r.fields r.start is
    let a ← r.finish s
    match rest with
    | .close => .ok a
    | .stop f => .error f
    | .item _ _ => .error .malformed
  | 0, .object _ => .error .malformed
  | 0, .array _ => .error .malformed
  | _, t => .error t.wrongKind

end Record

/-! ## Variants -/

namespace Decoder

variable {α : Type}

/-- The end of the object around the content of a variant. -/
def endVariant (a : α) : Members → Except Fault α
  | .close => .ok a
  | .stop f => .error f
  | _ => .error .malformed

/-- The fault met where a variant is wanted and none is written as an object with a member. -/
def wrongVariant : Nat → Tree → Fault
  | 0, .object _ => .malformed
  | _, .object (.unnamed t) => t.wrongName
  | _, .object (.stop f) => f
  | _, .missing f => f
  | _, .text t => (Tree.text t).wrongKind
  | _, _ => .malformed

/-- A variant, from the decoders of the contents by the names of the variants. -/
def variant (content : String → Option (Decoder α)) : Decoder α
  | depth + 1, .object (.member name t rest) => do
    match content (← name.content) with
    | some d => endVariant (← d depth t) rest
    | none => .error .mismatch
  | depth, t => .error (wrongVariant depth t)

/-- A variant without content. -/
def symbol (meaning : String → Option α) : Decoder α
  | _, .text t => do
    match meaning (← t.content) with
    | some a => .ok a
    | none => .error .mismatch
  | depth, t => variant (fun name => (meaning name).map fun a => null.map fun _ => a) depth t

end Decoder

end GraphSurvey
