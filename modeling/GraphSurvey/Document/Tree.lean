import GraphSurvey.Document.Token

/-!
# Trees of documents

The tree of a text holds what a reader meets from left to right, faults included: it is complete up
to the first place where the text is no document, and that place is marked. A reader that goes
through the tree in the order of the text so reports the fault that comes first in the text, be it
one of the text or one of the shape that it wants.

A text becomes a tree token by token. A `Place` is where the reading stands: the containers that
are still open, innermost first, with what was read of them, and what may come next.

## Main definitions

* `GraphSurvey.Tree`, `GraphSurvey.Items`, `GraphSurvey.Members` — a value, the rest of an array and
  the rest of an object.
* `GraphSurvey.Place`, `GraphSurvey.Place.step` — a place in a text and the step over a token.
* `GraphSurvey.Tree.ofText` — the tree of a text.
-/

namespace GraphSurvey

mutual

/-- A value, or what stands where a value should. -/
inductive Tree where
  | null
  | bool (b : Bool)
  | number (n : Numeral)
  | text (t : QuotedText)
  | array (items : Items)
  | object (members : Members)
  /-- A word or numeral that goes wrong: the fault met by reading it, and by passing over it. -/
  | garbled (read skipped : Fault)
  /-- No value starts here. -/
  | missing (f : Fault)

/-- The rest of an array. -/
inductive Items where
  | close
  /-- Neither a comma nor the end of the array stands here. -/
  | stop (f : Fault)
  | item (value : Tree) (rest : Items)

/-- The rest of an object. -/
inductive Members where
  | close
  /-- Neither a comma nor the end of the object stands here. -/
  | stop (f : Fault)
  /-- Something else stands where a name should. -/
  | unnamed (value : Tree)
  | member (name : QuotedText) (value : Tree) (rest : Members)

end

/-- An array with the given items, latest first, before the rest of it. -/
def Items.after (rest : Items) : List Tree → Items
  | [] => rest
  | t :: before => Items.after (.item t rest) before

/-- An object with the given members, latest first, before the rest of it. -/
def Members.after (rest : Members) : List (QuotedText × Tree) → Members
  | [] => rest
  | (name, t) :: before => Members.after (.member name t rest) before

/-- An open container with what was read of it, latest first. -/
inductive Container where
  | array (before : List Tree)
  /-- The value of the member of the given name is being read. -/
  | object (before : List (QuotedText × Tree)) (name : QuotedText)

/-- A place in a text. -/
inductive Place where
  /-- A value comes next. -/
  | value (outer : List Container)
  /-- The first item of an array or its end comes next. -/
  | firstItem (outer : List Container)
  /-- A comma or the end of an array comes next. -/
  | afterItem (before : List Tree) (outer : List Container)
  /-- The first name of an object or its end comes next. -/
  | firstName (outer : List Container)
  /-- A name comes next. -/
  | nextName (before : List (QuotedText × Tree)) (outer : List Container)
  /-- A colon comes next. -/
  | colon (before : List (QuotedText × Tree)) (name : QuotedText) (outer : List Container)
  /-- A comma or the end of an object comes next. -/
  | afterMember (before : List (QuotedText × Tree)) (outer : List Container)
  /-- The value is complete, and tokens follow it or not. -/
  | done (t : Tree) (trailing : Bool)

namespace Place

/-- The place after a complete value. -/
def plug (t : Tree) : List Container → Place
  | [] => .done t false
  | .array before :: outer => .afterItem (t :: before) outer
  | .object before name :: outer => .afterMember ((name, t) :: before) outer

/-- The tree that ends with the given value: no container around it goes on. -/
def abandon (t : Tree) : List Container → Tree
  | [] => t
  | .array before :: outer => abandon (.array ((Items.stop .malformed).after (t :: before))) outer
  | .object before name :: outer =>
    abandon (.object ((Members.stop .malformed).after ((name, t) :: before))) outer

/-- What stands where a value should, as far as its first token tells. -/
def head : Token → Tree
  | .null => .null
  | .bool b => .bool b
  | .number n => .number n
  | .text t => .text t
  | .openArray => .array (.stop .malformed)
  | .openObject => .object (.stop .malformed)
  | .garbled read skipped => .garbled read skipped
  | _ => .missing .malformed

/-- The step over a token where a value comes next. -/
def stepValue (outer : List Container) : Token → Place
  | .openArray => .firstItem outer
  | .openObject => .firstName outer
  | .null => plug .null outer
  | .bool b => plug (.bool b) outer
  | .number n => plug (.number n) outer
  | .text t => plug (.text t) outer
  | .garbled read skipped => plug (.garbled read skipped) outer
  | _ => .done (abandon (.missing .malformed) outer) false

/-- The step over a token. -/
def step : Place → Token → Place
  | .value outer, token => stepValue outer token
  | .firstItem outer, .closeArray => plug (.array .close) outer
  | .firstItem outer, token => stepValue (.array [] :: outer) token
  | .afterItem before outer, .closeArray => plug (.array (Items.close.after before)) outer
  | .afterItem before outer, .comma => .value (.array before :: outer)
  | .afterItem before outer, _ =>
    .done (abandon (.array ((Items.stop .malformed).after before)) outer) false
  | .firstName outer, .closeObject => plug (.object .close) outer
  | .firstName outer, .text t => .colon [] t outer
  | .firstName outer, token => .done (abandon (.object (.unnamed (head token))) outer) false
  | .nextName before outer, .text t => .colon before t outer
  | .nextName before outer, token =>
    .done (abandon (.object ((Members.unnamed (head token)).after before)) outer) false
  | .colon before name outer, .colon => .value (.object before name :: outer)
  | .colon before name outer, _ =>
    .done (abandon (.missing .malformed) (.object before name :: outer)) false
  | .afterMember before outer, .closeObject => plug (.object (Members.close.after before)) outer
  | .afterMember before outer, .comma => .nextName before outer
  | .afterMember before outer, _ =>
    .done (abandon (.object ((Members.stop .malformed).after before)) outer) false
  | .done t _, _ => .done t true

/-- The tree at the end of the text, and whether tokens follow its value. -/
def finish : Place → Tree × Bool
  | .value outer => (abandon (.missing .truncated) outer, false)
  | .firstItem outer => (abandon (.array (.stop .truncated)) outer, false)
  | .afterItem before outer =>
    (abandon (.array ((Items.stop .truncated).after before)) outer, false)
  | .firstName outer => (abandon (.object (.unnamed (.missing .truncated))) outer, false)
  | .nextName before outer =>
    (abandon (.object ((Members.unnamed (.missing .truncated)).after before)) outer, false)
  | .colon before name outer =>
    (abandon (.missing .truncated) (.object before name :: outer), false)
  | .afterMember before outer =>
    (abandon (.object ((Members.stop .truncated).after before)) outer, false)
  | .done t trailing => (t, trailing)

end Place

/-- The tree of a row of tokens, and whether tokens follow its value. -/
def Tree.ofTokens (tokens : List Token) : Tree × Bool :=
  (tokens.foldl Place.step (.value [])).finish

/-- The tree of a text, and whether anything follows its value. -/
def Tree.ofText (s : String) : Tree × Bool := Tree.ofTokens (Token.ofChars s.toList)

end GraphSurvey
