import GraphSurvey.Decimal.Layout
import GraphSurvey.Dictionary

/-!
# Documents and their texts

A document is a tree of JSON values. It has two texts: a compact one without any blanks, and an
indented one with two spaces to a level, where an empty array or object stays on its line.

## Main definitions

* `GraphSurvey.Json` — a document.
* `GraphSurvey.Json.compact`, `GraphSurvey.Json.indented` — its texts.
* `GraphSurvey.Json.sorted` — the document with the members of its objects in the order of their
  names.
-/

namespace GraphSurvey

/-- A document. -/
inductive Json where
  | null
  | bool (b : Bool)
  | int (i : Int)
  | double (x : Binary64)
  | single (x : Binary32)
  | text (s : String)
  | array (items : List Json)
  | object (members : List (String × Json))

namespace Json

/-- Numbers of double precision have the digits nearest to them, ties going to even digits. They are
written positionally from `0.00001` up to, but without, `10 ^ 16`. -/
def doubles : Layout where
  half := .toEven
  least := -5
  greatest := 15
  plus := true

/-- Numbers of single precision are written positionally from `0.000001` up to, but without,
`10 ^ 13`, and otherwise as those of double precision. -/
def singles : Layout := { doubles with least := -6, greatest := 12 }

/-- A character inside a text. -/
def textChar (c : Char) : List Char :=
  if c = '"' then ['\\', '"']
  else if c = '\\' then ['\\', '\\']
  else if c = '\x08' then ['\\', 'b']
  else if c = '\x0c' then ['\\', 'f']
  else if c = '\n' then ['\\', 'n']
  else if c = '\r' then ['\\', 'r']
  else if c = '\t' then ['\\', 't']
  else if c.toNat < 16 then ['\\', 'u', '0', '0', '0'] ++ Nat.toDigits 16 c.toNat
  else if c.toNat < 32 then ['\\', 'u', '0', '0'] ++ Nat.toDigits 16 c.toNat
  else [c]

/-- A text between double quotes. -/
def textChars (s : String) : List Char := '"' :: s.toList.flatMap textChar ++ ['"']

/-- An integer in decimal. -/
def intChars (i : Int) : List Char :=
  if i < 0 then '-' :: Nat.toDigits 10 i.natAbs else Nat.toDigits 10 i.natAbs

/-- A number of a binary format. What is not finite has no numeral. -/
def realChars {f : BinaryFormat} (layout : Layout) (x : Binary f) : List Char :=
  if x.isFinite then layout.write x else ['n', 'u', 'l', 'l']

/-- A truth value. -/
def boolChars : Bool → List Char
  | true => ['t', 'r', 'u', 'e']
  | false => ['f', 'a', 'l', 's', 'e']

mutual

/-- The characters of the compact text. -/
def chars : Json → List Char
  | .null => ['n', 'u', 'l', 'l']
  | .bool b => boolChars b
  | .int i => intChars i
  | .double x => realChars doubles x
  | .single x => realChars singles x
  | .text s => textChars s
  | .array items => '[' :: itemChars items ++ [']']
  | .object members => '\x7b' :: memberChars members ++ ['\x7d']

/-- The items of an array, separated by commas. -/
def itemChars : List Json → List Char
  | [] => []
  | [j] => j.chars
  | j :: k :: rest => j.chars ++ ',' :: itemChars (k :: rest)

/-- The members of an object, separated by commas. -/
def memberChars : List (String × Json) → List Char
  | [] => []
  | [(name, j)] => textChars name ++ ':' :: j.chars
  | (name, j) :: m :: rest => textChars name ++ ':' :: j.chars ++ ',' :: memberChars (m :: rest)

end

/-- The compact text. -/
def compact (j : Json) : String := String.ofList j.chars

/-- The start of a line at a level of indentation. -/
def newLine (level : Nat) : List Char := '\n' :: List.replicate (2 * level) ' '

mutual

/-- The characters of the indented text, the value standing at the given level. -/
def indentedChars (level : Nat) : Json → List Char
  | .null => ['n', 'u', 'l', 'l']
  | .bool b => boolChars b
  | .int i => intChars i
  | .double x => realChars doubles x
  | .single x => realChars singles x
  | .text s => textChars s
  | .array [] => ['[', ']']
  | .array (j :: rest) =>
    '[' :: newLine (level + 1) ++ j.indentedChars (level + 1) ++
      indentedItems (level + 1) rest ++ newLine level ++ [']']
  | .object [] => ['\x7b', '\x7d']
  | .object ((name, j) :: rest) =>
    '\x7b' :: newLine (level + 1) ++ textChars name ++ ':' :: ' ' :: j.indentedChars (level + 1) ++
      indentedMembers (level + 1) rest ++ newLine level ++ ['\x7d']

/-- The further items of an array, each on a line of its own. -/
def indentedItems (level : Nat) : List Json → List Char
  | [] => []
  | j :: rest => ',' :: newLine level ++ j.indentedChars level ++ indentedItems level rest

/-- The further members of an object, each on a line of its own. -/
def indentedMembers (level : Nat) : List (String × Json) → List Char
  | [] => []
  | (name, j) :: rest =>
    ',' :: newLine level ++ textChars name ++ ':' :: ' ' :: j.indentedChars level ++
      indentedMembers level rest

end

/-- The indented text. -/
def indented (j : Json) : String := String.ofList (j.indentedChars 0)

mutual

/-- The document with the members of every object in increasing order of their names. Of several
members of one name the last stays. -/
def sorted : Json → Json
  | .array items => .array (sortedItems items)
  | .object members => .object (sortedMembers [] members)
  | j => j

/-- The items of an array, each sorted. -/
def sortedItems : List Json → List Json
  | [] => []
  | j :: rest => j.sorted :: sortedItems rest

/-- The members of an object, each sorted, put among those before them. -/
def sortedMembers (before : List (String × Json)) : List (String × Json) → List (String × Json)
  | [] => before
  | (name, j) :: rest => sortedMembers (putEntry name j.sorted before) rest

end

end Json

end GraphSurvey
