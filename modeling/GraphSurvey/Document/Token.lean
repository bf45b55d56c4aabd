import GraphSurvey.Document.Numeral

/-!
# Tokens of a document's text

A text is cut into brackets, commas, colons, words, numerals and quoted texts. Cutting stops at the
first place where the text is no row of tokens; what was found there is the last token.

A quoted text is cut into characters and escaped code units first. Only a reader that wants its
content joins the units: a surrogate unit without its partner is no fault of a quoted text that is
passed over.

## Main definitions

* `GraphSurvey.QuotedText` — a quoted text, with the faults met by reading it and by passing over
  it.
* `GraphSurvey.Token` — a token.
* `GraphSurvey.Token.ofChars` — the tokens of a text.
-/

namespace GraphSurvey

/-- A piece of a quoted text. -/
inductive TextUnit where
  | char (c : Char)
  /-- A code unit of 16 bits, escaped by its hexadecimal digits. -/
  | code (n : Nat)
  deriving DecidableEq, Repr

/-- A quoted text. -/
structure QuotedText where
  /-- The pieces up to its end or up to the first fault. -/
  units : List TextUnit
  /-- The fault at which the pieces end, if they do not end at the closing quote. -/
  fault : Option Fault
  deriving DecidableEq, Repr

namespace QuotedText

/-- The unit is the first one of a pair. -/
def isHigh (n : Nat) : Bool := 0xd800 ≤ n && n < 0xdc00

/-- The unit is the second one of a pair. -/
def isLow (n : Nat) : Bool := 0xdc00 ≤ n && n < 0xe000

/-- The characters that the pieces stand for. A pair of surrogate units stands for one character,
and a surrogate unit outside a pair is malformed. -/
def join (fault : Option Fault) : List TextUnit → Except Fault (List Char)
  | [] =>
    match fault with
    | none => .ok []
    | some f => .error f
  | .char c :: rest => (c :: ·) <$> join fault rest
  | .code n :: rest =>
    if isLow n then .error .malformed
    else if isHigh n then
      match rest with
      | .code m :: rest =>
        if isLow m then
          (Char.ofNat (0x10000 + 0x400 * (n - 0xd800) + (m - 0xdc00)) :: ·) <$> join fault rest
        else .error .malformed
      | .char _ :: _ => .error .malformed
      | [] => .error (fault.getD .malformed)
    else (Char.ofNat n :: ·) <$> join fault rest

/-- The content of the text. -/
def content (t : QuotedText) : Except Fault String := String.ofList <$> join t.fault t.units

/-- A text without escapes. -/
def plain (s : String) : QuotedText := ⟨s.toList.map .char, none⟩

end QuotedText

/-- A token. -/
inductive Token where
  | openArray
  | closeArray
  | openObject
  | closeObject
  | comma
  | colon
  | null
  | bool (b : Bool)
  | number (n : Numeral)
  | text (t : QuotedText)
  /-- A word or numeral that goes wrong: the fault met by reading it, and by passing over it. -/
  | garbled (read skipped : Fault)
  /-- A character that starts no token. -/
  | stray
  deriving DecidableEq, Repr

namespace Token

/-- The value of a hexadecimal digit. -/
def hexValue (c : Char) : Option Nat :=
  if '0' ≤ c ∧ c ≤ '9' then some (c.toNat - '0'.toNat)
  else if 'a' ≤ c ∧ c ≤ 'f' then some (c.toNat - 'a'.toNat + 10)
  else if 'A' ≤ c ∧ c ≤ 'F' then some (c.toNat - 'A'.toNat + 10)
  else none

/-- The value of four hexadecimal digits. -/
def hexUnit (a b c d : Char) : Option Nat := do
  return 0x1000 * (← hexValue a) + 0x100 * (← hexValue b) + 0x10 * (← hexValue c) + (← hexValue d)

/-- The character that a sign after a backslash stands for. -/
def escaped (c : Char) : Option Char :=
  if c = '"' ∨ c = '\\' ∨ c = '/' then some c
  else if c = 'b' then some '\x08'
  else if c = 'f' then some '\x0c'
  else if c = 'n' then some '\n'
  else if c = 'r' then some '\r'
  else if c = 't' then some '\t'
  else none

/-- The fault of a code unit with fewer than four characters left: fewer than four bytes left are an
early end. -/
def shortUnit (rest : List Char) : Fault :=
  if (String.ofList rest).utf8ByteSize < 4 then .truncated else .malformed

/-- The pieces of a quoted text, the opening quote passed, and what follows the closing one. -/
def textUnits : List Char → QuotedText × List Char
  | [] => (⟨[], some .truncated⟩, [])
  | '"' :: rest => (⟨[], none⟩, rest)
  | ['\\'] => (⟨[], some .truncated⟩, [])
  | '\\' :: 'u' :: a :: b :: c :: d :: rest =>
    match hexUnit a b c d with
    | some n => let (t, rest) := textUnits rest; (⟨.code n :: t.units, t.fault⟩, rest)
    | none => (⟨[], some .malformed⟩, [])
  | '\\' :: 'u' :: rest => (⟨[], some (shortUnit rest)⟩, [])
  | '\\' :: sign :: rest =>
    match escaped sign with
    | some e => let (t, rest) := textUnits rest; (⟨.char e :: t.units, t.fault⟩, rest)
    | none => (⟨[], some .malformed⟩, [])
  | c :: rest =>
    if c.toNat < 32 then (⟨[], some .malformed⟩, [])
    else let (t, rest) := textUnits rest; (⟨.char c :: t.units, t.fault⟩, rest)

/-- Reads the remaining letters of a word. -/
def word (token : Token) : List Char → List Char → Token × List Char
  | [], rest => (token, rest)
  | _ :: _, [] => (.garbled .truncated .truncated, [])
  | e :: es, c :: rest =>
    if c = e then word token es rest else (.garbled .malformed .malformed, [])

/-- A numeral whose next digit is missing. Only a reader that wants its number tells an early end
from another fault. -/
def noDigit (rest : List Char) : Token × List Char :=
  (.garbled (if rest.isEmpty then .truncated else .malformed) .malformed, [])

/-- The sign of an exponent, `true` for minus, and what follows it. -/
def exponentSign : List Char → Bool × List Char
  | '-' :: rest => (true, rest)
  | '+' :: rest => (false, rest)
  | rest => (false, rest)

/-- The exponent of a numeral and its end. -/
def exponent (negative : Bool) (whole fraction : List Char) : List Char → Token × List Char
  | [] => (.number ⟨negative, whole, fraction, none⟩, [])
  | c :: rest =>
    if c = 'e' ∨ c = 'E' then
      let (minus, rest) := exponentSign rest
      let digits := rest.takeWhile Char.isDigit
      if digits = [] then noDigit rest
      else (.number ⟨negative, whole, fraction, some (minus, digits)⟩, rest.dropWhile Char.isDigit)
    else (.number ⟨negative, whole, fraction, none⟩, c :: rest)

/-- The fraction of a numeral and the rest of it. -/
def fraction (negative : Bool) (whole : List Char) : List Char → Token × List Char
  | '.' :: rest =>
    let digits := rest.takeWhile Char.isDigit
    if digits = [] then noDigit rest
    else exponent negative whole digits (rest.dropWhile Char.isDigit)
  | rest => exponent negative whole [] rest

/-- A numeral without its sign. A zero stands at the front only of `0` itself. -/
def numeral (negative : Bool) (cs : List Char) : Token × List Char :=
  let whole := cs.takeWhile Char.isDigit
  if whole = [] then noDigit cs
  else if whole.head? = some '0' ∧ whole.length ≠ 1 then (.garbled .malformed .malformed, [])
  else fraction negative whole (cs.dropWhile Char.isDigit)

/-- The token that starts with the given character, and what follows it. -/
def first (c : Char) (rest : List Char) : Token × List Char :=
  match c with
  | '[' => (.openArray, rest)
  | ']' => (.closeArray, rest)
  | '\x7b' => (.openObject, rest)
  | '\x7d' => (.closeObject, rest)
  | ',' => (.comma, rest)
  | ':' => (.colon, rest)
  | '"' => (.text (textUnits rest).1, (textUnits rest).2)
  | 'n' => word .null ['u', 'l', 'l'] rest
  | 't' => word (.bool true) ['r', 'u', 'e'] rest
  | 'f' => word (.bool false) ['a', 'l', 's', 'e'] rest
  | '-' => numeral true rest
  | c => if c.isDigit then numeral false (c :: rest) else (.stray, [])

/-- The character may stand between tokens. -/
def isGap (c : Char) : Bool := c = ' ' || c = '\n' || c = '\t' || c = '\r'

/-! ## What follows a token is shorter -/

private theorem dropDigits_length (cs : List Char) :
    (cs.dropWhile Char.isDigit).length ≤ cs.length :=
  (List.dropWhile_suffix _).length_le

theorem textUnits_length (cs : List Char) : (textUnits cs).2.length ≤ cs.length := by
  fun_induction textUnits cs <;> simp_all only [List.length_cons, List.length_nil] <;> omega

theorem word_length (token : Token) (es cs : List Char) :
    (word token es cs).2.length ≤ cs.length := by
  fun_induction word token es cs <;> simp_all only [List.length_cons, List.length_nil] <;> omega

theorem exponentSign_length (cs : List Char) : (exponentSign cs).2.length ≤ cs.length := by
  unfold exponentSign
  split <;> simp

theorem exponent_length (negative : Bool) (whole fraction cs : List Char) :
    (exponent negative whole fraction cs).2.length ≤ cs.length := by
  cases cs with
  | nil => simp [exponent]
  | cons c rest =>
    have hs := exponentSign_length rest
    have hd := dropDigits_length (exponentSign rest).2
    simp only [exponent, List.length_cons]
    split
    · split
      · simp [noDigit]
      · simp only; omega
    · simp

theorem fraction_length (negative : Bool) (whole cs : List Char) :
    (fraction negative whole cs).2.length ≤ cs.length := by
  unfold fraction
  split
  · rename_i rest
    simp only
    split
    · simp [noDigit]
    · refine Nat.le_trans (exponent_length ..) (Nat.le_trans (dropDigits_length rest) ?_)
      simp
  · exact exponent_length ..

theorem numeral_length (negative : Bool) (c : Char) (rest : List Char) (h : c.isDigit = true) :
    (numeral negative (c :: rest)).2.length ≤ rest.length := by
  simp only [numeral]
  split
  · simp [noDigit]
  · split
    · simp
    · refine Nat.le_trans (fraction_length ..) ?_
      simp only [List.dropWhile_cons, h, if_true]
      exact dropDigits_length rest

theorem numeral_length_le (negative : Bool) (cs : List Char) :
    (numeral negative cs).2.length ≤ cs.length := by
  simp only [numeral]
  split
  · simp [noDigit]
  · split
    · simp
    · exact Nat.le_trans (fraction_length ..) (dropDigits_length cs)

theorem first_length (c : Char) (rest : List Char) : (first c rest).2.length ≤ rest.length := by
  unfold first
  split
  case h_7 => exact textUnits_length rest
  case h_8 | h_9 | h_10 => exact word_length ..
  case h_11 => exact numeral_length_le ..
  case h_12 =>
    split
    · exact numeral_length _ _ _ (by assumption)
    · exact Nat.zero_le _
  all_goals exact Nat.le_refl _

/-- The tokens of a text. -/
def ofChars : List Char → List Token
  | [] => []
  | c :: rest =>
    if isGap c then ofChars rest
    else (first c rest).1 :: ofChars (first c rest).2
termination_by cs => cs.length
decreasing_by
  · simp
  · exact Nat.lt_succ_of_le (first_length c rest)

end Token

end GraphSurvey
