import GraphSurvey.Document.Tree
import GraphSurvey.Proofs.Document.Quoted
import Mathlib

/-!
# Written documents are read as they are

The text of a document is a row of tokens, and these tokens are put together as the tree of the
document: no fault is met on the way and nothing is left over. A number that is not finite has no
numeral, and its tree is that of `null`.

## Main definitions

* `GraphSurvey.Json.tokens` — the tokens of a document.
* `GraphSurvey.Json.tree` — the tree of a document.

## Main results

* `GraphSurvey.Json.ofChars_chars` — the text of a document consists of its tokens.
* `GraphSurvey.Json.foldl_step_tokens` — going over its tokens completes its tree.
* `GraphSurvey.Json.ofTokens_tokens` — the tokens of a document have its tree.
-/

namespace GraphSurvey

namespace Json

/-! ## Tokens -/

/-- The token of a number of a binary format. -/
def realToken {f : BinaryFormat} (layout : Layout) (x : Binary f) : Token :=
  if x.isFinite then .number (layout.numeral x) else .null

mutual

/-- The tokens of a document. -/
def tokens : Json → List Token
  | .null => [.null]
  | .bool b => [.bool b]
  | .int i => [.number (.ofInt i)]
  | .double x => [realToken doubles x]
  | .single x => [realToken singles x]
  | .text s => [.text (.written s)]
  | .array items => .openArray :: (itemTokens items ++ [.closeArray])
  | .object members => .openObject :: (memberTokens members ++ [.closeObject])

/-- The tokens of the items of an array. -/
def itemTokens : List Json → List Token
  | [] => []
  | [j] => j.tokens
  | j :: k :: rest => j.tokens ++ .comma :: itemTokens (k :: rest)

/-- The tokens of the members of an object. -/
def memberTokens : List (String × Json) → List Token
  | [] => []
  | [(name, j)] => .text (.written name) :: .colon :: j.tokens
  | (name, j) :: m :: rest =>
    .text (.written name) :: .colon :: (j.tokens ++ .comma :: memberTokens (m :: rest))

end

open Token

theorem ofChars_word_null (rest : List Char) :
    ofChars (['n', 'u', 'l', 'l'] ++ rest) = .null :: ofChars rest :=
  ofChars_cons rfl rfl

theorem ofChars_boolChars (b : Bool) (rest : List Char) :
    ofChars (boolChars b ++ rest) = .bool b :: ofChars rest := by
  cases b <;> exact ofChars_cons rfl rfl

theorem ofChars_realChars {f : BinaryFormat} (layout : Layout) (x : Binary f) {rest : List Char}
    (hends : Ends rest) :
    ofChars (realChars layout x ++ rest) = realToken layout x :: ofChars rest := by
  rw [realChars, realToken]
  split
  · rw [layout.write_eq]
    exact ofChars_spelled (layout.wellFormed_numeral x) hends
  · exact ofChars_word_null rest

theorem ofChars_intChars (i : Int) {rest : List Char} (hends : Ends rest) :
    ofChars (intChars i ++ rest) = .number (.ofInt i) :: ofChars rest := by
  rw [intChars_eq]
  exact ofChars_spelled (wellFormed_ofInt i) hends

theorem ofChars_sign {c : Char} {token : Token} (hgap : isGap c = false)
    (hfirst : ∀ cs, first c cs = (token, cs)) (rest : List Char) :
    ofChars (c :: rest) = token :: ofChars rest :=
  ofChars_cons hgap (hfirst rest)

theorem ends_comma (rest : List Char) : Ends (',' :: rest) :=
  ends_cons (by decide) (by decide) (by decide) (by decide)

theorem ends_bracket (rest : List Char) : Ends (']' :: rest) :=
  ends_cons (by decide) (by decide) (by decide) (by decide)

theorem ends_brace (rest : List Char) : Ends ('\x7d' :: rest) :=
  ends_cons (by decide) (by decide) (by decide) (by decide)

mutual

/-- The text of a document consists of its tokens. -/
theorem ofChars_chars (j : Json) {rest : List Char} (hends : Ends rest) :
    ofChars (j.chars ++ rest) = j.tokens ++ ofChars rest := by
  match j with
  | .null => exact ofChars_word_null rest
  | .bool b => exact ofChars_boolChars b rest
  | .int i => exact ofChars_intChars i hends
  | .double x => exact ofChars_realChars doubles x hends
  | .single x => exact ofChars_realChars singles x hends
  | .text s => exact ofChars_textChars s rest
  | .array items =>
    have hitems := ofChars_itemChars items (ends_bracket rest)
    simp only [chars, tokens, List.cons_append, List.append_assoc, List.nil_append]
    rw [ofChars_sign rfl fun _ => rfl, hitems, ofChars_sign rfl fun _ => rfl]
  | .object members =>
    have hmembers := ofChars_memberChars members (ends_brace rest)
    simp only [chars, tokens, List.cons_append, List.append_assoc, List.nil_append]
    rw [ofChars_sign rfl fun _ => rfl, hmembers, ofChars_sign rfl fun _ => rfl]

/-- The text between the brackets of an array consists of the tokens of its items. -/
theorem ofChars_itemChars (items : List Json) {rest : List Char} (hends : Ends rest) :
    ofChars (itemChars items ++ rest) = itemTokens items ++ ofChars rest := by
  match items with
  | [] => rfl
  | [j] => exact ofChars_chars j hends
  | j :: k :: more =>
    have hmore := ofChars_itemChars (k :: more) hends
    simp only [itemChars, itemTokens, List.append_assoc, List.cons_append] at hmore ⊢
    rw [ofChars_chars j (ends_comma _), ofChars_sign rfl fun _ => rfl, hmore]

/-- The text between the braces of an object consists of the tokens of its members. -/
theorem ofChars_memberChars (members : List (String × Json)) {rest : List Char}
    (hends : Ends rest) :
    ofChars (memberChars members ++ rest) = memberTokens members ++ ofChars rest := by
  match members with
  | [] => rfl
  | [(name, j)] =>
    simp only [memberChars, memberTokens, List.append_assoc, List.cons_append]
    rw [ofChars_textChars, ofChars_sign rfl fun _ => rfl, ofChars_chars j hends]
  | (name, j) :: m :: more =>
    have hmore := ofChars_memberChars (m :: more) hends
    simp only [memberChars, memberTokens, List.append_assoc, List.cons_append] at hmore ⊢
    rw [ofChars_textChars, ofChars_sign rfl fun _ => rfl, ofChars_chars j (ends_comma _),
      ofChars_sign rfl fun _ => rfl, hmore]

end

/-! ## Trees -/

/-- The tree of a number of a binary format. -/
def realTree {f : BinaryFormat} (layout : Layout) (x : Binary f) : Tree :=
  if x.isFinite then .number (layout.numeral x) else .null

mutual

/-- The tree of a document. -/
def tree : Json → Tree
  | .null => .null
  | .bool b => .bool b
  | .int i => .number (.ofInt i)
  | .double x => realTree doubles x
  | .single x => realTree singles x
  | .text s => .text (.written s)
  | .array items => .array (itemTrees items)
  | .object members => .object (memberTrees members)

/-- The trees of the items of an array. -/
def itemTrees : List Json → Items
  | [] => .close
  | j :: rest => .item j.tree (itemTrees rest)

/-- The trees of the members of an object. -/
def memberTrees : List (String × Json) → Members
  | [] => .close
  | (name, j) :: rest => .member (.written name) j.tree (memberTrees rest)

end

open Place

theorem step_realToken {f : BinaryFormat} (layout : Layout) (x : Binary f)
    (outer : List Container) :
    Place.step (.value outer) (realToken layout x) = plug (realTree layout x) outer := by
  rw [realToken, realTree]
  split <;> rfl

theorem realToken_ne {f : BinaryFormat} (layout : Layout) (x : Binary f) :
    realToken layout x ≠ .closeArray := by
  rw [realToken]
  split <;> nofun

/-- A document does not start with the end of an array. -/
theorem exists_tokens (j : Json) :
    ∃ token rest, j.tokens = token :: rest ∧ token ≠ Token.closeArray := by
  cases j with
  | double x => exact ⟨_, _, rfl, realToken_ne doubles x⟩
  | single x => exact ⟨_, _, rfl, realToken_ne singles x⟩
  | _ => exact ⟨_, _, rfl, nofun⟩

theorem exists_itemTokens (j : Json) (rest : List Json) :
    ∃ token more, itemTokens (j :: rest) = token :: more ∧ token ≠ Token.closeArray := by
  obtain ⟨token, more, htokens, hne⟩ := j.exists_tokens
  cases rest with
  | nil => exact ⟨token, more, htokens, hne⟩
  | cons k rest => exact ⟨token, _, by rw [itemTokens, htokens, List.cons_append], hne⟩

/-- The first item of an array is read as the others are. -/
theorem step_firstItem {token : Token} (h : token ≠ .closeArray) (outer : List Container) :
    Place.step (.firstItem outer) token = Place.step (.value (.array [] :: outer)) token := by
  cases token with
  | closeArray => exact absurd rfl h
  | _ => rfl

/-- Behind a name and a colon its value comes next. -/
theorem step_name_colon (before : List (QuotedText × Tree)) (name : QuotedText)
    (outer : List Container) :
    Place.step (Place.step (.nextName before outer) (.text name)) .colon =
      .value (.object before name :: outer) := rfl

mutual

/-- Going over the tokens of a document completes its tree. -/
theorem foldl_step_tokens (j : Json) (outer : List Container) :
    j.tokens.foldl step (.value outer) = plug j.tree outer := by
  match j with
  | .null | .bool _ | .int _ | .text _ => rfl
  | .double x => exact step_realToken doubles x outer
  | .single x => exact step_realToken singles x outer
  | .array [] => rfl
  | .array (j :: rest) =>
    have hitems := foldl_step_itemTokens (j :: rest) (List.cons_ne_nil j rest) [] outer
    obtain ⟨token, more, htokens, hne⟩ := exists_itemTokens j rest
    rw [htokens, List.cons_append, List.foldl_cons, ← step_firstItem hne] at hitems
    rw [tokens, htokens]
    exact hitems
  | .object [] => rfl
  | .object ((name, j) :: []) =>
    exact foldl_step_memberTokens [(name, j)] (List.cons_ne_nil _ _) [] outer
  | .object ((name, j) :: m :: rest) =>
    exact foldl_step_memberTokens ((name, j) :: m :: rest) (List.cons_ne_nil _ _) [] outer

/-- Going over the tokens of the items that are left of an array, and over its end, completes it. -/
theorem foldl_step_itemTokens (items : List Json) (hne : items ≠ []) (before : List Tree)
    (outer : List Container) :
    (itemTokens items ++ [Token.closeArray]).foldl step (.value (.array before :: outer)) =
      plug (.array ((itemTrees items).after before)) outer := by
  match items with
  | [] => exact absurd rfl hne
  | [j] =>
    rw [itemTokens, List.foldl_append, foldl_step_tokens j (.array before :: outer)]
    rfl
  | j :: k :: more =>
    rw [itemTokens, List.append_assoc, List.foldl_append,
      foldl_step_tokens j (.array before :: outer)]
    exact foldl_step_itemTokens (k :: more) (List.cons_ne_nil _ _) (j.tree :: before) outer

/-- Going over the tokens of the members that are left of an object, and over its end, completes
it. -/
theorem foldl_step_memberTokens (members : List (String × Json)) (hne : members ≠ [])
    (before : List (QuotedText × Tree)) (outer : List Container) :
    (memberTokens members ++ [Token.closeObject]).foldl step (.nextName before outer) =
      plug (.object ((memberTrees members).after before)) outer := by
  match members with
  | [] => exact absurd rfl hne
  | [(name, j)] =>
    rw [memberTokens, List.cons_append, List.cons_append, List.foldl_cons, List.foldl_cons,
      step_name_colon, List.foldl_append, foldl_step_tokens j]
    rfl
  | (name, j) :: m :: more =>
    rw [memberTokens, List.cons_append, List.cons_append, List.foldl_cons, List.foldl_cons,
      step_name_colon, List.append_assoc, List.foldl_append, foldl_step_tokens j]
    exact foldl_step_memberTokens (m :: more) (List.cons_ne_nil _ _)
      ((.written name, j.tree) :: before) outer

end

/-- The tokens of a document are put together as its tree, and nothing follows it. -/
theorem ofTokens_tokens (j : Json) : Tree.ofTokens j.tokens = (j.tree, false) := by
  rw [Tree.ofTokens, foldl_step_tokens]
  rfl

end Json

end GraphSurvey
