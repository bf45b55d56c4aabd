import GraphSurvey.Proofs.Document.Written
import Mathlib

/-!
# Indented texts are read as compact ones

Between the tokens of an indented text there are line feeds and spaces, and these are passed over.
So an indented text consists of the tokens of the compact one, at whatever level it stands in the
text around it, and a document has the same tree however it is written. Documents with a text in
common have the same tree.

## Main definitions

* `GraphSurvey.Json.Writes` — characters that are written for a document.

## Main results

* `GraphSurvey.Json.ofChars_indentedChars` — an indented text consists of the tokens of its
  document.
* `GraphSurvey.Json.tree_ofText_of_writes`, `GraphSurvey.Json.tree_ofText_line` — all texts of a
  document have its tree, and so has an indented text with a line feed behind it.
* `GraphSurvey.Json.tree_eq_of_writes` — a text determines the tree of its document.
-/

namespace GraphSurvey

namespace Json

open Token

/-! ## Starts of lines -/

theorem ofChars_gap {c : Char} (h : isGap c = true) (rest : List Char) :
    ofChars (c :: rest) = ofChars rest := by
  rw [ofChars, if_pos h]

/-- The start of a line is passed over. -/
theorem ofChars_newLine (level : Nat) (rest : List Char) :
    ofChars (newLine level ++ rest) = ofChars rest := by
  rw [newLine, List.cons_append, ofChars_gap rfl]
  induction 2 * level with
  | zero => rfl
  | succ n ih => rw [List.replicate_succ, List.cons_append, ofChars_gap rfl, ih]

theorem ends_newLine (level : Nat) (rest : List Char) : Ends (newLine level ++ rest) :=
  ends_cons (by decide) (by decide) (by decide) (by decide)

theorem ends_indentedItems (level : Nat) (items : List Json) {rest : List Char}
    (hends : Ends rest) : Ends (indentedItems level items ++ rest) := by
  cases items with
  | nil => exact hends
  | cons j more => exact ends_comma _

theorem ends_indentedMembers (level : Nat) (members : List (String × Json)) {rest : List Char}
    (hends : Ends rest) : Ends (indentedMembers level members ++ rest) := by
  cases members with
  | nil => exact hends
  | cons m more => exact ends_comma _

/-! ## Tokens -/

/-- The further items of an array have a comma before them. -/
theorem itemTokens_cons (j : Json) (rest : List Json) :
    itemTokens (j :: rest) = j.tokens ++ rest.flatMap fun k => .comma :: k.tokens := by
  induction rest generalizing j with
  | nil => rw [itemTokens, List.flatMap_nil, List.append_nil]
  | cons k rest ih => rw [itemTokens, ih, List.flatMap_cons, List.cons_append]

/-- The tokens of one member of an object. -/
def oneMemberTokens (m : String × Json) : List Token :=
  .text (.written m.1) :: .colon :: m.2.tokens

theorem oneMemberTokens_mk (name : String) (j : Json) :
    oneMemberTokens (name, j) = .text (.written name) :: .colon :: j.tokens := rfl

/-- The further members of an object have a comma before them. -/
theorem memberTokens_cons (m : String × Json) (rest : List (String × Json)) :
    memberTokens (m :: rest) =
      oneMemberTokens m ++ rest.flatMap fun n => .comma :: oneMemberTokens n := by
  induction rest generalizing m with
  | nil => rw [memberTokens, List.flatMap_nil, List.append_nil, oneMemberTokens]
  | cons n rest ih =>
    obtain ⟨name, j⟩ := m
    rw [memberTokens, ih n, List.flatMap_cons, oneMemberTokens_mk]
    rfl

/-- A name with its colon and the blank behind it. -/
theorem ofChars_name (name : String) (rest : List Char) :
    ofChars (textChars name ++ ':' :: ' ' :: rest) =
      .text (.written name) :: .colon :: ofChars rest := by
  rw [ofChars_textChars, ofChars_sign rfl fun _ => rfl, ofChars_gap rfl]

mutual

/-- An indented text consists of the tokens of its document. -/
theorem ofChars_indentedChars (level : Nat) (j : Json) {rest : List Char} (hends : Ends rest) :
    ofChars (j.indentedChars level ++ rest) = j.tokens ++ ofChars rest := by
  match j with
  | .null => exact ofChars_word_null rest
  | .bool b => exact ofChars_boolChars b rest
  | .int i => exact ofChars_intChars i hends
  | .double x => exact ofChars_realChars doubles x hends
  | .single x => exact ofChars_realChars singles x hends
  | .text s => exact ofChars_textChars s rest
  | .array [] => exact ofChars_chars (.array []) hends
  | .object [] => exact ofChars_chars (.object []) hends
  | .array (j :: more) =>
    have hlast := ends_newLine level (']' :: rest)
    have hmore := ofChars_indentedItems (level + 1) more hlast
    have hfirst := ofChars_indentedChars (level + 1) j (ends_indentedItems (level + 1) more hlast)
    simp only [indentedChars, tokens, itemTokens_cons, List.cons_append, List.append_assoc,
      List.nil_append]
    rw [ofChars_sign rfl fun _ => rfl, ofChars_newLine, hfirst, hmore, ofChars_newLine,
      ofChars_sign rfl fun _ => rfl]
  | .object ((name, j) :: more) =>
    have hlast := ends_newLine level ('\x7d' :: rest)
    have hmore := ofChars_indentedMembers (level + 1) more hlast
    have hfirst := ofChars_indentedChars (level + 1) j (ends_indentedMembers (level + 1) more hlast)
    simp only [indentedChars, tokens, memberTokens_cons, oneMemberTokens_mk, List.cons_append,
      List.append_assoc, List.nil_append]
    rw [ofChars_sign rfl fun _ => rfl, ofChars_newLine, ofChars_name, hfirst, hmore,
      ofChars_newLine, ofChars_sign rfl fun _ => rfl]

/-- The lines of the further items of an array consist of their tokens. -/
theorem ofChars_indentedItems (level : Nat) (items : List Json) {rest : List Char}
    (hends : Ends rest) : ofChars (indentedItems level items ++ rest) =
      (items.flatMap fun j => .comma :: j.tokens) ++ ofChars rest := by
  match items with
  | [] => rfl
  | j :: more =>
    have hmore := ofChars_indentedItems level more hends
    have hfirst := ofChars_indentedChars level j (ends_indentedItems level more hends)
    simp only [indentedItems, List.flatMap_cons, List.cons_append, List.append_assoc]
    rw [ofChars_sign rfl fun _ => rfl, ofChars_newLine, hfirst, hmore]

/-- The lines of the further members of an object consist of their tokens. -/
theorem ofChars_indentedMembers (level : Nat) (members : List (String × Json)) {rest : List Char}
    (hends : Ends rest) : ofChars (indentedMembers level members ++ rest) =
      (members.flatMap fun m => .comma :: oneMemberTokens m) ++ ofChars rest := by
  match members with
  | [] => rfl
  | (name, j) :: more =>
    have hmore := ofChars_indentedMembers level more hends
    have hfirst := ofChars_indentedChars level j (ends_indentedMembers level more hends)
    simp only [indentedMembers, List.flatMap_cons, oneMemberTokens_mk, List.cons_append,
      List.append_assoc]
    rw [ofChars_sign rfl fun _ => rfl, ofChars_newLine, ofChars_name, hfirst, hmore]

end

/-! ## Trees -/

/-- The characters are written for the document, without blanks or indented at some level. -/
def Writes (j : Json) (cs : List Char) : Prop := cs = j.chars ∨ ∃ level, cs = j.indentedChars level

theorem writes_chars (j : Json) : j.Writes j.chars := .inl rfl

theorem writes_indentedChars (j : Json) (level : Nat) : j.Writes (j.indentedChars level) :=
  .inr ⟨level, rfl⟩

theorem writes_compact (j : Json) : j.Writes j.compact.toList := by
  rw [compact, String.toList_ofList]
  exact j.writes_chars

theorem writes_indented (j : Json) : j.Writes j.indented.toList := by
  rw [indented, String.toList_ofList]
  exact j.writes_indentedChars 0

variable {j k : Json} {cs : List Char}

theorem ofChars_of_writes (h : j.Writes cs) : ofChars cs = j.tokens := by
  have hread : ofChars (cs ++ []) = j.tokens ++ ofChars [] := by
    rcases h with rfl | ⟨level, rfl⟩
    · exact j.ofChars_chars ends_nil
    · exact j.ofChars_indentedChars level ends_nil
  rwa [List.append_nil, ofChars, List.append_nil] at hread

/-- All texts of a document have its tree. -/
theorem tree_ofText_of_writes {s : String} (h : j.Writes s.toList) :
    Tree.ofText s = (j.tree, false) := by
  rw [Tree.ofText, ofChars_of_writes h, ofTokens_tokens]

/-- A line feed behind an indented text is passed over. -/
theorem tree_ofText_line (j : Json) : Tree.ofText (j.indented ++ "\n") = (j.tree, false) := by
  have hline : (j.indented ++ "\n").toList = j.indentedChars 0 ++ newLine 0 := by
    rw [String.toList_append, indented, String.toList_ofList]
    rfl
  have hends : Ends (newLine 0) := List.append_nil (newLine 0) ▸ ends_newLine 0 []
  have hread : ofChars (newLine 0) = [] := by
    rw [← List.append_nil (newLine 0), ofChars_newLine, ofChars]
  rw [Tree.ofText, hline, ofChars_indentedChars 0 j hends, hread, List.append_nil, ofTokens_tokens]

/-- A text determines the tree of its document. -/
theorem tree_eq_of_writes (hj : j.Writes cs) (hk : k.Writes cs) : j.tree = k.tree := by
  have htokens : j.tokens = k.tokens := (ofChars_of_writes hj).symm.trans (ofChars_of_writes hk)
  have htree := congrArg Tree.ofTokens htokens
  rw [ofTokens_tokens, ofTokens_tokens] at htree
  exact congrArg Prod.fst htree

end Json

end GraphSurvey
