import GraphSurvey.Proofs.Detail.Value
import Mathlib
import Std.Data.String.ToNat

/-!
# Values told by their words

Different values may have the same words, since a text may look like anything. Of the values that
are recorded of calls, no two of one kind have: the words of nested sequences of integers, and of
maps of such sequences with positions as names, can be read from left to right. An integer ends
before the first character that is neither a digit nor a minus sign, and a list is closed where no
comma follows.

## Main definitions

* `GraphSurvey.Value.Nested`, `GraphSurvey.Value.Plain` — nested sequences of integers, and the
  values that are recorded of calls.

## Main results

* `GraphSurvey.Value.Nested.delimited` — where the words of a nested sequence end.
* `GraphSurvey.Value.Plain.words_inj` — words tell the plain values of one kind apart.
-/

namespace GraphSurvey

/-! ## Equal values -/

namespace Value

mutual

/-- Values are the same if their parts are. -/
def decEq : (v w : Value) → Decidable (v = w)
  | .int i, .int j => decidable_of_iff (i = j) (by rw [int.injEq])
  | .text s, .text t => decidable_of_iff (s = t) (by rw [text.injEq])
  | .seq items, .seq others =>
    have := decEqItems items others
    decidable_of_iff (items = others) (by rw [seq.injEq])
  | .map entries, .map others =>
    have := decEqEntries entries others
    decidable_of_iff (entries = others) (by rw [map.injEq])
  | .int _, .text _ | .int _, .seq _ | .int _, .map _
  | .text _, .int _ | .text _, .seq _ | .text _, .map _
  | .seq _, .int _ | .seq _, .text _ | .seq _, .map _
  | .map _, .int _ | .map _, .text _ | .map _, .seq _ => isFalse nofun

/-- Sequences are the same if their items are. -/
def decEqItems : (l m : List Value) → Decidable (l = m)
  | [], [] => isTrue rfl
  | v :: rest, w :: others =>
    have := decEq v w
    have := decEqItems rest others
    decidable_of_iff (v = w ∧ rest = others) (by rw [List.cons.injEq])
  | [], _ :: _ | _ :: _, [] => isFalse nofun

/-- Maps are the same if their names and values are. -/
def decEqEntries : (l m : List (String × Value)) → Decidable (l = m)
  | [], [] => isTrue rfl
  | (name, v) :: rest, (other, w) :: others =>
    have := decEq v w
    have := decEqEntries rest others
    decidable_of_iff ((name = other ∧ v = w) ∧ rest = others)
      (by rw [List.cons.injEq, Prod.mk.injEq])
  | [], _ :: _ | _ :: _, [] => isFalse nofun

end

instance : DecidableEq Value := decEq

end Value

/-! ## Texts that end where they end -/

namespace Words

variable {α : Type} {p : α → List Char} {S : α → Prop} {opening closing : Char}
  {l l' r r' : List Char}

/-- The character belongs to an integer in decimal. -/
def isNumeral (c : Char) : Bool := c.isDigit || c = '-'

/-- An integer that stands before the text has ended. -/
def Ends (l : List Char) : Prop := ∀ c ∈ l.head?, isNumeral c = false

theorem ends_cons {c : Char} (h : isNumeral c = false) : Ends (c :: l) := fun d hd => by
  obtain rfl : c = d := Option.some.inj hd
  exact h

/-- The text of a value is over before what ends an integer. -/
def Delimited (p : α → List Char) (S : α → Prop) (a : α) : Prop :=
  ∀ b, S b → ∀ r r', Ends r → Ends r' → p a ++ r = p b ++ r' → a = b ∧ r = r'

/-- Two numerals before an end are the same. -/
theorem eq_of_numerals (hl : ∀ c ∈ l, isNumeral c) (hl' : ∀ c ∈ l', isNumeral c) (hr : Ends r)
    (hr' : Ends r') (h : l ++ r = l' ++ r') : l = l' ∧ r = r' := by
  have htake {m s : List Char} (hm : ∀ c ∈ m, isNumeral c) (hs : Ends s) :
      (m ++ s).takeWhile isNumeral = m := by
    rw [List.takeWhile_append_of_pos hm]
    cases s with
    | nil => simp
    | cons c rest => rw [List.takeWhile_cons_of_neg (by simp [hs c rfl]), List.append_nil]
  have heq : l = l' := by rw [← htake hl hr, h, htake hl' hr']
  subst heq
  exact ⟨rfl, List.append_cancel_left h⟩

/-- What follows the first element of a list. -/
def tail (p : α → List Char) (closing : Char) : List α → List Char
  | [] => [closing]
  | a :: rest => ',' :: ' ' :: (p a ++ tail p closing rest)

/-- The elements of a list, separated by commas, between two characters. -/
def listed (p : α → List Char) (opening closing : Char) : List α → List Char
  | [] => [opening, closing]
  | a :: rest => opening :: (p a ++ tail p closing rest)

theorem tail_cons_append (a : α) (as : List α) :
    tail p closing (a :: as) ++ r = ',' :: ' ' :: (p a ++ (tail p closing as ++ r)) := by
  rw [tail, List.cons_append, List.cons_append, List.append_assoc]

theorem listed_cons_append (a : α) (as : List α) :
    listed p opening closing (a :: as) ++ r = opening :: (p a ++ (tail p closing as ++ r)) := by
  rw [listed, List.cons_append, List.append_assoc]

theorem ends_tail (hclosing : isNumeral closing = false) (as : List α) :
    Ends (tail p closing as ++ r) := by
  cases as with
  | nil => exact ends_cons hclosing
  | cons a rest => exact ends_cons (by decide)

/-- What follows the first elements of two lists tells the rest of the lists. -/
theorem tail_inj (hclosing : isNumeral closing = false) (hcomma : closing ≠ ',') {as bs : List α}
    (has : ∀ a ∈ as, Delimited p S a) (hbs : ∀ b ∈ bs, S b)
    (h : tail p closing as ++ r = tail p closing bs ++ r') : as = bs ∧ r = r' := by
  induction as generalizing bs with
  | nil =>
    cases bs with
    | nil => exact ⟨rfl, (List.cons.inj h).2⟩
    | cons b bs => exact absurd (List.cons.inj h).1 hcomma
  | cons a as ih =>
    cases bs with
    | nil => exact absurd (List.cons.inj h).1.symm hcomma
    | cons b bs =>
      obtain ⟨ha, has'⟩ := List.forall_mem_cons.mp has
      obtain ⟨hb, hbs'⟩ := List.forall_mem_cons.mp hbs
      rw [tail_cons_append, tail_cons_append] at h
      have hitems := (List.cons.inj (List.cons.inj h).2).2
      obtain ⟨rfl, hrest⟩ := ha b hb _ _ (ends_tail hclosing as) (ends_tail hclosing bs) hitems
      obtain ⟨rfl, hr⟩ := ih has' hbs' hrest
      exact ⟨rfl, hr⟩

/-- The texts of two lists tell the lists, if no element starts with the closing character. -/
theorem listed_inj (hclosing : isNumeral closing = false) (hcomma : closing ≠ ',')
    (hstart : ∀ b, S b → ∀ rest, p b ++ rest ≠ closing :: r) {as bs : List α}
    (hstart' : ∀ a ∈ as, ∀ rest, p a ++ rest ≠ closing :: r')
    (has : ∀ a ∈ as, Delimited p S a) (hbs : ∀ b ∈ bs, S b)
    (h : listed p opening closing as ++ r = listed p opening closing bs ++ r') :
    as = bs ∧ r = r' := by
  cases as with
  | nil =>
    cases bs with
    | nil => exact ⟨rfl, (List.cons.inj (List.cons.inj h).2).2⟩
    | cons b bs =>
      rw [listed_cons_append] at h
      exact absurd (List.cons.inj h).2.symm (hstart b (hbs b List.mem_cons_self) _)
  | cons a as =>
    rw [listed_cons_append] at h
    cases bs with
    | nil => exact absurd (List.cons.inj h).2 (hstart' a List.mem_cons_self _)
    | cons b bs =>
      obtain ⟨ha, has'⟩ := List.forall_mem_cons.mp has
      obtain ⟨hb, hbs'⟩ := List.forall_mem_cons.mp hbs
      rw [listed_cons_append] at h
      have hitems := (List.cons.inj h).2
      obtain ⟨rfl, hrest⟩ := ha b hb _ _ (ends_tail hclosing as) (ends_tail hclosing bs) hitems
      obtain ⟨rfl, hr⟩ := tail_inj hclosing hcomma has' hbs' hrest
      exact ⟨rfl, hr⟩

/-- The elements with a comma and a blank between them, and then the closing character. -/
theorem intercalate_append_eq (a : α) (as : List α) :
    [',', ' '].intercalate ((a :: as).map p) ++ [closing] = p a ++ tail p closing as := by
  induction as generalizing a with
  | nil => simp [List.intercalate, tail]
  | cons b bs ih =>
    rw [List.map_cons, List.map_cons, List.intercalate_cons_cons, ← List.map_cons,
      List.append_assoc, ih, tail, List.append_assoc]
    rfl

theorem cons_intercalate_append_eq (as : List α) :
    opening :: [',', ' '].intercalate (as.map p) ++ [closing] = listed p opening closing as := by
  cases as with
  | nil => rfl
  | cons a as => rw [listed, ← intercalate_append_eq, List.cons_append]

end Words

/-! ## Words of nested sequences -/

namespace Value

open Words

/-- An integer, or a sequence of such values. -/
inductive Nested : Value → Prop
  | int (i : Int) : Nested (.int i)
  | seq {items : List Value} (h : ∀ v ∈ items, Nested v) : Nested (.seq items)

theorem nested_ofInts (is : List Int) : (ofInts is).Nested := by
  refine .seq fun v hv => ?_
  obtain ⟨i, -, rfl⟩ := List.mem_map.mp hv
  exact .int i

/-- The characters of the words of a value. -/
def wordChars (v : Value) : List Char := v.words.toList

/-- The characters of an entry of a map. -/
def entryChars (e : String × Value) : List Char := e.1.toList ++ ':' :: ' ' :: e.2.wordChars

theorem itemWords_eq (items : List Value) : itemWords items = items.map words := by
  induction items with
  | nil => rfl
  | cons v rest ih => rw [itemWords, ih, List.map_cons]

theorem entryWords_eq (entries : List (String × Value)) :
    entryWords entries = entries.map fun e => e.1 ++ ": " ++ e.2.words := by
  induction entries with
  | nil => rfl
  | cons e rest ih => rw [entryWords, ih, List.map_cons]

theorem wordChars_seq (items : List Value) :
    wordChars (.seq items) = listed wordChars '[' ']' items := by
  rw [wordChars, words, bracketed, String.toList_append, String.toList_append,
    String.toList_intercalate, itemWords_eq, List.map_map, ← cons_intercalate_append_eq]
  rfl

theorem wordChars_map (entries : List (String × Value)) :
    wordChars (.map entries) = listed entryChars '\x7b' '\x7d' entries := by
  have hentry (e : String × Value) :
      (String.toList ∘ fun e : String × Value => e.1 ++ ": " ++ e.2.words) e = entryChars e := by
    rw [Function.comp_apply, String.toList_append, String.toList_append, List.append_assoc]
    rfl
  rw [wordChars, words, String.toList_append, String.toList_append, String.toList_intercalate,
    entryWords_eq, List.map_map, List.map_congr_left fun e _ => hentry e,
    ← cons_intercalate_append_eq]
  rfl

/-- A natural number in decimal is made of digits. -/
theorem isDigit_of_mem_natChars {n : Nat} {c : Char} (h : c ∈ (toString n).toList) : c.isDigit := by
  rw [Nat.toString_eq_repr, Nat.repr_eq_ofList_toDigits, String.toList_ofList] at h
  exact Nat.isDigit_of_mem_toDigits (by decide) (by decide) h

theorem isNumeral_of_mem_natChars {n : Nat} {c : Char} (h : c ∈ (toString n).toList) :
    isNumeral c := by
  rw [isNumeral, isDigit_of_mem_natChars h, Bool.true_or]

theorem natChars_ne_nil (n : Nat) : (toString n).toList ≠ [] := by
  rw [Nat.toString_eq_repr, Nat.repr_eq_ofList_toDigits, String.toList_ofList]
  exact Nat.toDigits_ne_nil

theorem wordChars_negSucc (n : Nat) :
    wordChars (.int (.negSucc n)) = '-' :: (toString (n + 1)).toList :=
  String.toList_append

/-- An integer in decimal is made of digits and a minus sign. -/
theorem isNumeral_of_mem_intChars {i : Int} {c : Char} (h : c ∈ wordChars (.int i)) :
    isNumeral c := by
  cases i with
  | ofNat n => exact isNumeral_of_mem_natChars h
  | negSucc n =>
    rw [wordChars_negSucc] at h
    rcases List.mem_cons.mp h with rfl | h
    · decide
    · exact isNumeral_of_mem_natChars h

theorem intChars_ne_nil (i : Int) : wordChars (.int i) ≠ [] := by
  cases i with
  | ofNat n => exact natChars_ne_nil n
  | negSucc n =>
    rw [wordChars_negSucc]
    exact List.cons_ne_nil _ _

theorem intChars_inj {i j : Int} (h : wordChars (.int i) = wordChars (.int j)) : i = j :=
  Int.repr_injective (String.toList_inj.mp h)

/-- The words of an integer do not start with a character that is not in any integer. -/
theorem intChars_append_ne {i : Int} {c : Char} (hc : isNumeral c = false) (l r : List Char) :
    wordChars (.int i) ++ l ≠ c :: r := by
  obtain ⟨d, rest, hd⟩ := List.exists_cons_of_ne_nil (intChars_ne_nil i)
  have hnumeral : isNumeral d := isNumeral_of_mem_intChars (hd ▸ List.mem_cons_self)
  rw [hd]
  rintro heq
  rw [(List.cons.inj heq).1, hc] at hnumeral
  cases hnumeral

/-- The words of a nested sequence do not start with a closing bracket. -/
theorem Nested.append_ne {v : Value} (h : v.Nested) (l r : List Char) :
    v.wordChars ++ l ≠ ']' :: r := by
  cases h with
  | int i => exact intChars_append_ne (by decide) l r
  | @seq items h =>
    rw [wordChars_seq]
    cases items <;> exact fun heq => absurd (List.cons.inj heq).1 (by decide)

/-- The words of a nested sequence are over before what ends an integer. -/
theorem Nested.delimited {v : Value} (h : v.Nested) : Delimited wordChars Nested v := by
  induction h with
  | int i =>
    intro w hw r r' hr hr' heq
    -- a numeral is not a bracket, so the other value is an integer too
    cases hw with
    | int j =>
      obtain ⟨hij, hrest⟩ := eq_of_numerals (fun _ => isNumeral_of_mem_intChars)
        (fun _ => isNumeral_of_mem_intChars) hr hr' heq
      exact ⟨congrArg Value.int (intChars_inj hij), hrest⟩
    | @seq items hitems =>
      rw [wordChars_seq] at heq
      cases items <;> exact absurd heq (intChars_append_ne (by decide) _ _)
  | @seq items hitems ih =>
    intro w hw r r' hr hr' heq
    rw [wordChars_seq] at heq
    cases hw with
    | int j => cases items <;> exact absurd heq.symm (intChars_append_ne (by decide) _ _)
    | @seq others hothers =>
      rw [wordChars_seq] at heq
      obtain ⟨rfl, hrest⟩ := listed_inj (by decide) (by decide)
        (fun v hv rest => hv.append_ne rest r) (fun v hv rest => (hitems v hv).append_ne rest r')
        ih hothers heq
      exact ⟨rfl, hrest⟩

/-! ## Words of maps -/

/-- The entry of a map is a nested sequence by a position in decimal. -/
def IsPlace (e : String × Value) : Prop := (∃ n : Nat, e.1 = toString n) ∧ e.2.Nested

/-- The text of a place does not start with a closing brace. -/
theorem IsPlace.append_ne {e : String × Value} (h : IsPlace e) (l r : List Char) :
    entryChars e ++ l ≠ '\x7d' :: r := by
  obtain ⟨⟨n, hn⟩, -⟩ := h
  rw [entryChars, hn, List.append_assoc]
  exact intChars_append_ne (i := n) (by decide) _ _

/-- The text of a place is over before what ends an integer. -/
theorem IsPlace.delimited {e : String × Value} (h : IsPlace e) :
    Delimited entryChars IsPlace e := by
  intro e' he' r r' hr hr' heq
  obtain ⟨name, v⟩ := e
  obtain ⟨name', v'⟩ := e'
  obtain ⟨⟨n, rfl⟩, hv⟩ := h
  obtain ⟨⟨n', rfl⟩, hv'⟩ := he'
  simp only [entryChars, List.append_assoc] at heq
  obtain ⟨hname, hrest⟩ := eq_of_numerals (fun _ => isNumeral_of_mem_natChars)
    (fun _ => isNumeral_of_mem_natChars) (ends_cons (by decide)) (ends_cons (by decide)) heq
  have hwords : v.wordChars ++ r = v'.wordChars ++ r' := (List.cons.inj (List.cons.inj hrest).2).2
  obtain ⟨rfl, hr⟩ := hv.delimited v' hv' r r' hr hr' hwords
  exact ⟨by rw [String.toList_inj.mp hname], hr⟩

/-! ## Plain values -/

/-- The values that are recorded of calls: texts, nested sequences of integers, and maps of such
sequences by positions. -/
inductive Plain : Value → Prop
  | text (s : String) : Plain (.text s)
  | nested {v : Value} (h : v.Nested) : Plain v
  | map {entries : List (String × Value)} (h : ∀ e ∈ entries, IsPlace e) : Plain (.map entries)

/-- Plain values of one kind with the same words are the same. -/
theorem Plain.words_inj {v w : Value} (hv : v.Plain) (hw : w.Plain) (hkind : v.kind = w.kind)
    (h : v.words = w.words) : v = w := by
  have hchars : v.wordChars ++ [] = w.wordChars ++ [] := by rw [wordChars, wordChars, h]
  cases hv with
  | text s =>
    cases hw with
    | text s' => exact congrArg Value.text h
    | nested hw => cases hw <;> cases hkind
    | map => cases hkind
  | nested hv =>
    cases hw with
    | text s => cases hv <;> cases hkind
    | nested hw => exact (hv.delimited w hw [] [] nofun nofun hchars).1
    | map => cases hv <;> cases hkind
  | map hv =>
    cases hw with
    | text => cases hkind
    | nested hw => cases hw <;> cases hkind
    | map hw =>
      rw [wordChars_map, wordChars_map] at hchars
      obtain ⟨rfl, -⟩ := listed_inj (by decide) (by decide)
        (fun e he rest => he.append_ne rest []) (fun e he rest => (hv e he).append_ne rest [])
        (fun e he => (hv e he).delimited) hw hchars
      rfl

/-- Values of different kinds may have the same words. -/
example : words (.text "[1, 2]") = words (ofInts [1, 2]) := by decide

/-! ## Types as plain values -/

mutual

/-- The form of a type is a nested sequence. -/
theorem nested_of_ofType : (ty : ResultType) → {v : Value} → ofType ty = some v → v.Nested
  | .tensor shape, v, h => by
    obtain rfl := Option.some.inj h
    exact nested_ofInts _
  | .tuple fields, v, h => by
    obtain ⟨items, hitems, rfl⟩ := Option.map_eq_some_iff.mp h
    exact .seq (nested_of_ofTypes fields hitems)
  | .named name, v, h => nomatch h

theorem nested_of_ofTypes : (fields : List ResultType) → {items : List Value} →
    ofTypes fields = some items → ∀ v ∈ items, v.Nested
  | [], items, h => by
    obtain rfl := Option.some.inj h
    exact nofun
  | ty :: rest, items, h => by
    obtain ⟨v, vs, hv, hvs, rfl⟩ := ofTypes_cons_eq_some_iff.mp h
    exact List.forall_mem_cons.mpr ⟨nested_of_ofType ty hv, nested_of_ofTypes rest hvs⟩

end

end Value

end GraphSurvey
