import GraphSurvey.Proofs.Document.Numeral
import Mathlib

/-!
# Written texts

A text is written between double quotes, some of its characters with a backslash. It is read back as
itself: every character is one piece of the quoted text, a control character without a sign of its
own as the code unit of its digits, and the pieces are joined without a fault.

## Main definitions

* `GraphSurvey.QuotedText.written` — the quoted text that is written for a text.

## Main results

* `GraphSurvey.QuotedText.content_written` — its content is the text.
* `GraphSurvey.Token.ofChars_textChars` — the token of a written text.
-/

namespace GraphSurvey

/-- The character is written by its code. -/
def isCoded (c : Char) : Bool :=
  c.toNat < 32 && c ≠ '\x08' && c ≠ '\x0c' && c ≠ '\n' && c ≠ '\r' && c ≠ '\t'

/-- The piece of a quoted text that is written for a character. -/
def TextUnit.written (c : Char) : TextUnit := if isCoded c then .code c.toNat else .char c

/-- The quoted text that is written for a text. -/
def QuotedText.written (s : String) : QuotedText := ⟨s.toList.map TextUnit.written, none⟩

theorem toNat_lt_of_isCoded {c : Char} (h : isCoded c = true) : c.toNat < 32 := by
  simp only [isCoded, Bool.and_eq_true, decide_eq_true_eq] at h
  omega

/-! ## Reading the pieces -/

namespace QuotedText

theorem join_written (cs : List Char) : join none (cs.map TextUnit.written) = .ok cs := by
  induction cs with
  | nil => rfl
  | cons c cs ih =>
    rw [List.map_cons, TextUnit.written]
    split
    case isTrue hcoded =>
      have hlt := toNat_lt_of_isCoded hcoded
      have hlow : isLow c.toNat = false := by simp only [isLow]; grind
      have hhigh : isHigh c.toNat = false := by simp only [isHigh]; grind
      rw [join.eq_def]
      simp only [hlow, hhigh, ih, Char.ofNat_toNat]
      rfl
    case isFalse =>
      rw [join, ih]
      rfl

/-- A written text has the text for its content. -/
@[simp] theorem content_written (s : String) : (written s).content = .ok s := by
  rw [content, written, join_written]
  exact congrArg Except.ok String.ofList_toList

@[simp] theorem fault_written (s : String) : (written s).fault = none := rfl

end QuotedText

namespace Token

/-- The pieces of a quoted text with one more at the front. -/
def addUnit (u : TextUnit) (t : QuotedText × List Char) : QuotedText × List Char :=
  (⟨u :: t.1.units, t.1.fault⟩, t.2)

/-- A sign behind a backslash is read as the character that it stands for. -/
theorem textUnits_escaped {sign c : Char} (hsign : sign ≠ 'u') (h : escaped sign = some c)
    (rest : List Char) :
    textUnits ('\\' :: sign :: rest) = addUnit (.char c) (textUnits rest) := by
  rw [textUnits.eq_6 _ _ (fun _ _ _ _ _ hu _ => hsign hu) hsign, h]
  rfl

/-- A character that needs no backslash is read as itself. -/
theorem textUnits_plain {c : Char} (hquote : c ≠ '"') (hbackslash : c ≠ '\\')
    (h : ¬ c.toNat < 32) (rest : List Char) :
    textUnits (c :: rest) = addUnit (.char c) (textUnits rest) := by
  rw [textUnits.eq_def]
  split <;> simp_all [addUnit]

/-- A written character is read as its piece. -/
theorem textUnits_textChar (c : Char) (rest : List Char) :
    textUnits (Json.textChar c ++ rest) = addUnit (.written c) (textUnits rest) := by
  by_cases hquote : c = '"'
  · subst hquote
    exact textUnits_escaped (by decide) rfl rest
  by_cases hbackslash : c = '\\'
  · subst hbackslash
    exact textUnits_escaped (by decide) rfl rest
  by_cases hcontrol : c.toNat < 32
  · -- each of the control characters has its own sign or its own digits
    rw [← Char.ofNat_toNat c]
    generalize c.toNat = n at hcontrol
    interval_cases n <;> rfl
  · have hne (d : Char) (hd : d.toNat < 32) : c ≠ d := by
      rintro rfl
      exact hcontrol hd
    have hplain : Json.textChar c = [c] := by
      have hlow : ¬ c.toNat < 16 := by omega
      simp only [Json.textChar, hquote, hbackslash, hne '\x08' (by decide), hne '\x0c' (by decide),
        hne '\n' (by decide), hne '\r' (by decide), hne '\t' (by decide), hlow, hcontrol, if_false]
    have hunit : TextUnit.written c = .char c := by
      rw [TextUnit.written, if_neg fun hcoded => hcontrol (toNat_lt_of_isCoded hcoded)]
    rw [hplain, hunit]
    exact textUnits_plain hquote hbackslash hcontrol rest

/-- A written text is read up to its closing quote. -/
theorem textUnits_append (cs rest : List Char) :
    textUnits (cs.flatMap Json.textChar ++ '"' :: rest) =
      (⟨cs.map TextUnit.written, none⟩, rest) := by
  induction cs with
  | nil => rw [List.flatMap_nil, List.nil_append, textUnits]; rfl
  | cons c cs ih =>
    rw [List.flatMap_cons, List.append_assoc, textUnits_textChar, ih]
    rfl

/-- The token of a written text, and what follows it. -/
theorem ofChars_textChars (s : String) (rest : List Char) :
    ofChars (Json.textChars s ++ rest) = .text (.written s) :: ofChars rest := by
  have hunits := textUnits_append s.toList rest
  have hchars : Json.textChars s ++ rest =
      '"' :: (s.toList.flatMap Json.textChar ++ '"' :: rest) := by
    rw [Json.textChars, List.cons_append, List.cons_append, List.append_assoc,
      List.singleton_append]
  rw [hchars]
  refine ofChars_cons rfl ?_
  rw [first, hunits]
  rfl

end Token

end GraphSurvey
