import GraphSurvey.Text.Quoted
import Mathlib

/-!
# Quoted texts of visible characters

All visible ASCII characters have a shape of their own. So a text of them and of spaces stands
between its quotes as it is, unless there are quotes or backslashes in it.

## Main definitions

* `GraphSurvey.Text.isUnescaped` — a visible ASCII character or a space, other than a quote or a
  backslash.

## Main results

* `GraphSurvey.Text.isShown_of_ascii` — visible ASCII characters are shown as they are.
* `GraphSurvey.Text.quoted_of_unescaped` — texts that only get their quotes.
-/

namespace GraphSurvey.Text

/-- A visible ASCII character or a space, other than a quote or a backslash. -/
def isUnescaped (c : Char) : Bool :=
  0x20 ≤ c.toNat && c.toNat ≤ 0x7e && c ≠ '"' && c ≠ '\\'

/-- None of the ranges meets the visible ASCII characters and the space. -/
def clearOfAscii (ranges : List (Nat × Nat)) : Bool :=
  ranges.all fun r => r.2 < 0x20 || 0x7e < r.1

variable {c : Char} {s : String}

theorem isUnescaped_iff :
    isUnescaped c ↔ ((0x20 ≤ c.toNat ∧ c.toNat ≤ 0x7e) ∧ c ≠ '"') ∧ c ≠ '\\' := by
  simp only [isUnescaped, Bool.and_eq_true, decide_eq_true_eq]

theorem inRanges_of_clearOfAscii {ranges : List (Nat × Nat)} (h : clearOfAscii ranges)
    (hlower : 0x20 ≤ c.toNat) (hupper : c.toNat ≤ 0x7e) : inRanges ranges c = false := by
  rw [inRanges, List.any_eq_false]
  intro r hr
  have hclear := List.all_eq_true.mp h r hr
  simp only [Bool.or_eq_true, decide_eq_true_eq] at hclear
  simp only [Bool.and_eq_true, decide_eq_true_eq]
  omega

/-- Visible ASCII characters and the space are shown as they are. -/
theorem isShown_of_ascii (hlower : 0x20 ≤ c.toNat) (hupper : c.toNat ≤ 0x7e) : isShown c := by
  have hextender : clearOfAscii extenderRanges := by decide +kernel
  have hshapeless : clearOfAscii shapelessRanges := by decide +kernel
  have hignorable : clearOfAscii ignorableRanges := by decide +kernel
  rw [isShown, inRanges_of_clearOfAscii hextender hlower hupper,
    inRanges_of_clearOfAscii hshapeless hlower hupper,
    inRanges_of_clearOfAscii hignorable hlower hupper]
  rfl

theorem isUnescaped_of_isDigit (h : c.isDigit) : isUnescaped c := by
  have hrange : 48 ≤ c.toNat ∧ c.toNat ≤ 57 := Char.isDigit_iff_toNat.mp h
  refine isUnescaped_iff.mpr ⟨⟨⟨by omega, by omega⟩, ?_⟩, ?_⟩ <;> rintro rfl <;> simp at hrange

theorem quotedChar_of_isUnescaped (h : isUnescaped c) : quotedChar c = [c] := by
  obtain ⟨⟨⟨hlower, hupper⟩, hquote⟩, hbackslash⟩ := isUnescaped_iff.mp h
  have hne {d : Char} (hd : d.toNat < 0x20) : c ≠ d := by
    rintro rfl
    exact absurd hlower hd.not_ge
  rw [quotedChar, if_neg hquote, if_neg hbackslash, if_neg (hne (by decide)),
    if_neg (hne (by decide)), if_neg (hne (by decide)), if_neg (hne (by decide)),
    if_pos (isShown_of_ascii hlower hupper)]

/-- A text without characters to escape gets its quotes and nothing else. -/
theorem quoted_of_unescaped (h : s.toList.all isUnescaped) : quoted s = "\"" ++ s ++ "\"" := by
  have hchars : s.toList.flatMap quotedChar = s.toList := by
    rw [List.flatMap_congr fun c hc => quotedChar_of_isUnescaped (List.all_eq_true.mp h c hc)]
    exact List.flatMap_singleton' _
  rw [quoted, hchars, ← String.toList_inj, String.toList_ofList, String.toList_append,
    String.toList_append]
  rfl

end GraphSurvey.Text
