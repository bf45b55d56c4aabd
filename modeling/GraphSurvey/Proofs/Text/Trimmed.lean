import GraphSurvey.Text.Blank
import Mathlib

/-!
# Texts without their ends

What becomes of a text when the white space at its end is dropped, or the spaces around it. Only
white space is lost, and what stands before a text with another character is kept with it.

## Main definitions

* `GraphSurvey.Text.AllBlank`, `GraphSurvey.Text.Trimmed` — texts of white space only, and texts
  that do not end in white space.
* `GraphSurvey.Text.stripSpaces` — a text without the spaces around it.

## Main results

* `GraphSurvey.Text.trimEnd_append` — the end of a text after another one.
* `GraphSurvey.Text.mem_trimEnd`, `GraphSurvey.Text.mem_stripSpaces` — what is not lost.
-/

namespace GraphSurvey.Text

variable {s t : List Char} {c : Char}

/-! ## What is not dropped -/

theorem mem_dropWhile_of_not {p : Char → Bool} (hc : c ∈ s) (h : p c = false) :
    c ∈ s.dropWhile p := by
  rw [← List.takeWhile_append_dropWhile (p := p) (l := s)] at hc
  refine (List.mem_append.mp hc).resolve_left fun hlost => ?_
  rw [List.mem_takeWhile_imp hlost] at h
  cases h

theorem mem_rdropWhile_of_not {p : Char → Bool} (hc : c ∈ s) (h : p c = false) :
    c ∈ s.rdropWhile p :=
  List.mem_reverse.mpr (mem_dropWhile_of_not (List.mem_reverse.mpr hc) h)

/-! ## White space at the end -/

/-- The text holds nothing but white space. -/
def AllBlank (s : List Char) : Prop := ∀ c ∈ s, isBlank c

instance : DecidablePred AllBlank := fun s => inferInstanceAs (Decidable (∀ c ∈ s, isBlank c))

theorem allBlank_append_iff : AllBlank (s ++ t) ↔ AllBlank s ∧ AllBlank t := List.forall_mem_append

theorem allBlank_replicate (n : Nat) : AllBlank (List.replicate n ' ') := fun c hc => by
  rw [List.eq_of_mem_replicate hc]
  exact isBlank_space

/-- A text after another one is trimmed by itself, unless nothing of it is left. -/
theorem trimEnd_append (s t : List Char) :
    trimEnd (s ++ t) = if AllBlank t then trimEnd s else s ++ trimEnd t := by
  have hblank : (t.reverse.dropWhile isBlank).isEmpty ↔ AllBlank t := by simp [AllBlank]
  rw [trimEnd, List.reverse_append, List.dropWhile_append]
  by_cases h : AllBlank t
  · rw [if_pos h, if_pos (hblank.mpr h), trimEnd]
  · rw [if_neg h, if_neg (mt hblank.mp h), List.reverse_append, List.reverse_reverse, trimEnd]

theorem trimEnd_of_allBlank (h : AllBlank s) : trimEnd s = [] := List.rdropWhile_eq_nil_iff.mpr h

theorem trimEnd_padRight (width : Nat) (s : List Char) : trimEnd (padRight width s) = trimEnd s :=
  (trimEnd_append _ _).trans (if_pos (allBlank_replicate _))

theorem allBlank_padRight_iff {width : Nat} : AllBlank (padRight width s) ↔ AllBlank s := by
  rw [padRight, allBlank_append_iff]
  exact and_iff_left (allBlank_replicate _)

theorem trimEnd_prefix (s : List Char) : trimEnd s <+: s := List.rdropWhile_prefix isBlank s

/-- The text does not end in white space. -/
def Trimmed (s : List Char) : Prop := ∀ c ∈ s.getLast?, isBlank c = false

instance : DecidablePred Trimmed := fun s =>
  Option.decidableForallMem (p := fun c => isBlank c = false) (o := s.getLast?)

/-- A text that does not end in white space is kept. -/
theorem Trimmed.trimEnd_eq (h : Trimmed s) : trimEnd s = s := by
  refine List.rdropWhile_eq_self_iff.mpr fun hne => ?_
  rw [h _ (List.getLast?_eq_getLast_of_ne_nil hne)]
  exact Bool.false_ne_true

theorem trimmed_trimEnd (s : List Char) : Trimmed (trimEnd s) := fun c hc => by
  obtain ⟨hne, rfl⟩ := List.mem_getLast?_eq_getLast hc
  exact Bool.eq_false_iff.mpr (List.rdropWhile_last_not isBlank s hne)

/-- A character that is not white space is kept. -/
theorem mem_trimEnd (hc : c ∈ s) (h : isBlank c = false) : c ∈ trimEnd s :=
  mem_rdropWhile_of_not hc h

/-! ## Spaces around a text -/

/-- The text without the spaces around it. -/
def stripSpaces (s : List Char) : List Char := (s.dropWhile (· = ' ')).rdropWhile (· = ' ')

/-- A character that is not a space is kept. -/
theorem mem_stripSpaces (hc : c ∈ s) (h : c ≠ ' ') : c ∈ stripSpaces s :=
  mem_rdropWhile_of_not (mem_dropWhile_of_not hc (decide_eq_false h)) (decide_eq_false h)

theorem stripSpaces_concat_space (s : List Char) : stripSpaces (s ++ [' ']) = stripSpaces s := by
  rw [stripSpaces, stripSpaces, List.dropWhile_append]
  split
  case isTrue hspaces => rw [List.isEmpty_iff.mp hspaces]; rfl
  case isFalse => exact List.rdropWhile_concat_pos _ _ _ (decide_eq_true rfl)

/-- Spaces after a text are not seen. -/
theorem stripSpaces_padRight (width : Nat) (s : List Char) :
    stripSpaces (padRight width s) = stripSpaces s := by
  rw [padRight]
  induction width - s.length with
  | zero => rw [List.replicate_zero, List.append_nil]
  | succ n ih => rw [List.replicate_succ', ← List.append_assoc, stripSpaces_concat_space, ih]

end GraphSurvey.Text
