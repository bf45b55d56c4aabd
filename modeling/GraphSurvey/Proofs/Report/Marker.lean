import GraphSurvey.Proofs.Detail.Words
import GraphSurvey.Proofs.Report.Alignment
import Mathlib

/-!
# Absent cells as they are seen

An absent cell is shown as the marker, and a recorded text that is the marker is quoted. Yet a cell
is seen between the spaces of its column, so a recorded text that is the marker with spaces around
it looks like an absent cell too, and so does one that loses other white space at the end of its
line. No other value does: the words of every other value hold a character that is neither white
space nor the sign of the marker.

## Main definitions

* `GraphSurvey.Table.seen` — what is seen of an entry.

## Main results

* `GraphSurvey.Cell.exists_solid` — values that do not look like an absent cell.
* `GraphSurvey.Table.stripSpaces_piece` — what a line has in a column, without the spaces.
* `GraphSurvey.Table.marker_seen_iff` — which cells look absent.
* `GraphSurvey.Table.padded_marker_looks_absent` — a recorded text that looks absent.
-/

namespace GraphSurvey

/-! ## Words that are not the marker -/

namespace Value

theorem solid_of_isDigit {c : Char} (h : c.isDigit) : Text.isBlank c = false ∧ c ≠ '-' := by
  have hrange : 48 ≤ c.toNat ∧ c.toNat ≤ 57 := Char.isDigit_iff_toNat.mp h
  refine ⟨?_, ?_⟩
  · simp [Text.isBlank, Text.inRanges, Text.blankRanges]
    omega
  · rintro rfl
    simp at hrange

/-- There is a digit in every integer. -/
theorem exists_digit (i : Int) : ∃ c ∈ wordChars (.int i), c.isDigit := by
  have hdigit (n : Nat) : ∃ c ∈ (toString n).toList, c.isDigit := by
    obtain ⟨c, hc⟩ := List.exists_mem_of_ne_nil _ (natChars_ne_nil n)
    exact ⟨c, hc, isDigit_of_mem_natChars hc⟩
  cases i with
  | ofNat n => exact hdigit n
  | negSucc n =>
    obtain ⟨c, hc, h⟩ := hdigit (n + 1)
    rw [wordChars_negSucc]
    exact ⟨c, List.mem_cons_of_mem _ hc, h⟩

/-- The words of a value that is no text hold a character that is neither white space nor a dash. -/
theorem exists_solid {v : Value} (h : v.kind ≠ .text) :
    ∃ c ∈ v.wordChars, Text.isBlank c = false ∧ c ≠ '-' := by
  cases v with
  | int i =>
    obtain ⟨c, hc, h⟩ := exists_digit i
    exact ⟨c, hc, solid_of_isDigit h⟩
  | text s => exact absurd rfl h
  | seq items =>
    rw [wordChars_seq]
    refine ⟨'[', ?_, by decide, by decide⟩
    cases items <;> exact List.mem_cons_self
  | map entries =>
    rw [wordChars_map]
    refine ⟨'\x7b', ?_, by decide, by decide⟩
    cases entries <;> exact List.mem_cons_self

end Value

namespace Cell

/-- A value is shown with a character that is neither white space nor a dash, unless it is a text
other than the marker. -/
theorem exists_solid {v : Value} (h : ∀ s, v = .text s → s = marker) :
    ∃ c ∈ (value v).text.toList, Text.isBlank c = false ∧ c ≠ '-' := by
  cases hv : v with
  | text s =>
    obtain rfl := h s hv
    rw [text, if_pos rfl, Text.quoted, String.toList_ofList]
    exact ⟨'"', List.mem_cons_self, by decide, by decide⟩
  | int i => exact Value.exists_solid (v := .int i) nofun
  | seq items => exact Value.exists_solid (v := .seq items) nofun
  | map entries => exact Value.exists_solid (v := .map entries) nofun

theorem text_of_ne_marker {s : String} (h : s ≠ marker) : (value (.text s)).text = s := if_neg h

end Cell

namespace Table

variable {t : Table} {ws : List Nat} {es : List String} {e : String} {k : Nat} {c : Char}

/-! ## What is seen of an entry -/

/-- What is seen of the entry of a column: the last one that is seen loses the white space at its
end. -/
def seen (es : List String) (k : Nat) (e : String) : List Char :=
  if BlankAfter es k then Text.trimEnd e.toList else e.toList

/-- What a line has in a column, without the spaces around it. -/
theorem stripSpaces_piece (h : Fits ws es) (he : es[k]? = some e) :
    Text.stripSpaces (piece ws k (line ws es)) = Text.stripSpaces (seen es k e) := by
  obtain ⟨w, -, hw, -⟩ := exists_spacedLine_eq h he
  rw [seen]
  split
  case isTrue hafter => rw [piece_line_of_blankAfter h he hafter]
  case isFalse hafter =>
    rw [piece_line_of_not_blankAfter h hw he hafter, spaced, Text.stripSpaces_padRight]

/-- A character that is not white space is seen. -/
theorem mem_stripSpaces_seen (es : List String) (k : Nat) (hc : c ∈ e.toList)
    (h : Text.isBlank c = false) :
    c ∈ Text.stripSpaces (seen es k e) := by
  have hspace : c ≠ ' ' := fun heq => by
    rw [heq, Text.isBlank_space] at h
    cases h
  refine Text.mem_stripSpaces ?_ hspace
  rw [seen]
  split
  · exact Text.mem_trimEnd hc h
  · exact hc

theorem stripSpaces_seen_marker (es : List String) (k : Nat) :
    Text.stripSpaces (seen es k Cell.marker) = Cell.marker.toList := by
  rw [seen]
  split <;> decide

/-! ## Cells that look absent -/

/-- Which cells look absent: take a table whose rows have one cell for each column and whose texts
have no line feeds, cut the line of a row at the places of the columns, and drop the spaces around
each piece. The piece of a cell is the marker exactly if the cell is absent or holds a text, other
than the marker itself, of which nothing but the marker is seen between spaces. -/
theorem marker_seen_iff (hfilled : t.Filled) (hbreak : ∀ e ∈ t.texts, '\n' ∉ e.toList) {i : Nat}
    {r : Row} {cell : Cell} (hr : t.rows[i]? = some r) (hcell : r.cells[k]? = some cell) :
    (∀ j, t.widths[j]? = ((t.column j).map String.length).max?) ∧
      ∃ l, (t.text.toList.splitOn '\n')[i + 3]? = some l ∧
        (Text.stripSpaces (piece t.widths (k + 1) l) = Cell.marker.toList ↔
          cell = .absent ∨ ∃ s, cell = .value (.text s) ∧ s ≠ Cell.marker ∧
            Text.stripSpaces (seen (entries r) (k + 1) s) = Cell.marker.toList) := by
  have hentry : (entries r)[k + 1]? = some cell.text := by
    rw [entries, List.getElem?_cons_succ, List.getElem?_map, hcell, Option.map_some]
  have hline : (t.text.toList.splitOn '\n')[i + 3]? = some (line t.widths (entries r)) := by
    have hrow : (t.rows.map fun r => line t.widths (entries r))[i]? =
        some (line t.widths (entries r)) := by rw [List.getElem?_map, hr, Option.map_some]
    rw [splitOn_text hfilled hbreak]
    exact (List.getElem?_append_left (List.getElem?_eq_some_iff.mp hrow).1).trans hrow
  refine ⟨getElem?_widths hfilled, _, hline, ?_⟩
  rw [stripSpaces_piece (fits_row hfilled (List.mem_of_getElem? hr)) hentry]
  constructor
  · intro hmarker
    cases cell with
    | absent => exact .inl rfl
    | value v =>
      by_cases hv : ∀ s, v = .text s → s = Cell.marker
      · obtain ⟨c, hc, hsolid, hdash⟩ := Cell.exists_solid hv
        have hseen := mem_stripSpaces_seen (entries r) (k + 1) hc hsolid
        rw [hmarker] at hseen
        exact absurd (List.mem_singleton.mp hseen) hdash
      · push Not at hv
        obtain ⟨s, rfl, hs⟩ := hv
        exact .inr ⟨s, rfl, hs, Cell.text_of_ne_marker hs ▸ hmarker⟩
  · rintro (rfl | ⟨s, rfl, hs, hseen⟩)
    · exact stripSpaces_seen_marker _ _
    · rw [Cell.text_of_ne_marker hs, hseen]

/-- A table with an absent cell, the marker as a recorded text, and a text that is the marker with
white space around it in the last column. -/
def dashes : Table where
  title := "dashes"
  keyLabel := "node"
  columns := ["absent", "marker", "padded"]
  rows := [⟨"%0", [.absent, .value (.text "-"), .value (.text " -\t")]⟩]

theorem marker_seen_iff_dashes :
    dashes.Filled ∧ (∀ e ∈ dashes.texts, '\n' ∉ e.toList) ∧ dashes.widths = [4, 6, 6, 6] ∧
    ∃ l, (dashes.text.toList.splitOn '\n')[3]? = some l ∧
      Text.stripSpaces (piece [4, 6, 6, 6] 1 l) = ['-'] ∧
      Text.stripSpaces (piece [4, 6, 6, 6] 2 l) ≠ ['-'] ∧
      Text.stripSpaces (piece [4, 6, 6, 6] 3 l) = ['-'] := by
  have hfilled : dashes.Filled := by simp [Filled, dashes]
  have hbreak : ∀ e ∈ dashes.texts, '\n' ∉ e.toList := by decide +kernel
  have hwidths : dashes.widths = [4, 6, 6, 6] := by decide +kernel
  have hcell (k : Nat) (cell : Cell)
      (h : [.absent, .value (.text "-"), .value (.text " -\t")][k]? = some cell) :=
    marker_seen_iff (i := 0) (r := ⟨"%0", _⟩) hfilled hbreak rfl h
  obtain ⟨-, l, hl, habsent⟩ := hcell 0 .absent rfl
  obtain ⟨-, l', hl', hquoted⟩ := hcell 1 (.value (.text "-")) rfl
  obtain ⟨-, l'', hl'', hpadded⟩ := hcell 2 (.value (.text " -\t")) rfl
  obtain rfl : l = l' := Option.some.inj (hl.symm.trans hl')
  obtain rfl : l = l'' := Option.some.inj (hl.symm.trans hl'')
  rw [hwidths] at habsent hquoted hpadded
  refine ⟨hfilled, hbreak, hwidths, l, hl, habsent.mpr (.inl rfl), fun hpiece => ?_,
    hpadded.mpr (.inr ⟨_, rfl, by decide, by decide +kernel⟩)⟩
  rcases hquoted.mp hpiece with hnone | ⟨s, hs, hne, -⟩
  · cases hnone
  · cases hs
    exact hne rfl

/-- A recorded text looks like an absent cell: the marker with a space after it, in the last
column. -/
theorem padded_marker_looks_absent :
    ∃ (t : Table) (r : Row) (cell : Cell) (l : List Char), t.Filled ∧
      (∀ e ∈ t.texts, '\n' ∉ e.toList) ∧ t.rows[0]? = some r ∧ r.cells[0]? = some cell ∧
      cell ≠ .absent ∧ (t.text.toList.splitOn '\n')[3]? = some l ∧
      Text.stripSpaces (piece t.widths 1 l) = Cell.marker.toList := by
  let r : Row := ⟨"r", [.value (.text "- ")]⟩
  let t : Table := ⟨"t", "k", ["c"], [r, ⟨"s", [.absent]⟩]⟩
  have hline : (t.text.toList.splitOn '\n')[3]? = some "r  -".toList := by decide +kernel
  exact ⟨t, r, .value (.text "- "), _, by simp [Filled, t, r], by decide +kernel, rfl, rfl, nofun,
    hline, by decide +kernel⟩

end Table

end GraphSurvey
