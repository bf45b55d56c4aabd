import GraphSurvey.Proofs.Text.Trimmed
import GraphSurvey.Report.Table
import Mathlib

/-!
# Where the entries of a table stand

The columns of a table have the widths of their widest entries and are two spaces apart, so that the
place of a column in every line is fixed by the widths of the columns before it. An entry that does
not end in white space stands in its line exactly there, whatever its neighbours are, and all that
stands between the entries are spaces. What a line loses at its end is white space after the last
entry that is seen.

## Main definitions

* `GraphSurvey.Table.offset`, `GraphSurvey.Table.piece` — the place of a column, and what a line has
  from there up to the next column.
* `GraphSurvey.Table.column` — the entries of a column.
* `GraphSurvey.Table.Shows` — a line has its entries at the places of their columns and spaces
  everywhere else.

## Main results

* `GraphSurvey.Table.piece_line_of_not_blankAfter`, `GraphSurvey.Table.piece_line_of_blankAfter` —
  what a line has in a column.
* `GraphSurvey.Table.getElem?_widths` — the width of a column is the greatest length of its entries.
* `GraphSurvey.Table.splitOn_text` — the lines of a table as a text.
* `GraphSurvey.Table.text_aligned` — the text of a table is aligned.
-/

namespace GraphSurvey.Table

variable {t : Table} {ws : List Nat} {es : List String} {e : String} {k w : Nat} {c : Char}

/-- Every row has one cell for each column. -/
def Filled (t : Table) : Prop := ∀ r ∈ t.rows, r.cells.length = t.columns.length

/-- The texts of a table: its title, its labels, the keys of its rows and the texts of its cells. -/
def texts (t : Table) : List String := t.title :: t.header ++ t.rows.flatMap entries

/-! ## Columns -/

/-- The place of the first character of a column: each column before it is followed by two
spaces. -/
def offset (ws : List Nat) (k : Nat) : Nat := ((ws.take k).map (· + 2)).sum

/-- What a line has from the place of a column up to the place of the next one. -/
def piece (ws : List Nat) (k : Nat) (l : List Char) : List Char :=
  (l.take (offset ws (k + 1))).drop (offset ws k)

/-- There is one entry for each column, and no entry is wider than its column. -/
abbrev Fits (ws : List Nat) (es : List String) : Prop :=
  List.Forall₂ (fun w (e : String) => e.length ≤ w) ws es

theorem offset_zero (ws : List Nat) : offset ws 0 = 0 := rfl

theorem offset_cons_succ (w : Nat) (ws : List Nat) (k : Nat) :
    offset (w :: ws) (k + 1) = w + 2 + offset ws k := by
  rw [offset, List.take_succ_cons, List.map_cons, List.sum_cons, offset]

theorem offset_succ (h : ws[k]? = some w) : offset ws (k + 1) = offset ws k + (w + 2) := by
  rw [offset, List.take_add_one, h, List.map_append, List.sum_append, offset]
  rfl

/-- What follows a text that ends at the place of a column belongs to that column. -/
theorem piece_append {before : List Char} (hw : ws[k]? = some w)
    (hbefore : before.length = offset ws k) (rest : List Char) :
    piece ws k (before ++ rest) = rest.take (w + 2) := by
  rw [piece, offset_succ hw, ← hbefore, List.take_length_add_append, List.drop_left]

/-! ## Lines -/

/-- The entry of a column and the spaces up to the next column. -/
def spaced (w : Nat) (e : String) : List Char := Text.padRight (w + 2) e.toList

/-- The entries of a line, each with the spaces up to the next column. -/
def spacedLine (ws : List Nat) (es : List String) : List Char :=
  (List.zipWith spaced ws es).flatten

theorem length_spaced (h : e.length ≤ w) : (spaced w e).length = w + 2 := by
  rw [spaced, Text.padRight, List.length_append, List.length_replicate, String.length_toList]
  omega

theorem spaced_eq (h : e.length ≤ w) : spaced w e = Text.padRight w e.toList ++ [' ', ' '] := by
  have hpad : w + 2 - e.length = w - e.length + 2 := by omega
  rw [spaced, Text.padRight, Text.padRight, String.length_toList, hpad, List.append_assoc,
    ← List.replicate_append_replicate]
  rfl

theorem intercalate_append (sep a : List Char) (as : List (List Char)) :
    sep.intercalate (a :: as) ++ sep = ((a :: as).map (· ++ sep)).flatten := by
  induction as generalizing a with
  | nil => simp [List.intercalate]
  | cons b bs ih =>
    rw [List.intercalate_cons_cons, List.append_assoc, List.append_assoc, ih, ← List.append_assoc]
    rfl

/-- A line is its entries with the spaces between the columns, without the white space at its
end. -/
theorem line_eq (h : Fits ws es) : line ws es = Text.trimEnd (spacedLine ws es) := by
  have hspaced : (List.zipWith (fun w e => Text.padRight w e.toList) ws es).map (· ++ [' ', ' ']) =
      List.zipWith spaced ws es := by
    induction h with
    | nil => rfl
    | cons hw _ ih =>
      rw [List.zipWith_cons_cons, List.zipWith_cons_cons, List.map_cons, ih, spaced_eq hw]
  have hblank : Text.AllBlank [' ', ' '] := Text.allBlank_replicate 2
  rw [line, spacedLine, ← hspaced]
  cases List.zipWith (fun w (e : String) => Text.padRight w e.toList) ws es with
  | nil => rfl
  | cons a as => rw [← intercalate_append, Text.trimEnd_append, if_pos hblank]

theorem allBlank_spacedLine_iff (h : Fits ws es) :
    Text.AllBlank (spacedLine ws es) ↔ ∀ e ∈ es, Text.AllBlank e.toList := by
  induction h with
  | nil => simp [spacedLine, Text.AllBlank]
  | cons _ _ ih =>
    rw [List.forall_mem_cons, ← ih, spacedLine, List.zipWith_cons_cons, List.flatten_cons,
      Text.allBlank_append_iff, spaced, Text.allBlank_padRight_iff]
    rfl

/-- Nothing but white space stands in the columns after the given one. -/
def BlankAfter (es : List String) (k : Nat) : Prop :=
  ∀ later ∈ es.drop (k + 1), Text.AllBlank later.toList

instance : Decidable (BlankAfter es k) :=
  inferInstanceAs (Decidable (∀ later ∈ es.drop (k + 1), Text.AllBlank later.toList))

/-- The line around the entry of a column. -/
theorem exists_spacedLine_eq (h : Fits ws es) (he : es[k]? = some e) :
    ∃ w before, ws[k]? = some w ∧ e.length ≤ w ∧ before.length = offset ws k ∧
      Fits (ws.drop (k + 1)) (es.drop (k + 1)) ∧
      spacedLine ws es =
        before ++ spaced w e ++ spacedLine (ws.drop (k + 1)) (es.drop (k + 1)) := by
  induction h generalizing k with
  | nil => cases he
  | @cons w first ws es hfirst hrest ih =>
    cases k with
    | zero =>
      obtain rfl : first = e := Option.some.inj he
      exact ⟨w, [], rfl, hfirst, rfl, hrest, rfl⟩
    | succ k =>
      obtain ⟨w', before, hw', hle, hbefore, hlater, hline⟩ := ih he
      refine ⟨w', spaced w first ++ before, hw', hle, ?_, hlater, ?_⟩
      · rw [List.length_append, length_spaced hfirst, hbefore, offset_cons_succ]
      · rw [spacedLine, List.zipWith_cons_cons, List.flatten_cons, ← spacedLine, hline]
        simp only [List.append_assoc, List.drop_succ_cons]

/-- A column before one with other characters has its entry and the spaces after it. -/
theorem piece_line_of_not_blankAfter (h : Fits ws es) (hw : ws[k]? = some w) (he : es[k]? = some e)
    (hafter : ¬ BlankAfter es k) : piece ws k (line ws es) = spaced w e := by
  obtain ⟨w', before, hw', hle, hbefore, hlater, hline⟩ := exists_spacedLine_eq h he
  obtain rfl : w' = w := Option.some.inj (hw'.symm.trans hw)
  have hrest := mt (allBlank_spacedLine_iff hlater).mp hafter
  rw [line_eq h, hline, Text.trimEnd_append, if_neg hrest, List.append_assoc,
    piece_append hw hbefore, List.take_left' (length_spaced hle)]

/-- A column that only white space follows has its entry without the white space at its end. -/
theorem piece_line_of_blankAfter (h : Fits ws es) (he : es[k]? = some e)
    (hafter : BlankAfter es k) : piece ws k (line ws es) = Text.trimEnd e.toList := by
  obtain ⟨w, before, hw, hle, hbefore, hlater, hline⟩ := exists_spacedLine_eq h he
  have hrest := (allBlank_spacedLine_iff hlater).mpr hafter
  have htrim : Text.trimEnd (spaced w e) = Text.trimEnd e.toList := Text.trimEnd_padRight ..
  rw [line_eq h, hline, Text.trimEnd_append, if_pos hrest, Text.trimEnd_append]
  by_cases hentry : Text.AllBlank (spaced w e)
  · -- the line ends before the column
    have hshort : (Text.trimEnd before).length ≤ offset ws k :=
      hbefore ▸ (Text.trimEnd_prefix before).length_le
    rw [if_pos hentry, ← htrim, Text.trimEnd_of_allBlank hentry, piece, List.drop_eq_nil_of_le]
    exact (List.length_take_le' _ _).trans hshort
  · have hshort : (Text.trimEnd (spaced w e)).length ≤ w + 2 :=
      length_spaced hle ▸ (Text.trimEnd_prefix _).length_le
    rw [if_neg hentry, piece_append hw hbefore, List.take_of_length_le hshort, htrim]

/-! ## Widths -/

/-- The entries of a column, its label first. -/
def column (t : Table) (k : Nat) : List String :=
  (t.header :: t.rows.map entries).filterMap fun es => es[k]?

theorem getElem?_widen (ws : List Nat) (es : List String) (k : Nat) :
    (widen ws es)[k]? = ws[k]?.map fun w => (es[k]?.map String.length).toList.foldl max w := by
  induction ws generalizing es k with
  | nil => cases es <;> rfl
  | cons w ws ih =>
    cases es with
    | nil => simp [widen]
    | cons e es =>
      cases k with
      | zero => rfl
      | succ k => exact ih es k

theorem getElem?_foldl_widen (rows : List (List String)) (ws : List Nat) (k : Nat) :
    (rows.foldl widen ws)[k]? =
      ws[k]?.map fun w => ((rows.filterMap fun es => es[k]?).map String.length).foldl max w := by
  induction rows generalizing ws with
  | nil => simp
  | cons es rows ih =>
    rw [List.foldl_cons, ih, getElem?_widen, Option.map_map]
    congr 1
    funext w
    cases h : es[k]? with
    | none => simp [h]
    | some e => simp [h]

/-- There is nothing in a column beyond the labels if every row has one cell for each of them. -/
theorem column_eq_nil (hfilled : t.Filled)
    (hk : t.header.length ≤ k) : t.column k = [] := by
  refine List.filterMap_eq_nil_iff.mpr fun es hes => List.getElem?_eq_none ?_
  rcases List.mem_cons.mp hes with rfl | hrow
  · exact hk
  · obtain ⟨r, hr, rfl⟩ := List.mem_map.mp hrow
    simpa [entries, header, hfilled r hr] using hk

theorem length_widen (ws : List Nat) (es : List String) : (widen ws es).length = ws.length := by
  induction ws generalizing es with
  | nil => cases es <;> rfl
  | cons w ws ih =>
    cases es with
    | nil => rfl
    | cons e es => rw [widen, List.length_cons, ih, List.length_cons]

theorem length_widths (t : Table) : t.widths.length = t.header.length := by
  rw [widths, ← List.length_map String.length]
  generalize t.header.map String.length = ws
  induction t.rows.map entries generalizing ws with
  | nil => rfl
  | cons es rows ih => rw [List.foldl_cons, ih, length_widen]

/-- The width of a column is the greatest length of its entries. -/
theorem getElem?_widths (hfilled : t.Filled) (k : Nat) :
    t.widths[k]? = ((t.column k).map String.length).max? := by
  by_cases hk : k < t.header.length
  · have hlabel : t.header[k]? = some t.header[k] := List.getElem?_eq_getElem hk
    rw [widths, getElem?_foldl_widen, List.getElem?_map, column,
      List.filterMap_cons_some (f := fun es => es[k]?) hlabel, hlabel, List.map_cons,
      List.max?_cons']
    rfl
  · rw [column_eq_nil hfilled (Nat.le_of_not_lt hk), List.getElem?_eq_none]
    · rfl
    · exact t.length_widths.trans_le (Nat.le_of_not_lt hk)

theorem fits_widths (hfilled : t.Filled) (hes : es ∈ t.header :: t.rows.map entries)
    (hlength : es.length = t.header.length) : Fits t.widths es := by
  refine List.forall₂_iff_get.mpr ⟨(length_widths t).trans hlength.symm, fun k hk hk' => ?_⟩
  have hwidth := getElem?_widths hfilled k
  rw [List.getElem?_eq_getElem hk, eq_comm, List.max?_eq_some_iff] at hwidth
  refine hwidth.2 _ (List.mem_map_of_mem (List.mem_filterMap.mpr ⟨es, hes, ?_⟩))
  exact List.getElem?_eq_getElem hk'

theorem fits_header (hfilled : t.Filled) : Fits t.widths t.header :=
  fits_widths hfilled List.mem_cons_self rfl

theorem fits_row (hfilled : t.Filled) {r : Row} (hr : r ∈ t.rows) : Fits t.widths (entries r) :=
  fits_widths hfilled (List.mem_cons_of_mem _ (List.mem_map_of_mem hr))
    (by simp [entries, header, hfilled r hr])

theorem fits_rule (ws : List Nat) : Fits ws (rule ws) := by
  induction ws with
  | nil => exact .nil
  | cons w ws ih => exact .cons (by simp) ih

theorem eq_dash_of_mem_rule (he : e ∈ rule ws) (hc : c ∈ e.toList) : c = '-' := by
  obtain ⟨w, -, rfl⟩ := List.mem_map.mp he
  rw [String.toList_ofList] at hc
  exact List.eq_of_mem_replicate hc

/-! ## Texts -/

theorem mem_line (h : Fits ws es) (hc : c ∈ line ws es) : c = ' ' ∨ ∃ e ∈ es, c ∈ e.toList := by
  rw [line_eq h] at hc
  obtain ⟨l, hl, hcl⟩ := List.mem_flatten.mp ((Text.trimEnd_prefix _).subset hc)
  rw [← List.map_uncurry_zip_eq_zipWith] at hl
  obtain ⟨⟨w, e⟩, hmem, rfl⟩ := List.mem_map.mp hl
  rcases List.mem_append.mp hcl with hentry | hspace
  · exact .inr ⟨e, (List.of_mem_zip hmem).2, hentry⟩
  · exact .inl (List.eq_of_mem_replicate hspace)

theorem not_mem_line (h : Fits ws es) (hc : c ≠ ' ') (hes : ∀ e ∈ es, c ∉ e.toList) :
    c ∉ line ws es := fun hmem => by
  rcases mem_line h hmem with hspace | ⟨e, he, hce⟩
  · exact hc hspace
  · exact hes e he hce

theorem mem_texts_title (t : Table) : t.title ∈ t.texts := List.mem_cons_self

theorem mem_texts_header (h : e ∈ t.header) : e ∈ t.texts := by
  simp [texts, h]

theorem mem_texts_entries {r : Row} (hr : r ∈ t.rows) (h : e ∈ entries r) : e ∈ t.texts :=
  List.mem_append_right _ (List.mem_flatMap_of_mem hr h)

theorem not_mem_lines (hfilled : t.Filled) (hbreak : ∀ e ∈ t.texts, '\n' ∉ e.toList) :
    ∀ l ∈ t.lines, '\n' ∉ l := by
  rw [lines, List.forall_mem_cons, List.forall_mem_cons, List.forall_mem_cons, List.forall_mem_map]
  refine ⟨hbreak _ t.mem_texts_title, ?_, ?_, fun r hr => ?_⟩
  · exact not_mem_line (fits_header hfilled) (by decide) fun e he => hbreak e (mem_texts_header he)
  · exact not_mem_line (fits_rule _) (by decide) fun e he hc =>
      absurd (eq_dash_of_mem_rule he hc) (by decide)
  · exact not_mem_line (fits_row hfilled hr) (by decide) fun e he =>
      hbreak e (mem_texts_entries hr he)

/-- The line feeds in the text of a table are those at the ends of its lines. -/
theorem splitOn_text (hfilled : t.Filled) (hbreak : ∀ e ∈ t.texts, '\n' ∉ e.toList) :
    t.text.toList.splitOn '\n' = t.lines ++ [[]] := by
  have hlines (ls : List (List Char)) :
      (ls.flatMap fun l => l ++ ['\n']) = ['\n'].intercalate (ls ++ [[]]) := by
    induction ls with
    | nil => rfl
    | cons l ls ih =>
      rw [List.flatMap_cons, ih]
      cases ls <;> simp [List.intercalate]
  have hfree : ∀ l ∈ t.lines ++ [[]], '\n' ∉ l :=
    List.forall_mem_append.mpr ⟨not_mem_lines hfilled hbreak, by simp⟩
  rw [text, String.toList_ofList, hlines, List.splitOn_intercalate _ hfree]
  simp

/-! ## Aligned lines -/

/-- The entries stand in a line at the places of their columns, and everything else in it is a
space. -/
structure Shows (ws : List Nat) (es : List String) (l : List Char) : Prop where
  placed : ∀ k e, es[k]? = some e → (l.drop (offset ws k)).take e.length = e.toList
  spaces : ∀ i c, l[i]? = some c →
    (∀ k e, es[k]? = some e → ¬ (offset ws k ≤ i ∧ i < offset ws k + e.length)) → c = ' '

theorem eq_space_of_getElem?_spacedLine (h : Fits ws es) {i : Nat}
    (hc : (spacedLine ws es)[i]? = some c)
    (houtside : ∀ k e, es[k]? = some e → ¬ (offset ws k ≤ i ∧ i < offset ws k + e.length)) :
    c = ' ' := by
  induction h generalizing i with
  | nil => cases hc
  | @cons w e ws es hw _ ih =>
    rw [spacedLine, List.zipWith_cons_cons, List.flatten_cons, List.getElem?_append,
      length_spaced hw] at hc
    split at hc
    case isTrue hi =>
      have hentry : e.length ≤ i := by
        have := houtside 0 e rfl
        rw [offset_zero] at this
        omega
      rw [← String.length_toList] at hentry
      rw [spaced, Text.padRight, List.getElem?_append_right hentry] at hc
      exact List.eq_of_mem_replicate (List.mem_of_getElem? hc)
    case isFalse hi =>
      refine ih hc fun k e' he' hinside => houtside (k + 1) e' he' ?_
      rw [offset_cons_succ]
      omega

theorem take_drop_eq (hw : ws[k]? = some w) {n : Nat} (hn : n ≤ w) (l : List Char) :
    (l.drop (offset ws k)).take n = (piece ws k l).take n := by
  rw [piece, List.drop_take, List.take_take, offset_succ hw]
  congr 1
  omega

/-- Entries that do not end in white space stand in their line at the places of their columns. -/
theorem shows_line (h : Fits ws es) (hend : ∀ e ∈ es, Text.Trimmed e.toList) :
    Shows ws es (line ws es) where
  placed k e he := by
    obtain ⟨w, before, hw, hle, -⟩ := exists_spacedLine_eq h he
    rw [take_drop_eq hw hle]
    by_cases hafter : BlankAfter es k
    · have hentry := (hend e (List.mem_of_getElem? he)).trimEnd_eq
      rw [piece_line_of_blankAfter h he hafter, hentry, ← String.length_toList, List.take_length]
    · rw [piece_line_of_not_blankAfter h hw he hafter, spaced, Text.padRight,
        List.take_left' String.length_toList]
  spaces i c hc houtside := by
    obtain ⟨rest, hrest⟩ := Text.trimEnd_prefix (spacedLine ws es)
    refine eq_space_of_getElem?_spacedLine h ?_ houtside
    rw [← hrest, ← line_eq h, List.getElem?_append_left (List.getElem?_eq_some_iff.mp hc).1, hc]

/-- The text of a table is aligned: take a table whose rows have one cell for each column, and whose
texts have no line feeds and do not end in white space. As a text it is its title, a line of the
labels, a line of dashes and one line for each row, each with a line feed after it. The width of a
column is the greatest length of its entries. In every line the entries stand at the places of their
columns, with as many dashes in the line of dashes as the column is wide, and everything else is a
space. No line ends in white space. -/
theorem text_aligned (hfilled : t.Filled) (hbreak : ∀ e ∈ t.texts, '\n' ∉ e.toList)
    (hend : ∀ e ∈ t.texts, Text.Trimmed e.toList) :
    ∃ header rule rows,
      t.text.toList.splitOn '\n' = t.title.toList :: header :: rule :: rows ++ [[]] ∧
      (∀ k, t.widths[k]? = ((t.column k).map String.length).max?) ∧
      Shows t.widths t.header header ∧ Shows t.widths (Table.rule t.widths) rule ∧
      List.Forall₂ (fun r l => Shows t.widths (entries r) l) t.rows rows ∧
      ∀ l ∈ t.title.toList :: header :: rule :: rows, Text.Trimmed l := by
  refine ⟨line t.widths t.header, line t.widths (Table.rule t.widths),
    t.rows.map fun r => line t.widths (entries r), splitOn_text hfilled hbreak,
    getElem?_widths hfilled, ?_, ?_, ?_, ?_⟩
  · exact shows_line (fits_header hfilled) fun e he => hend e (mem_texts_header he)
  · refine shows_line (fits_rule _) fun e he c hc => ?_
    rw [eq_dash_of_mem_rule he (List.mem_of_getLast? hc)]
    decide
  · refine List.forall₂_map_right_iff.mpr (List.forall₂_same.mpr fun r hr => ?_)
    exact shows_line (fits_row hfilled hr) fun e he => hend e (mem_texts_entries hr he)
  · -- every line but the title is trimmed when it is written
    rw [List.forall_mem_cons, List.forall_mem_cons, List.forall_mem_cons, List.forall_mem_map]
    exact ⟨hend _ t.mem_texts_title, Text.trimmed_trimEnd _, Text.trimmed_trimEnd _,
      fun _ _ => Text.trimmed_trimEnd _⟩

/-- A table with letters that are not ASCII, an absent cell, an empty cell at the end of a line, and
a column without a label. -/
def diacritics : Table where
  title := "Übersicht"
  keyLabel := "name"
  columns := ["größe", "", "note"]
  rows :=
    [⟨"é", [.value (.int (-3)), .absent, .value (.text "")]⟩,
      ⟨"naïve", [.absent, .value (.ofInts [1, 20]), .value (.text "-")]⟩]

theorem text_aligned_diacritics :
    diacritics.Filled ∧ (∀ e ∈ diacritics.texts, '\n' ∉ e.toList) ∧
    (∀ e ∈ diacritics.texts, Text.Trimmed e.toList) ∧
    diacritics.widths = [5, 5, 7, 4] ∧
    ∃ header rule rows,
      diacritics.text.toList.splitOn '\n' = "Übersicht".toList :: header :: rule :: rows ++ [[]] ∧
      Shows [5, 5, 7, 4] ["name", "größe", "", "note"] header ∧
      Shows [5, 5, 7, 4] ["-----", "-----", "-------", "----"] rule ∧
      List.Forall₂ (fun r l => Shows [5, 5, 7, 4] (entries r) l) diacritics.rows rows := by
  have hfilled : diacritics.Filled := by simp [Filled, diacritics]
  have hbreak : ∀ e ∈ diacritics.texts, '\n' ∉ e.toList := by decide +kernel
  have hend : ∀ e ∈ diacritics.texts, Text.Trimmed e.toList := by decide +kernel
  have hwidths : diacritics.widths = [5, 5, 7, 4] := by decide +kernel
  have hrule : rule diacritics.widths = ["-----", "-----", "-------", "----"] := by decide +kernel
  obtain ⟨header, rule, rows, hsplit, -, hheader, hruled, hrows, -⟩ :=
    text_aligned hfilled hbreak hend
  rw [hwidths] at hheader hrows hruled
  exact ⟨hfilled, hbreak, hend, hwidths, header, rule, rows, hsplit, hheader, hruled, hrows⟩

end GraphSurvey.Table
