import StoredProgram.Assembly.Listing
import StoredProgram.Proofs.Assembly.Tables
import StoredProgram.Proofs.Text.Table

/-! # What a listing shows

An assembled source has a listing if its names have widths, and that has a line for each word and each variable
(`ofSource_lists`). Its lines are equally wide up to the names in them: a name that is not measured by its characters,
such as a ligature, makes its line differ by just that. -/

namespace StoredProgram.Assembly

variable {a : Assembly} {ls ds names : List Text} {source name cell : Text} {index rank : Nat} {w : Word}
  {i : Instruction}

/-- What the cell for the label of an index shows. -/
inductive ShowsLabel (a : Assembly) (index : Nat) : Text → Prop
  | labelled {name : Text} (h : ⟨name, index⟩ ∈ a.labels.entries) : ShowsLabel a index ('@' :: name)
  | unlabelled (h : ∀ name, ⟨name, index⟩ ∉ a.labels.entries) : ShowsLabel a index []

/-- The rows of a listing. -/
def rows (a : Assembly) : List Row := a.wordRows ++ a.variableRows

/-- The line of a listing that shows some cells. -/
def line (a : Assembly) (cells : List Text) : Text := Table.row columns a.rows cells

/-- A rule of a listing. -/
def rule (a : Assembly) (joint : Char) : Text := Table.rule joint columns a.rows

/-- The line of a word. -/
def wordLine (a : Assembly) (index : Nat) (w : Word) (i : Instruction) (label : Text) : Text :=
  a.line [Text.ofNat index, Text.ofInt w.toInt, i.text, label]

/-- The line of a variable. -/
def variableLine (a : Assembly) (address : Nat) (name : Text) : Text :=
  a.line [Text.ofNat address, [], definitionLine name, []]

/-- The lines of a listing that is shown. -/
def layout (a : Assembly) : List Text := Table.layout columns a.rows

theorem columns_ne_nil : columns ≠ [] := List.cons_ne_nil _ _

/-! ### Rows -/

/-- The row of a word. -/
def wordRow (a : Assembly) (index : Nat) (w : Word) (i : Instruction) : Row :=
  ⟨index, some w, i.text, a.labels.name? index⟩

/-- The row of a variable. -/
def variableRow (address : Nat) (name : Text) : Row := ⟨address, none, definitionLine name, none⟩

/-- The cell for the label of a word. -/
def labelCell (a : Assembly) (index : Nat) : Text := ((a.labels.name? index).map ('@' :: ·)).getD []

theorem map_cell_wordRow (a : Assembly) (index : Nat) (w : Word) (i : Instruction) :
    (columns.map fun c => c.cell (a.wordRow index w i)) =
      [Text.ofNat index, Text.ofInt w.toInt, i.text, a.labelCell index] := rfl

theorem map_cell_variableRow (address : Nat) (name : Text) :
    (columns.map fun c => c.cell (variableRow address name)) =
      [Text.ofNat address, [], definitionLine name, []] := rfl

theorem showsLabel_labelCell (a : Assembly) (index : Nat) : ShowsLabel a index (a.labelCell index) := by
  unfold labelCell
  cases h : a.labels.name? index with
  | none => exact .unlabelled fun name hn => by simp [SymbolTable.name?_eq_some_iff.mpr hn] at h
  | some name => exact .labelled (SymbolTable.name?_eq_some_iff.mp h)

theorem labelCell_of_mem (hs : ⟨name, index⟩ ∈ a.labels.entries) : a.labelCell index = '@' :: name := by
  rw [labelCell, SymbolTable.name?_eq_some_iff.mpr hs]
  rfl

theorem showsLabel_cons_iff : ShowsLabel a index ('@' :: name) ↔ ⟨name, index⟩ ∈ a.labels.entries := by
  constructor
  · rintro ⟨h⟩
    exact h
  · exact .labelled

section

variable (h : Assembles ls ds a) (hn : List.Forall₂ Declares ds names)
include h

theorem length_wordRows : a.wordRows.length = a.words.length := by
  rw [wordRows, List.length_map, List.length_zipIdx, List.length_zip, h.words.length_eq, Nat.min_self]

theorem length_rows : a.rows.length = a.words.length + a.vars.size := by
  rw [rows, List.length_append, length_wordRows h, variableRows, List.length_map]
  rfl

theorem getElem?_rows_word (hw : a.words[index]? = some w) (hi : a.instructions[index]? = some i) :
    a.rows[index]? = some (a.wordRow index w i) := by
  have inside := (List.getElem?_eq_some_iff.mp hw).1
  have pair : (a.words.zip a.instructions)[index]? = some (w, i) := List.getElem?_zip_eq_some.mpr ⟨hw, hi⟩
  rw [rows, List.getElem?_append_left (length_wordRows h ▸ inside), wordRows, List.getElem?_map, List.getElem?_zipIdx,
    pair, Option.map_some, Option.map_some, Nat.zero_add]
  rfl

theorem exists_wordRow (inside : index < a.words.length) :
    ∃ i, a.rows[index]? = some (a.wordRow index a.words[index] i) := by
  have hw := List.getElem?_eq_getElem inside
  obtain ⟨i, hi, -⟩ := h.exists_decode hw
  exact ⟨i, getElem?_rows_word h hw hi⟩

include hn

theorem getElem?_rows_variable (hr : names[rank]? = some name) :
    a.rows[a.words.length + rank]? = some (variableRow (a.words.length + rank) name) := by
  rw [rows, List.getElem?_append_right (length_wordRows h ▸ Nat.le_add_right ..), length_wordRows h,
    Nat.add_sub_cancel_left, variableRows, h.entries_vars hn, List.map_map, List.getElem?_map, List.getElem?_zipIdx,
    hr, h.length_words]
  rfl

theorem size_vars : a.vars.size = names.length := by
  rw [SymbolTable.size, h.entries_vars hn, List.length_map, List.length_zipIdx]

/-- A row is the one of a word or the one of a variable. -/
theorem mem_rows {r : Row} (hr : r ∈ a.rows) :
    (∃ index w i, a.words[index]? = some w ∧ r = a.wordRow index w i) ∨
      ∃ rank name, names[rank]? = some name ∧ r = variableRow (a.words.length + rank) name := by
  obtain ⟨k, hk⟩ := List.mem_iff_getElem?.mp hr
  have inside := (List.getElem?_eq_some_iff.mp hk).1
  rw [length_rows h, size_vars h hn] at inside
  by_cases word : k < a.words.length
  · obtain ⟨i, row⟩ := exists_wordRow h word
    rw [row] at hk
    cases hk
    exact Or.inl ⟨k, _, i, List.getElem?_eq_getElem word, rfl⟩
  · obtain ⟨rank, rfl⟩ := Nat.exists_eq_add_of_le (Nat.le_of_not_lt word)
    have named := List.getElem?_eq_getElem (Nat.lt_of_add_lt_add_left inside)
    rw [getElem?_rows_variable h hn named] at hk
    cases hk
    exact Or.inr ⟨rank, _, named, rfl⟩

end

/-! ### Lines -/

theorem getElem?_layout_row {r : Row} (hr : a.rows[index]? = some r) :
    a.layout[index + 2]? = some (a.line (columns.map fun c => c.cell r)) := Table.getElem?_layout_add_two columns hr

/-! ### Line feeds -/

theorem not_mem_newline_label (h : Assembles (code source) ds a) {s : Symbol} (hs : s ∈ a.labels.entries) :
    '\n' ∉ s.name := by
  rw [h.labels] at hs
  obtain ⟨k, line, hk, hname, -⟩ := SymbolPass.mem_symbols_iff.mp hs
  obtain ⟨body, -, -, gap, -, rfl⟩ := labelPass_name?_eq_some_iff.mp hname
  have single := (Text.isLine_of_mem_lineTexts (List.mem_filter.mp (List.mem_of_getElem? hk)).1).single
  exact fun hn => single (by simp [hn])

theorem not_mem_newline_name (hn : List.Forall₂ Declares ds names) (hm : name ∈ names) : '\n' ∉ name := by
  obtain ⟨k, hk, rfl⟩ := List.getElem_of_mem hm
  have declares := hn.get (hn.length_eq ▸ hk) hk
  exact declares.isToken.isLine.single

theorem not_mem_newline_text (i : Instruction) : '\n' ∉ i.text := fun h =>
  absurd (Instruction.mem_text h) (by decide)

theorem not_mem_newline_ofInt (n : Int) : '\n' ∉ Text.ofInt n := fun h =>
  absurd (Text.mem_ofInt h) (by decide)

theorem ShowsLabel.not_mem_newline (h : Assembles (code source) ds a) (hc : ShowsLabel a index cell) : '\n' ∉ cell := by
  cases hc with
  | labelled hs => exact List.not_mem_cons_of_ne_of_not_mem (by decide) (not_mem_newline_label h hs)
  | unlabelled => exact List.not_mem_nil

theorem not_mem_newline_definitionLine (hn : '\n' ∉ name) : '\n' ∉ definitionLine name := by
  rw [definitionLine, List.mem_append, List.mem_cons, not_or, not_or]
  exact ⟨by decide, by decide, hn⟩

theorem not_mem_newline_layout (h : Assembles (code source) ds a) (hn : List.Forall₂ Declares ds names) :
    ∀ l ∈ a.layout, '\n' ∉ l := by
  refine Table.not_mem_layout (by decide) (by decide) fun c hc r hr => ?_
  suffices cells : ∀ t ∈ columns.map fun c => c.cell r, '\n' ∉ t from cells _ (List.mem_map_of_mem hc)
  rcases mem_rows h hn hr with ⟨index, w, i, -, rfl⟩ | ⟨rank, name, hname, rfl⟩
  · rw [map_cell_wordRow]
    simp only [List.forall_mem_cons]
    exact ⟨not_mem_newline_ofInt index, not_mem_newline_ofInt _, not_mem_newline_text i,
      (a.showsLabel_labelCell index).not_mem_newline h, nofun⟩
  · rw [map_cell_variableRow]
    simp only [List.forall_mem_cons]
    have name := not_mem_newline_name hn (List.mem_of_getElem? hname)
    exact ⟨not_mem_newline_ofInt (a.words.length + rank : Nat), List.not_mem_nil,
      not_mem_newline_definitionLine name, List.not_mem_nil, nofun⟩

/-! ### Widths -/

theorem isPlain_text (i : Instruction) : Text.IsPlain i.text := fun c hc => by
  rcases Instruction.mem_text hc with h | h | rfl | rfl | rfl
  · exact Text.printable_of_isUpper h
  · exact Text.printable_of_isDigit h
  all_goals decide

theorem excess_ofNat (n : Nat) : Text.excess (Text.ofNat n) = 0 := (Text.isPlain_ofInt n).excess_eq

theorem charsWidth_rule (a : Assembly) : Text.charsWidth (a.rule '┴') = Text.charsWidth (a.rule '┼') := by
  rw [rule, rule, Table.charsWidth_rule (Table.charWidth_drawing '┴' (by decide)) columns_ne_nil,
    Table.charsWidth_rule (Table.charWidth_drawing '┼' (by decide)) columns_ne_nil]

theorem charsWidth_titles (a : Assembly) :
    Text.charsWidth (a.line (columns.map Column.title)) = Text.charsWidth (a.rule '┼') := by
  have same := Table.charsWidth_titles (Table.charWidth_drawing '┼' (by decide)) columns_ne_nil a.rows
  have plain : Text.totalExcess (columns.map Column.title) = 0 := by decide +kernel
  rw [plain, Int.add_zero] at same
  exact Int.ofNat.inj same

theorem charsWidth_row {r : Row} (hr : r ∈ a.rows) :
    (Text.charsWidth (a.line (columns.map fun c => c.cell r)) : Int) =
      Text.charsWidth (a.rule '┼') + Text.totalExcess (columns.map fun c => c.cell r) :=
  Table.charsWidth_cells (Table.charWidth_drawing '┼' (by decide)) columns_ne_nil hr

theorem totalExcess_wordRow (a : Assembly) (index : Nat) (w : Word) (i : Instruction) :
    Text.totalExcess (columns.map fun c => c.cell (a.wordRow index w i)) = Text.excess (a.labelCell index) := by
  rw [map_cell_wordRow]
  simp only [Text.totalExcess, excess_ofNat, (Text.isPlain_ofInt _).excess_eq, (isPlain_text i).excess_eq, Int.zero_add,
    Int.add_zero]

theorem totalExcess_variableRow (address : Nat) (name : Text) :
    Text.totalExcess (columns.map fun c => c.cell (variableRow address name)) = Text.excess (definitionLine name) := by
  have blank : Text.excess [] = 0 := rfl
  rw [map_cell_variableRow]
  simp only [Text.totalExcess, excess_ofNat, blank, Int.zero_add, Int.add_zero]

/-! ### Labels -/

theorem exists_index_of_label (h : Assembles ls ds a) {v : Int} (hs : ⟨name, v⟩ ∈ a.labels.entries) :
    ∃ index : Nat, index < a.words.length ∧ v = index := by
  obtain ⟨k, line, hk, -, hv⟩ := SymbolPass.mem_symbols_iff.mp (h.labels ▸ hs)
  exact ⟨k, h.length_words ▸ (List.getElem?_eq_some_iff.mp hk).1, Nat.zero_add k ▸ hv⟩

/-- Each label is shown at one index. -/
theorem existsUnique_showsLabel (h : Assembles ls ds a) {v : Int} (hs : ⟨name, v⟩ ∈ a.labels.entries) :
    ∃! index : Nat, index < a.words.length ∧ ShowsLabel a index ('@' :: name) := by
  obtain ⟨index, inside, rfl⟩ := exists_index_of_label h hs
  refine ⟨index, ⟨inside, showsLabel_cons_iff.mpr hs⟩, fun k ⟨_, hk⟩ => ?_⟩
  have same := SymbolTable.eq_of_name_eq (showsLabel_cons_iff.mp hk) hs rfl
  exact Int.ofNat.inj (congrArg Symbol.address same)

/-! ### Alignment -/

/-- The names of a listing take the columns that their characters take one by one. -/
structure Measured (a : Assembly) (names : List Text) : Prop where
  label : ∀ s ∈ a.labels.entries, Text.width ('@' :: s.name) = Text.charsWidth ('@' :: s.name)
  name : ∀ name ∈ names, Text.width (definitionLine name) = Text.charsWidth (definitionLine name)

theorem Measured.excess_labelCell (hm : Measured a names) (hc : ShowsLabel a index cell) : Text.excess cell = 0 := by
  cases hc with
  | labelled hs => exact Text.excess_eq_zero_iff.mpr (hm.label _ hs)
  | unlabelled => rfl

section

variable (h : Assembles ls ds a) (hn : List.Forall₂ Declares ds names)
include h hn

theorem charsWidth_line_of_measured (hm : Measured a names) :
    ∀ l ∈ a.layout, Text.charsWidth l = Text.charsWidth (a.rule '┼') := by
  intro l hl
  obtain ⟨k, hk⟩ := List.mem_iff_getElem?.mp hl
  rcases Table.getElem?_layout_iff.mp hk with ⟨-, rfl⟩ | ⟨-, rfl⟩ | ⟨j, r, -, hr, rfl⟩ | ⟨-, rfl⟩
  · exact a.charsWidth_titles
  · rfl
  · have hr := List.mem_of_getElem? hr
    have width := charsWidth_row hr
    suffices none : Text.totalExcess (columns.map fun c => c.cell r) = 0 by
      rw [none, Int.add_zero] at width
      exact Int.ofNat.inj width
    rcases mem_rows h hn hr with ⟨index, w, i, -, rfl⟩ | ⟨rank, name, hname, rfl⟩
    · rw [totalExcess_wordRow]
      exact hm.excess_labelCell (a.showsLabel_labelCell index)
    · rw [totalExcess_variableRow]
      exact Text.excess_eq_zero_iff.mpr (hm.name name (List.mem_of_getElem? hname))
  · exact a.charsWidth_rule

theorem aligned_iff :
    (∀ l ∈ a.layout, ∀ l' ∈ a.layout, Text.charsWidth l = Text.charsWidth l') ↔ Measured a names := by
  refine ⟨fun same => ?_, fun hm l hl l' hl' => ?_⟩
  · have rule : a.rule '┼' ∈ a.layout := List.mem_cons_of_mem _ List.mem_cons_self
    -- The line of a row exceeds the rules by the excess of its cells, which is that of the name.
    have level : ∀ (k : Nat) (r : Row), a.rows[k]? = some r → Text.totalExcess (columns.map fun c => c.cell r) = 0 := by
      intro k r hr
      have width := charsWidth_row (List.mem_of_getElem? hr)
      rw [same _ (List.mem_of_getElem? (getElem?_layout_row hr)) _ rule] at width
      omega
    refine ⟨fun ⟨name, v⟩ hs => ?_, fun name hm => ?_⟩
    · obtain ⟨index, inside, rfl⟩ := exists_index_of_label h hs
      obtain ⟨i, row⟩ := exists_wordRow h inside
      rw [← Text.excess_eq_zero_iff, ← labelCell_of_mem hs, ← totalExcess_wordRow]
      exact level index _ row
    · obtain ⟨rank, hrank⟩ := List.mem_iff_getElem?.mp hm
      rw [← Text.excess_eq_zero_iff, ← totalExcess_variableRow]
      exact level _ _ (getElem?_rows_variable h hn hrank)
  · have measured := charsWidth_line_of_measured h hn hm
    exact (measured l hl).trans (measured l' hl').symm

end

/-! ### Names without a width -/

/-- The names of a listing have widths: their colour sequences hide no more columns than their signs take. -/
structure HasWidths (a : Assembly) (names : List Text) : Prop where
  label : ∀ s ∈ a.labels.entries, (Text.width? ('@' :: s.name)).isSome = true
  name : ∀ name ∈ names, (Text.width? (definitionLine name)).isSome = true

theorem HasWidths.isSome_labelCell (hw : HasWidths a names) (hc : ShowsLabel a index cell) :
    (Text.width? cell).isSome = true := by
  cases hc with
  | labelled hs => exact hw.label _ hs
  | unlabelled => rfl

section

variable (h : Assembles ls ds a) (hn : List.Forall₂ Declares ds names)
include h hn

theorem hasWidths_columns (hw : HasWidths a names) : Table.HasWidths columns a.rows := by
  have titles : ∀ c ∈ columns, (Text.width? c.title).isSome = true := by decide +kernel
  suffices cells : ∀ r ∈ a.rows, ∀ t ∈ columns.map fun c => c.cell r, (Text.width? t).isSome = true from
    fun c hc => ⟨titles c hc, fun r hr => cells r hr _ (List.mem_map_of_mem hc)⟩
  intro r hr
  rcases mem_rows h hn hr with ⟨index, w, i, -, rfl⟩ | ⟨rank, name, hname, rfl⟩
  · rw [map_cell_wordRow]
    simp only [List.forall_mem_cons]
    exact ⟨(Text.isPlain_ofInt index).isSome_width?, (Text.isPlain_ofInt _).isSome_width?,
      (isPlain_text i).isSome_width?, hw.isSome_labelCell (a.showsLabel_labelCell index), nofun⟩
  · rw [map_cell_variableRow]
    simp only [List.forall_mem_cons]
    exact ⟨(Text.isPlain_ofInt (a.words.length + rank : Nat)).isSome_width?, rfl,
      hw.name name (List.mem_of_getElem? hname), rfl, nofun⟩

theorem isSome_listing_iff : a.listing.isSome = true ↔ HasWidths a names := by
  rw [listing, ← rows, Table.isSome_lines_iff]
  refine ⟨fun hw => ?_, hasWidths_columns h hn⟩
  have cell : ∀ (k : Nat) (r : Row), a.rows[k]? = some r → ∀ t ∈ columns.map fun c => c.cell r,
      (Text.width? t).isSome = true := by
    intro k r hr t ht
    obtain ⟨c, hc, rfl⟩ := List.mem_map.mp ht
    exact (hw c hc).2 r (List.mem_of_getElem? hr)
  refine ⟨fun ⟨name, v⟩ hs => ?_, fun name hm => ?_⟩
  · obtain ⟨index, inside, rfl⟩ := exists_index_of_label h hs
    obtain ⟨i, row⟩ := exists_wordRow h inside
    exact cell index _ row _ (labelCell_of_mem hs ▸ by simp [map_cell_wordRow])
  · obtain ⟨rank, hrank⟩ := List.mem_iff_getElem?.mp hm
    exact cell _ _ (getElem?_rows_variable h hn hrank) _ (by simp [map_cell_variableRow])

end

/-! ### Listings -/

/-- The lines of a listing show the words of an assembly and its variables, which have the given names. -/
structure Lists (a : Assembly) (names ls : List Text) : Prop where
  length_names : names.length = a.vars.size
  length_lines : ls.length = a.words.length + a.vars.size + 3
  unbroken : ∀ l ∈ ls, '\n' ∉ l
  titles : ls[0]? = some (a.line ["Index".toList, "Word".toList, "Instruction".toList, "Label".toList])
  upper : ls[1]? = some (a.rule '┼')
  word : ∀ (index : Nat) (w : Word), a.words[index]? = some w → ∃ i label, Instruction.decode w = .ok i ∧
    ShowsLabel a index label ∧ ls[index + 2]? = some (a.wordLine index w i label) ∧
    (Text.charsWidth (a.wordLine index w i label) : Int) = Text.charsWidth (a.rule '┼') + Text.excess label
  declared : ∀ (rank : Nat) (name : Text), names[rank]? = some name →
    ls[a.words.length + rank + 2]? = some (a.variableLine (a.words.length + rank) name) ∧
    (Text.charsWidth (a.variableLine (a.words.length + rank) name) : Int) =
      Text.charsWidth (a.rule '┼') + Text.excess (definitionLine name)
  lower : ls[a.words.length + a.vars.size + 2]? = some (a.rule '┴')
  label_once : ∀ s ∈ a.labels.entries, ∃! index : Nat, index < a.words.length ∧ ShowsLabel a index ('@' :: s.name)
  widest : ∀ c ∈ columns, Table.IsWidest a.rows c (Table.columnWidth a.rows c)
  /-- The lines are equally wide just if the names are measured by their characters. -/
  aligned_iff : (∀ l ∈ ls, ∀ l' ∈ ls, Text.charsWidth l = Text.charsWidth l') ↔ Measured a names

theorem word_listed (h : Assembles ls ds a) (hw : a.words[index]? = some w) :
    ∃ i label, Instruction.decode w = .ok i ∧ ShowsLabel a index label ∧
      a.layout[index + 2]? = some (a.wordLine index w i label) ∧
      (Text.charsWidth (a.wordLine index w i label) : Int) = Text.charsWidth (a.rule '┼') + Text.excess label := by
  obtain ⟨i, hi, hd, -⟩ := h.exists_decode hw
  have row := getElem?_rows_word h hw hi
  have line := getElem?_layout_row row
  have width := charsWidth_row (List.mem_of_getElem? row)
  rw [totalExcess_wordRow] at width
  rw [map_cell_wordRow] at line width
  exact ⟨i, _, hd, a.showsLabel_labelCell index, line, width⟩

theorem variable_listed (h : Assembles ls ds a) (hn : List.Forall₂ Declares ds names) (hr : names[rank]? = some name) :
    a.layout[a.words.length + rank + 2]? = some (a.variableLine (a.words.length + rank) name) ∧
      (Text.charsWidth (a.variableLine (a.words.length + rank) name) : Int) =
        Text.charsWidth (a.rule '┼') + Text.excess (definitionLine name) := by
  have row := getElem?_rows_variable h hn hr
  have line := getElem?_layout_row row
  have width := charsWidth_row (List.mem_of_getElem? row)
  rw [totalExcess_variableRow] at width
  rw [map_cell_variableRow] at line width
  exact ⟨line, width⟩

theorem lists_layout (h : Assembles (code source) ds a) (hn : List.Forall₂ Declares ds names) :
    Lists a names a.layout where
  length_names := (size_vars h hn).symm
  length_lines := by rw [layout, Table.length_layout, length_rows h]
  unbroken := not_mem_newline_layout h hn
  titles := rfl
  upper := rfl
  word _ _ := word_listed h
  declared _ _ := variable_listed h hn
  lower := by
    rw [layout, Table.getElem?_layout_iff, length_rows h]
    exact Or.inr (Or.inr (Or.inr ⟨rfl, rfl⟩))
  label_once _ := existsUnique_showsLabel h
  widest c _ := Table.isWidest_columnWidth a.rows c
  aligned_iff := aligned_iff h hn

/-- A source that is assembled has a listing just if its names have widths. The listing is complete, and it is aligned
    up to the measures of the names. -/
theorem ofSource_lists (h : ofSource source = .ok a) :
    ∃ names, List.Forall₂ Declares (declarations source) names ∧
      (a.listing.isSome = true ↔ HasWidths a names) ∧ ∀ ls, a.listing = some ls → Lists a names ls := by
  have h := ofSource_eq_ok_iff.mp h
  obtain ⟨names, hn, -⟩ := h.exists_names
  refine ⟨names, hn, isSome_listing_iff h hn, fun ls hls => ?_⟩
  obtain ⟨-, rfl⟩ := Table.lines_eq_some_iff.mp hls
  exact lists_layout h hn

/-- Lines with a character of two columns are aligned with the others. -/
theorem ofSource_lists_wide_name :
    ∃ a ls, ofSource "@go: LDA R\u6f22\n$define \u6f22".toList = .ok a ∧ a.listing = some ls ∧ ls.length = 5 ∧
      ls[3]? = some (a.variableLine 1 "\u6f22".toList) ∧
      ∀ l ∈ ls, ∀ l' ∈ ls, Text.charsWidth l = Text.charsWidth l' := by
  have h : ofSource "@go: LDA R\u6f22\n$define \u6f22".toList =
      .ok ⟨[⟨.load, .direct, 1⟩], [327681], ⟨[⟨"go".toList, 0⟩], by simp, by simp⟩,
        ⟨[⟨"\u6f22".toList, 1⟩], by simp, by simp⟩⟩ := by rfl
  obtain ⟨names, hn, shown, lists⟩ := ofSource_lists h
  have definitions : declarations "@go: LDA R\u6f22\n$define \u6f22".toList = ["$define \u6f22".toList] := by
    decide +kernel
  rw [definitions] at hn
  obtain ⟨name, _, ⟨hw, -⟩, hnil, rfl⟩ := List.forall₂_cons_left_iff.mp hn
  cases hnil
  obtain rfl : "\u6f22".toList = name := (List.cons.inj (List.cons.inj hw).2).1
  obtain ⟨ls, hls⟩ := Option.isSome_iff_exists.mp (shown.mpr
    ⟨List.forall_mem_singleton.mpr (by decide +kernel), List.forall_mem_singleton.mpr (by decide +kernel)⟩)
  have lists := lists ls hls
  refine ⟨_, ls, h, hls, lists.length_lines, (lists.declared 0 _ rfl).1, lists.aligned_iff.mpr ⟨?_, ?_⟩⟩
  · exact List.forall_mem_singleton.mpr (by decide +kernel)
  · exact List.forall_mem_singleton.mpr (by decide +kernel)

/-- A label whose two letters are drawn as one sign is padded to the width of the sign, so that the characters of its
    line take one column more than those of the rules. With a colour sequence that hides more letters than there are
    signs, the label has no width, and there is no listing. -/
theorem listing_uneven_ligature :
    (∃ a ls, ofSource "@\u0644\u0627: HLT".toList = .ok a ∧ a.listing = some ls ∧
      ∃ l ∈ ls, ∃ l' ∈ ls, Text.charsWidth l ≠ Text.charsWidth l') ∧
    ∃ a, ofSource "@\x1b[\u0644\u0627\u0644\u0627\u0644\u0627\u0644\u0627m: HLT".toList = .ok a ∧
      a.listing = none := by
  have uneven : ∃ ls, listing ⟨[.halt], [0], ⟨[⟨"\u0644\u0627".toList, 0⟩], by simp, by simp⟩, .empty⟩ = some ls ∧
      ∃ l ∈ ls, ∃ l' ∈ ls, Text.charsWidth l ≠ Text.charsWidth l' :=
    ⟨_, Table.lines_eq_some_iff.mpr ⟨by decide +kernel, rfl⟩, by decide +kernel⟩
  obtain ⟨ls, shown, uneven⟩ := uneven
  refine ⟨⟨_, ls, by rfl, shown, uneven⟩, ⟨[.halt], [0], ⟨[⟨_, 0⟩], by simp, by simp⟩, .empty⟩, by rfl, by decide +kernel⟩

end StoredProgram.Assembly
