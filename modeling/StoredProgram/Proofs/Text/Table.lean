import Mathlib.Data.List.Forall2
import StoredProgram.Proofs.Text.Width
import StoredProgram.Text.Table

/-! # Lines of tables

A table has lines if all its texts have a width (`lines_eq_some_iff`). It has three lines more than rows, and the line
of each row is known by its place (`getElem?_layout_iff`). Each column is as wide as the widest of its title and cells
(`isWidest_columnWidth`). So a line is as wide as the rules, but for the signs of its cells that are measured otherwise
than by their characters (`charsWidth_row`). -/

namespace StoredProgram

/-- By how many columns the characters of some texts take more one by one than the texts do. -/
def Text.totalExcess : List Text → Int
  | [] => 0
  | t :: ts => Text.excess t + totalExcess ts

namespace Table

variable {α : Type} {columns : List (Column α)} {c : Column α} {rows : List α} {cells parts : List Text}
  {a : Alignment} {joint d : Char} {s t p : Text} {n k : Nat}

/-- The line of a table in which its columns show the given texts. -/
def row (columns : List (Column α)) (rows : List α) (cells : List Text) : Text :=
  line '│' (List.zipWith (fun c t => part c.alignment (columnWidth rows c) t) columns cells)

/-- A rule of a table. -/
def rule (joint : Char) (columns : List (Column α)) (rows : List α) : Text :=
  line joint (columns.map fun c => stroke (columnWidth rows c))

theorem layout_eq (columns : List (Column α)) (rows : List α) :
    layout columns rows = row columns rows (columns.map Column.title) :: rule '┼' columns rows ::
      (rows.map (fun r => row columns rows (columns.map (·.cell r))) ++ [rule '┴' columns rows]) := by
  simp only [layout, row, rule, List.map_map, List.zipWith_map_right, List.zipWith_self]
  rfl

theorem lines_eq_some_iff {ls : List Text} :
    lines columns rows = some ls ↔ HasWidths columns rows ∧ ls = layout columns rows := by
  rw [lines, Option.ite_none_right_eq_some, Option.some.injEq, eq_comm (a := ls)]

theorem isSome_lines_iff : (lines columns rows).isSome = true ↔ HasWidths columns rows := by
  simp [Option.isSome_iff_exists, lines_eq_some_iff]

/-- A table without escape characters has lines. -/
theorem lines_of_not_mem (titles : ∀ c ∈ columns, '\x1b' ∉ c.title)
    (shown : ∀ c ∈ columns, ∀ r ∈ rows, '\x1b' ∉ c.cell r) : lines columns rows = some (layout columns rows) :=
  lines_eq_some_iff.mpr ⟨fun c hc => ⟨Text.isSome_width?_of_not_mem (titles c hc),
    fun r hr => Text.isSome_width?_of_not_mem (shown c hc r hr)⟩, rfl⟩

/-! ### Places -/

theorem length_layout (columns : List (Column α)) (rows : List α) : (layout columns rows).length = rows.length + 3 := by
  rw [layout_eq, List.length_cons, List.length_cons, List.length_append, List.length_map, List.length_singleton]

theorem getElem?_layout_iff :
    (layout columns rows)[k]? = some t ↔
      (k = 0 ∧ t = row columns rows (columns.map Column.title)) ∨ (k = 1 ∧ t = rule '┼' columns rows) ∨
        (∃ i r, k = i + 2 ∧ rows[i]? = some r ∧ t = row columns rows (columns.map (·.cell r))) ∨
        (k = rows.length + 2 ∧ t = rule '┴' columns rows) := by
  rw [layout_eq]
  match k with
  | 0 => simp [eq_comm]
  | 1 => simp [eq_comm]
  | i + 2 =>
    rw [List.getElem?_cons_succ, List.getElem?_cons_succ]
    rcases Nat.lt_trichotomy i rows.length with h | rfl | h
    · rw [List.getElem?_append_left (by rwa [List.length_map]), List.getElem?_map, Option.map_eq_some_iff]
      simp [eq_comm, Nat.ne_of_lt h]
    · rw [List.getElem?_append_right (Nat.le_of_eq (List.length_map _)), List.length_map, Nat.sub_self]
      simp [eq_comm]
    · rw [List.getElem?_eq_none (by simp; omega)]
      simp [Nat.ne_of_gt h, List.getElem?_eq_none (Nat.le_of_lt h)]

theorem getElem?_layout_add_two (columns : List (Column α)) {r : α} (h : rows[k]? = some r) :
    (layout columns rows)[k + 2]? = some (row columns rows (columns.map (·.cell r))) :=
  getElem?_layout_iff.mpr (Or.inr (Or.inr (Or.inl ⟨k, r, rfl, h, rfl⟩)))

/-! ### Characters -/

/-- The characters that tables are drawn with. -/
def drawing : List Char := [' ', '│', '─', '┼', '┴']

theorem mem_pad (h : d ∈ pad a n t) : d = ' ' ∨ d ∈ t := by
  cases a with
  | left => exact (List.mem_append.mp h).symm.imp_left List.eq_of_mem_replicate
  | right => exact (List.mem_append.mp h).imp_left List.eq_of_mem_replicate

theorem mem_part (h : d ∈ part a n t) : d = ' ' ∨ d ∈ t := by
  simp only [part, List.cons_append, List.mem_cons, List.mem_append, List.not_mem_nil, or_false] at h
  rcases h with h | h | h
  · exact Or.inl h
  · exact mem_pad h
  · exact Or.inl h

theorem mem_intercalate (h : d ∈ [joint].intercalate parts) : d = joint ∨ ∃ p ∈ parts, d ∈ p := by
  induction parts with
  | nil => cases h
  | cons p ps ih =>
    cases ps with
    | nil =>
      rw [List.intercalate_singleton] at h
      exact Or.inr ⟨p, List.mem_cons_self, h⟩
    | cons q qs =>
      rw [List.intercalate_cons_cons, List.mem_append, List.mem_append, List.mem_singleton] at h
      rcases h with (h | h) | h
      · exact Or.inr ⟨p, List.mem_cons_self, h⟩
      · exact Or.inl h
      · exact (ih h).imp_right fun ⟨q, hq, hd⟩ => ⟨q, List.mem_cons_of_mem _ hq, hd⟩

theorem mem_line (h : d ∈ line joint parts) : d = ' ' ∨ d = joint ∨ ∃ p ∈ parts, d ∈ p := by
  simp only [line, List.cons_append, List.mem_cons, List.mem_append, List.not_mem_nil, or_false] at h
  rcases h with h | h | h
  · exact Or.inl h
  · exact Or.inr (mem_intercalate h)
  · exact Or.inl h

theorem mem_row (h : d ∈ row columns rows cells) : d = ' ' ∨ d = '│' ∨ ∃ t ∈ cells, d ∈ t := by
  rcases mem_line h with h | h | ⟨p, hp, hd⟩
  · exact Or.inl h
  · exact Or.inr (Or.inl h)
  · obtain ⟨i, hi⟩ := List.mem_iff_getElem?.mp hp
    obtain ⟨c, t, -, ht, rfl⟩ := List.getElem?_zipWith_eq_some.mp hi
    exact (mem_part hd).imp_right fun hd => Or.inr ⟨t, List.mem_of_getElem? ht, hd⟩

theorem mem_rule (h : d ∈ rule joint columns rows) : d = ' ' ∨ d = joint ∨ d = '─' := by
  rcases mem_line h with h | h | ⟨p, hp, hd⟩
  · exact Or.inl h
  · exact Or.inr (Or.inl h)
  · obtain ⟨c, -, rfl⟩ := List.mem_map.mp hp
    exact Or.inr (Or.inr (List.eq_of_mem_replicate hd))

theorem not_mem_row (drawn : d ∉ drawing) (free : ∀ t ∈ cells, d ∉ t) : d ∉ row columns rows cells := fun h => by
  rcases mem_row h with rfl | rfl | ⟨t, ht, hd⟩
  · exact drawn (by decide)
  · exact drawn (by decide)
  · exact free t ht hd

theorem not_mem_rule (drawn : d ∉ drawing) (hj : joint ∈ drawing) : d ∉ rule joint columns rows := fun h => by
  rcases mem_rule h with rfl | rfl | rfl
  · exact drawn (by decide)
  · exact drawn hj
  · exact drawn (by decide)

/-- A character that is in no title and in no cell is in no line, unless tables are drawn with it. -/
theorem not_mem_layout (drawn : d ∉ drawing) (titles : ∀ c ∈ columns, d ∉ c.title)
    (shown : ∀ c ∈ columns, ∀ r ∈ rows, d ∉ c.cell r) : ∀ l ∈ layout columns rows, d ∉ l := by
  intro l hl
  obtain ⟨k, hk⟩ := List.mem_iff_getElem?.mp hl
  rcases getElem?_layout_iff.mp hk with ⟨-, rfl⟩ | ⟨-, rfl⟩ | ⟨i, r, -, hr, rfl⟩ | ⟨-, rfl⟩
  · exact not_mem_row drawn (List.forall_mem_map.mpr titles)
  · exact not_mem_rule drawn (by decide)
  · exact not_mem_row drawn (List.forall_mem_map.mpr fun c hc => shown c hc r (List.mem_of_getElem? hr))
  · exact not_mem_rule drawn (by decide)

/-! ### Cells -/

theorem infix_part (a : Alignment) (n : Nat) (t : Text) : t <:+: part a n t := by
  cases a with
  | left => exact ⟨[' '], List.replicate (n - Text.width t) ' ' ++ [' '], by simp [part, pad]⟩
  | right => exact ⟨' ' :: List.replicate (n - Text.width t) ' ', [' '], by simp [part, pad]⟩

theorem infix_intercalate (joint : Char) (h : p ∈ parts) : p <:+: [joint].intercalate parts := by
  induction parts with
  | nil => cases h
  | cons q qs ih =>
    cases qs with
    | nil =>
      exact ⟨[], [], by rw [List.intercalate_singleton, List.mem_singleton.mp h, List.nil_append, List.append_nil]⟩
    | cons r rs =>
      rw [List.intercalate_cons_cons]
      rcases List.mem_cons.mp h with rfl | h
      · rw [List.append_assoc]
        exact (List.prefix_append _ _).isInfix
      · exact (ih h).trans (List.suffix_append _ _).isInfix

theorem infix_line (h : p ∈ parts) : p <:+: line joint parts := by
  obtain ⟨u, v, huv⟩ := infix_intercalate joint h
  exact ⟨' ' :: u, v ++ [' '], by rw [line, ← huv]; simp⟩

theorem infix_row (hc : columns[k]? = some c) (ht : cells[k]? = some t) : t <:+: row columns rows cells := by
  have here : part c.alignment (columnWidth rows c) t ∈
      List.zipWith (fun c t => part c.alignment (columnWidth rows c) t) columns cells :=
    List.mem_of_getElem? (List.getElem?_zipWith_eq_some.mpr ⟨c, t, hc, ht, rfl⟩)
  exact (infix_part ..).trans (infix_line here)

/-! ### Widths -/

/-- A width is that of the widest of the title and the cells of a column. -/
structure IsWidest (rows : List α) (c : Column α) (n : Nat) : Prop where
  title : Text.width c.title ≤ n
  cell : ∀ r ∈ rows, Text.width (c.cell r) ≤ n
  attained : n = Text.width c.title ∨ ∃ r ∈ rows, n = Text.width (c.cell r)

theorem foldl_max_width (ts : List Text) (n : Nat) :
    n ≤ ts.foldl (fun w t => max w (Text.width t)) n ∧
      (∀ t ∈ ts, Text.width t ≤ ts.foldl (fun w t => max w (Text.width t)) n) ∧
      (ts.foldl (fun w t => max w (Text.width t)) n = n ∨
        ∃ t ∈ ts, ts.foldl (fun w t => max w (Text.width t)) n = Text.width t) := by
  induction ts generalizing n with
  | nil => exact ⟨Nat.le_refl _, nofun, Or.inl rfl⟩
  | cons t ts ih =>
    obtain ⟨first, rest, attained⟩ := ih (max n (Text.width t))
    rw [List.foldl_cons]
    refine ⟨Nat.le_trans (Nat.le_max_left ..) first, List.forall_mem_cons.mpr
      ⟨Nat.le_trans (Nat.le_max_right ..) first, rest⟩, ?_⟩
    rcases attained with h | ⟨s, hs, h⟩
    · rw [h]
      exact (Nat.le_total (Text.width t) n).imp Nat.max_eq_left fun hle =>
        ⟨t, List.mem_cons_self, Nat.max_eq_right hle⟩
    · exact Or.inr ⟨s, List.mem_cons_of_mem _ hs, h⟩

theorem isWidest_columnWidth (rows : List α) (c : Column α) : IsWidest rows c (columnWidth rows c) := by
  obtain ⟨first, rest, attained⟩ := foldl_max_width (rows.map c.cell) (Text.width c.title)
  rw [columnWidth, maxWidth, List.foldl_cons, Nat.zero_max]
  refine ⟨first, List.forall_mem_map.mp rest, attained.imp_right fun ⟨t, ht, h⟩ => ?_⟩
  obtain ⟨r, hr, rfl⟩ := List.mem_map.mp ht
  exact ⟨r, hr, h⟩

theorem charWidth_drawing : ∀ d ∈ drawing, Text.charWidth d = 1 := by
  have all : drawing.all (Text.charWidth · == 1) = true := by decide +kernel
  simpa using all

theorem charsWidth_stroke (n : Nat) : Text.charsWidth (stroke n) = n + 2 := by
  rw [stroke, Text.charsWidth_replicate, charWidth_drawing '─' (by decide), Nat.mul_one]

theorem charsWidth_pad (a : Alignment) (h : Text.width t ≤ n) :
    (Text.charsWidth (pad a n t) : Int) = n + Text.excess t := by
  have fill : Text.charsWidth (List.replicate (n - Text.width t) ' ') = n - Text.width t :=
    (Text.charsWidth_replicate _ ' ').trans (Nat.mul_one _)
  unfold Text.excess
  cases a <;> rw [pad, Text.charsWidth_append, fill] <;> omega

theorem charsWidth_spaced (t : Text) : Text.charsWidth (' ' :: t ++ [' ']) = Text.charsWidth t + 2 := by
  rw [Text.charsWidth_append, Text.charsWidth, Text.charsWidth_singleton, Nat.add_comm (Text.charWidth ' ')]
  rfl

theorem charsWidth_part (a : Alignment) (h : Text.width t ≤ n) :
    (Text.charsWidth (part a n t) : Int) = n + 2 + Text.excess t := by
  have padded := charsWidth_pad a h
  rw [part, charsWidth_spaced]
  omega

theorem charsWidth_intercalate (hj : Text.charWidth joint = 1) (h : parts ≠ []) :
    Text.charsWidth ([joint].intercalate parts) + 1 = Text.charsWidth parts.flatten + parts.length := by
  induction parts with
  | nil => exact absurd rfl h
  | cons p ps ih =>
    cases ps with
    | nil => rw [List.intercalate_singleton, List.flatten_singleton, List.length_singleton]
    | cons q qs =>
      have rest := ih (List.cons_ne_nil q qs)
      rw [List.intercalate_cons_cons, Text.charsWidth_append, Text.charsWidth_append, Text.charsWidth_singleton, hj,
        List.flatten_cons, Text.charsWidth_append, List.length_cons]
      omega

theorem charsWidth_line (hj : Text.charWidth joint = 1) (h : parts ≠ []) :
    Text.charsWidth (line joint parts) = Text.charsWidth parts.flatten + parts.length + 1 := by
  have inner := charsWidth_intercalate hj h
  rw [line, charsWidth_spaced]
  omega

theorem charsWidth_rule (hj : Text.charWidth joint = 1) (h : columns ≠ []) :
    Text.charsWidth (rule joint columns rows) =
      Text.charsWidth (columns.map fun c => stroke (columnWidth rows c)).flatten + columns.length + 1 := by
  rw [rule, charsWidth_line hj (mt List.map_eq_nil_iff.mp h), List.length_map]

theorem charsWidth_parts (h : List.Forall₂ (fun c t => Text.width t ≤ columnWidth rows c) columns cells) :
    (Text.charsWidth (List.zipWith (fun c t => part c.alignment (columnWidth rows c) t) columns cells).flatten : Int) =
      Text.charsWidth (columns.map fun c => stroke (columnWidth rows c)).flatten + Text.totalExcess cells := by
  induction h with
  | nil => rfl
  | @cons c t _ _ fits _ ih =>
    have first := charsWidth_part c.alignment fits
    have under := charsWidth_stroke (columnWidth rows c)
    rw [List.zipWith_cons_cons, List.map_cons, List.flatten_cons, List.flatten_cons, Text.charsWidth_append,
      Text.charsWidth_append, Text.totalExcess]
    omega

/-- If its cells fit in the columns, a line is as wide as a rule, but for what its cells take otherwise than measured. -/
theorem charsWidth_row (hj : Text.charWidth joint = 1) (hne : columns ≠ [])
    (h : List.Forall₂ (fun c t => Text.width t ≤ columnWidth rows c) columns cells) :
    (Text.charsWidth (row columns rows cells) : Int) =
      Text.charsWidth (rule joint columns rows) + Text.totalExcess cells := by
  have parts := charsWidth_parts h
  have count : (List.zipWith (fun c t => part c.alignment (columnWidth rows c) t) columns cells).length =
      columns.length := by
    rw [List.length_zipWith, ← h.length_eq, Nat.min_self]
  have some_part : List.zipWith (fun c t => part c.alignment (columnWidth rows c) t) columns cells ≠ [] := by
    rw [← List.length_pos_iff, count]
    exact List.length_pos_iff.mpr hne
  rw [row, charsWidth_line (charWidth_drawing '│' (by decide)) some_part, charsWidth_rule hj hne, count]
  omega

theorem charsWidth_titles (hj : Text.charWidth joint = 1) (hne : columns ≠ []) (rows : List α) :
    (Text.charsWidth (row columns rows (columns.map Column.title)) : Int) =
      Text.charsWidth (rule joint columns rows) + Text.totalExcess (columns.map Column.title) := by
  refine charsWidth_row hj hne (List.forall₂_map_right_iff.mpr (List.forall₂_same.mpr fun c _ => ?_))
  exact (isWidest_columnWidth rows c).title

theorem charsWidth_cells (hj : Text.charWidth joint = 1) (hne : columns ≠ []) {r : α} (hr : r ∈ rows) :
    (Text.charsWidth (row columns rows (columns.map (·.cell r))) : Int) =
      Text.charsWidth (rule joint columns rows) + Text.totalExcess (columns.map (·.cell r)) := by
  refine charsWidth_row hj hne (List.forall₂_map_right_iff.mpr (List.forall₂_same.mpr fun c _ => ?_))
  exact (isWidest_columnWidth rows c).cell r hr

end Table
end StoredProgram
