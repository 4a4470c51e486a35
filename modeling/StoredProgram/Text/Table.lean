import StoredProgram.Text.Width

/-! # Tables

A table shows a list of rows. A column says what it shows of a row, under which title and on which side.
It is as wide as the widest of its cells and its title, and each of them is filled up to that width. A rule
stands under the titles and another one under the last row. A table with a text that has no width has no lines. -/

namespace StoredProgram

/-- On which side of its column a cell stands. -/
inductive Alignment where
  | left
  | right
  deriving DecidableEq

/-- A column of a table with rows in `α`. -/
structure Column (α : Type) where
  title : Text
  alignment : Alignment
  cell : α → Text

namespace Table

/-- Fills a text up to a width, on the side that its alignment leaves free. -/
def pad (a : Alignment) (width : Nat) (t : Text) : Text :=
  let fill := List.replicate (width - Text.width t) ' '
  match a with
  | .left => t ++ fill
  | .right => fill ++ t

/-- A line joins its parts and has a space at either end. -/
def line (joint : Char) (parts : List Text) : Text := ' ' :: [joint].intercalate parts ++ [' ']

/-- The part of a line that belongs to a cell: its padded text between two spaces. -/
def part (a : Alignment) (width : Nat) (t : Text) : Text := ' ' :: pad a width t ++ [' ']

/-- The part of a rule that belongs to a column. -/
def stroke (width : Nat) : Text := List.replicate (width + 2) '─'

/-- The width of the widest text of a list. -/
def maxWidth (ts : List Text) : Nat := ts.foldl (fun w t => max w (Text.width t)) 0

/-- The width of a column that shows the given rows. -/
def columnWidth {α : Type} (rows : List α) (c : Column α) : Nat := maxWidth (c.title :: rows.map c.cell)

/-- The titles, a rule, the rows and another rule, filled up by the widths of the texts. -/
def layout {α : Type} (columns : List (Column α)) (rows : List α) : List Text :=
  let sized := columns.map fun c => (c, columnWidth rows c)
  let titles := line '│' (sized.map fun (c, w) => part c.alignment w c.title)
  let row r := line '│' (sized.map fun (c, w) => part c.alignment w (c.cell r))
  let rule joint := line joint (sized.map fun (_, w) => stroke w)
  titles :: rule '┼' :: rows.map row ++ [rule '┴']

/-- All titles and cells of a table have a width. -/
def HasWidths {α : Type} (columns : List (Column α)) (rows : List α) : Prop :=
  ∀ c ∈ columns, (Text.width? c.title).isSome = true ∧ ∀ r ∈ rows, (Text.width? (c.cell r)).isSome = true

instance {α : Type} (columns : List (Column α)) (rows : List α) : Decidable (HasWidths columns rows) :=
  inferInstanceAs (Decidable (∀ c ∈ columns, _))

/-- The lines of a table, if all its texts have a width. -/
def lines {α : Type} (columns : List (Column α)) (rows : List α) : Option (List Text) :=
  if HasWidths columns rows then some (layout columns rows) else none

end Table
end StoredProgram
