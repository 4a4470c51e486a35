import StoredProgram.Assembly.Basic
import StoredProgram.Text.Table

/-! # Listings

A listing shows a program as a table. Each word has a row with its index, its instruction and its label.
The variables follow with the addresses of their registers. -/

namespace StoredProgram.Assembly

/-- What a row of a listing shows. -/
structure Row where
  address : Int
  word : Option Word
  text : Text
  label : Option Text

/-- A row for each word. -/
def wordRows (a : Assembly) : List Row :=
  ((a.words.zip a.instructions).zipIdx).map fun ((w, i), index) =>
    ⟨index, some w, i.text, a.labels.name? index⟩

/-- A row for each variable, by address. -/
def variableRows (a : Assembly) : List Row :=
  a.vars.entries.map fun s => ⟨s.address, none, keyword ++ ' ' :: s.name, none⟩

/-- The columns of a listing. -/
def columns : List (Column Row) :=
  [⟨"Index".toList, .right, fun r => Text.ofInt r.address⟩,
    ⟨"Word".toList, .right, fun r => (r.word.map fun w => Text.ofInt w.toInt).getD []⟩,
    ⟨"Instruction".toList, .left, Row.text⟩,
    ⟨"Label".toList, .left, fun r => (r.label.map ('@' :: ·)).getD []⟩]

/-- The lines of the listing, if all names in it have a width. -/
def listing (a : Assembly) : Option (List Text) := Table.lines columns (a.wordRows ++ a.variableRows)

end StoredProgram.Assembly
