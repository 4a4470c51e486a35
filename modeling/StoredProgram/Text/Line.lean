import StoredProgram.Text.Basic

/-! # Numbered lines

A file is read line by line. What surrounds the text of a line does not count: neither white space, nor
the carriage return before a line feed, nor a line without text. The numbers still count every line, so
that a fault can name the place where it stands. -/

namespace StoredProgram

/-- A line that holds text: its number, from one, and its text without surrounding white space. -/
structure Line where
  number : Nat
  text : Text
  deriving DecidableEq

/-- The lines of a text that are not blank, in order. -/
def Text.lines (t : Text) : List Line :=
  (((t.splitOn '\n').map trim).zipIdx 1).filterMap fun (text, number) =>
    if text.isEmpty then none else some ⟨number, text⟩

end StoredProgram
