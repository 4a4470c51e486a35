import StoredProgram.Text.Decimal
import StoredProgram.Text.Line

/-! # Files of words

A program may be kept as a file of words, written in decimal, one to a line. Blank lines are skipped. -/

namespace StoredProgram.WordsFile

/-- The words of a file, or its first line that is not a word. -/
def read (t : Text) : Except Line (List Word) :=
  t.lines.mapM fun l =>
    match Text.word? l.text with
    | some w => .ok w
    | none => .error l

/-- A file of words. -/
def write (ws : List Word) : Text := Text.unlines (ws.map fun w => Text.ofInt w.toInt)

end StoredProgram.WordsFile
