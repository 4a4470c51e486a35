import StoredProgram.Text.Basic

/-! # Labels of lines

An instruction may be labelled: `@`, a name, a colon and a gap of spaces or tabs come before it. A line
that starts with `@` has to be of this form. -/

namespace StoredProgram

/-- How a line starts: with no label, with a label, or with a sign `@` that begins none. -/
inductive Labelling where
  | plain (body : Text)
  | labelled (name body : Text)
  | malformed
  deriving DecidableEq

namespace Labelling

/-- Spaces and tabs stand between a label and its instruction. -/
def isGap (c : Char) : Bool := c == ' ' || c == '\t'

/-- The name of a label ends at a colon or a gap. -/
def inName (c : Char) : Bool := c != ':' && !isGap c

/-- Takes the label off the front of a line. -/
def ofText : Text → Labelling
  | '@' :: t =>
    match t.takeWhile inName, t.dropWhile inName with
    | name, ':' :: c :: body =>
      if !name.isEmpty && isGap c then .labelled name (body.dropWhile isGap) else .malformed
    | _, _ => .malformed
  | t => .plain t

end Labelling
end StoredProgram
