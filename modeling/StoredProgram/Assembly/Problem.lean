import StoredProgram.Layout

/-! # What can be wrong with a source

A fault of a source is a problem on a line. A problem quotes the part of the line that it is about. -/

namespace StoredProgram

/-- Why a line of a source cannot be assembled. -/
inductive Problem where
  /-- The line does not define exactly one variable, or defines one again. -/
  | definition (line : Text)
  /-- The name of a variable reads as a number or holds punctuation. -/
  | variableName (name : Text)
  /-- The line starts with `@` but not with a label, or defines one again. -/
  | labelling (line : Text)
  /-- The line is no operation with one operand. -/
  | expressions (line : Text)
  /-- There is no operation of this name. -/
  | operation (mnemonic : Text)
  /-- The operand does not start with an addressing mode. -/
  | mode (operand : Text)
  /-- There is no label of this name. -/
  | label (name : Text)
  /-- The operand holds neither a number nor the name of a variable. -/
  | value (operand : Text)
  /-- The value of the operand does not fit a word. -/
  | encoding (error : PackError)
  deriving DecidableEq

/-- A problem with the number of its line. -/
structure SourceError where
  line : Nat
  problem : Problem
  deriving DecidableEq

namespace Problem

/-- A text between a pair of backquotes. -/
def quoted (t : Text) : Text := '\x60' :: t ++ ['\x60']

/-- The wording of a problem. -/
def message : Problem → Text
  | definition t => "invalid variable definition ".toList ++ quoted t
  | variableName n => quoted n ++ " is not a valid variable name".toList
  | labelling t => "invalid label definition ".toList ++ quoted t
  | expressions t => "invalid expressions in line ".toList ++ quoted t
  | operation m => quoted m ++ " is not an operation".toList
  | mode o => quoted o ++ " does not start with an addressing mode".toList
  | label n => "no label named ".toList ++ quoted n
  | value o => quoted o ++ " is neither a number nor a variable".toList
  | encoding e => e.message

end Problem

/-- The wording of a problem after the number of its line. -/
def SourceError.message (e : SourceError) : Text :=
  "line ".toList ++ Text.ofNat e.line ++ ": ".toList ++ e.problem.message

end StoredProgram
