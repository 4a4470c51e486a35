import StoredProgram.Mode
import StoredProgram.SymbolTable
import StoredProgram.Text.Decimal

/-! # Operands

An operand is a reference to a label, or a mode followed by a number or the name of a variable. Its value
is found in the symbol tables: a label stands for the index of its instruction, a variable for the
address of its register. -/

namespace StoredProgram

/-- The operand of an instruction as it is written. -/
inductive Operand where
  | target (label : Text)
  | value (mode : Mode) (text : Text)
  deriving DecidableEq

namespace Operand

/-- Reads an operand; it starts with `@` or with a mode. -/
def ofText? : Text → Option Operand
  | '@' :: label => some (.target label)
  | t => (Mode.split? t).map fun (mode, rest) => .value mode rest

/-- The number that digits denote, if a word holds it. -/
def literal? (t : Text) : Option Int :=
  ((Text.natural? t).bind fun n => Word.ofInt? n).map Int64.toInt

/-- The mode and value of an operand. A reference to a label is immediate, and a number is read as such
    before a variable is looked up. -/
def resolve? (labels vars : SymbolTable) : Operand → Option (Mode × Int)
  | .target label => (labels.address? label).map fun index => (.immediate, index)
  | .value mode t => ((literal? t).or (vars.address? t)).map fun value => (mode, value)

end Operand
end StoredProgram
