import StoredProgram.Machine.Basic
import StoredProgram.Text.Table

/-! # Dumps

A dump shows the state of a machine: a line with the program counter and the accumulator, and a table of
registers. It leaves out the registers at the end that are zero, lie behind the program, and are not at
or before the program counter. -/

namespace StoredProgram.Machine

/-- The number of registers up to the last one that is not zero. -/
def usedLength (m : Machine) : Nat := (m.registers.toList.reverse.dropWhile (· == 0)).length

/-- The number of registers that a dump shows. -/
def shownLength (m : Machine) : Nat :=
  min m.size (max m.programLength (max m.usedLength (m.pc + 1).toNat))

/-- The instruction in a register of the program, or a question mark if it holds none. -/
def note (m : Machine) (index : Nat) (w : Word) : Text :=
  if index < m.programLength then
    match Instruction.decode w with
    | .ok i => i.text
    | .error _ => "?".toList
  else []

/-- The columns of the table of registers; an arrow points at the one of the program counter. -/
def registerColumns (m : Machine) : List (Column (Nat × Word)) :=
  [⟨"Address".toList, .right, fun (index, _) =>
      (if m.pc = index then "* --> ".toList else []) ++ "R[".toList ++ Text.ofNat index ++ "] =".toList⟩,
    ⟨"Contents".toList, .left, fun (_, w) => Text.ofInt w.toInt⟩,
    ⟨"Instruction".toList, .left, fun (index, w) => m.note index w⟩]

/-- The lines of the table of registers. -/
def registerLines (m : Machine) : Option (List Text) :=
  Table.lines m.registerColumns
    (((m.registers.toList.take m.shownLength).zipIdx).map fun (w, index) => (index, w))

/-- The first line of a dump. -/
def status (m : Machine) : Text :=
  "PC: ".toList ++ Text.ofInt m.pc ++ "\tACC: ".toList ++ Text.ofInt m.acc.toInt ++ '\t' ::
    (if m.completed then "Halted." else "Running.").toList

/-- The lines of a dump: the status, and the table of registers framed by a table with one column. -/
def dump (m : Machine) : Option (List Text) := do
  let table ← m.registerLines
  let framed ← Table.lines [⟨"Registers".toList, .left, id⟩] table
  return m.status :: framed

end StoredProgram.Machine
