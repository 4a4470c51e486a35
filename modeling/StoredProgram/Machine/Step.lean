import StoredProgram.Machine.Basic
import StoredProgram.Operation.Effect

/-! # Steps

A step fetches the word at the program counter, decodes it and finds its operand, and only then changes
the machine. So a step that meets a fault leaves everything as it was, except that the program counter
has gone on to the next register once a word was fetched. -/

namespace StoredProgram.Machine

/-- The operand that a mode makes of a value. -/
def operand (m : Machine) (mode : Mode) (value : Int) : Except Fault Int :=
  match mode with
  | .immediate => .ok value
  | .direct => (m.read value).map Int64.toInt
  | .indirect => do
    let pointer ← m.read value
    (m.read pointer.toInt).map Int64.toInt

/-- The effect of a word fetched from the program counter. A store must be to a register. -/
def effect (m : Machine) (w : Word) : Except Fault Effect :=
  match Instruction.decode w with
  | .error e => .error (.undecodable m.pc e)
  | .ok i => do
    let v ← m.operand i.mode i.value
    match i.operation.effect m.acc v with
    | .store address => (m.read address).map fun _ => .store address
    | e => .ok e

/-- Counts a step, goes on to the next register, and lets an effect take place. A branch overrides where
    the program counter has gone. -/
def apply (m : Machine) (e : Effect) : Machine :=
  let m := { m with pc := m.pc + 1, steps := m.steps + 1 }
  match e with
  | .halt => { m with completed := true }
  | .accumulate w => { m with acc := w }
  | .store address => m.write address m.acc
  | .branch address => { m with pc := address }
  | .idle => m

/-- Executes the instruction at the program counter; nothing happens once the machine has completed. -/
def step (m : Machine) : Outcome :=
  if m.completed then { machine := m }
  else
    match m.register? m.pc with
    | none => { machine := m, fault := some (.counterOutside m.pc m.size) }
    | some w =>
      match m.effect w with
      | .error f => { machine := { m with pc := m.pc + 1 }, fault := some f }
      | .ok e => { machine := m.apply e }

end StoredProgram.Machine
