import StoredProgram.Text.Basic

/-! # Operations

The sixteen operations of the machine. The place of an operation in `Operation.all` is its opcode, and
so part of the binary format. -/

namespace StoredProgram

/-- What an instruction does with its operand. -/
inductive Operation where
  | halt
  | load
  | store
  | add
  | subtract
  | and
  | or
  | xor
  | not
  | shiftLeft
  | shiftRight
  | branchIfZero
  | branchIfNegative
  | branchIfPositive
  | branchIfNonzero
  | jump
  deriving DecidableEq

namespace Operation

/-- All operations in the order of their opcodes. -/
def all : List Operation :=
  [halt, load, store, add, subtract, and, or, xor, not, shiftLeft, shiftRight, branchIfZero,
    branchIfNegative, branchIfPositive, branchIfNonzero, jump]

/-- The opcode of an operation. -/
def code (op : Operation) : Nat := all.idxOf op

/-- The operation with a given opcode. -/
def ofCode? (n : Nat) : Option Operation := all[n]?

theorem ofCode?_code (op : Operation) : ofCode? op.code = some op := by cases op <;> rfl

/-- The name of an operation in assembly; `BNE` branches if the accumulator is negative. -/
def mnemonic : Operation → Text
  | halt => "HLT".toList
  | load => "LDA".toList
  | store => "STR".toList
  | add => "ADD".toList
  | subtract => "SUB".toList
  | and => "AND".toList
  | or => "ORR".toList
  | xor => "XOR".toList
  | not => "NOT".toList
  | shiftLeft => "LSL".toList
  | shiftRight => "LSR".toList
  | branchIfZero => "BZE".toList
  | branchIfNegative => "BNE".toList
  | branchIfPositive => "BPO".toList
  | branchIfNonzero => "BNZ".toList
  | jump => "JMP".toList

/-- The operation with a given name; upper and lower case differ. -/
def ofMnemonic? (t : Text) : Option Operation := all.find? (·.mnemonic == t)

theorem ofMnemonic?_mnemonic (op : Operation) : ofMnemonic? op.mnemonic = some op := by
  cases op <;> rfl

/-- The operations whose operand is the address of the next instruction. -/
def isBranch : Operation → Bool
  | branchIfZero | branchIfNegative | branchIfPositive | branchIfNonzero | jump => true
  | _ => false

end Operation
end StoredProgram
