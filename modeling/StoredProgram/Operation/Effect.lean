import StoredProgram.Operation.Basic
import StoredProgram.Word

/-! # Effects

What an operation does depends on the accumulator and on the operand alone. An effect says what it does:
it replaces the accumulator, stores it, moves the program counter, stops the machine, or does nothing. -/

namespace StoredProgram

/-- What executing an instruction does to the machine, apart from going on to the next one. -/
inductive Effect where
  | halt
  | accumulate (w : Word)
  | store (address : Int)
  | branch (address : Int)
  | idle
  deriving DecidableEq

namespace Operation

/-- The effect of an operation on an operand, given the accumulator. A store and a branch take the
    operand as an address; the negation ignores it. -/
def effect (acc : Word) (v : Int) : Operation → Effect
  | halt => .halt
  | load => .accumulate (Int64.ofInt v)
  | store => .store v
  | add => .accumulate (acc + Int64.ofInt v)
  | subtract => .accumulate (acc - Int64.ofInt v)
  | and => .accumulate (acc &&& Int64.ofInt v)
  | or => .accumulate (acc ||| Int64.ofInt v)
  | xor => .accumulate (acc ^^^ Int64.ofInt v)
  | not => .accumulate (~~~acc)
  | shiftLeft => .accumulate (Word.shift acc v)
  | shiftRight => .accumulate (Word.shift acc (-v))
  | branchIfZero => if acc = 0 then .branch v else .idle
  | branchIfNegative => if acc < 0 then .branch v else .idle
  | branchIfPositive => if 0 < acc then .branch v else .idle
  | branchIfNonzero => if acc ≠ 0 then .branch v else .idle
  | jump => .branch v

end Operation
end StoredProgram
