import StoredProgram.Layout
import StoredProgram.Mode
import StoredProgram.Operation.Basic

/-! # Instructions

An instruction is an operation with a mode and a value. It is encoded as a word of the standard layout,
and a word is decoded if its fields name an operation and a mode. -/

namespace StoredProgram

/-- An operation, and the value and mode that give its operand. -/
structure Instruction where
  operation : Operation
  mode : Mode
  value : Int
  deriving DecidableEq

/-- A word is no instruction: it is negative, or no operation or no mode has the code it holds. -/
inductive DecodeError where
  | negative (word : Word)
  | unknownOpcode (word : Word) (opcode : Int)
  | unknownMode (word : Word) (mode : Int)
  deriving DecidableEq

/-- The wording of a word that is no instruction. -/
def DecodeError.message : DecodeError → Text
  | negative w => "negative word ".toList ++ Text.ofInt w.toInt ++ " is not an instruction".toList
  | unknownOpcode w c =>
    "word ".toList ++ Text.ofInt w.toInt ++ " has no operation with opcode ".toList ++ Text.ofInt c
  | unknownMode w c =>
    "word ".toList ++ Text.ofInt w.toInt ++ " has no addressing mode with code ".toList ++ Text.ofInt c

namespace Instruction

/-- The instruction that stops the machine. -/
def halt : Instruction := ⟨.halt, .immediate, 0⟩

/-! ### Words -/

/-- The word of an instruction, if its value fits the value field. -/
def encode (i : Instruction) : Except PackError Word :=
  (Layout.standard.pack ⟨i.operation.code, i.mode.code, i.value⟩).map Int64.ofInt

/-- The instruction of a word; an unknown opcode is reported before an unknown mode. -/
def decode (w : Word) : Except DecodeError Instruction :=
  if w < 0 then .error (.negative w)
  else
    let f := Layout.standard.unpack w.toInt
    match Operation.ofCode? f.opcode.toNat with
    | none => .error (.unknownOpcode w f.opcode)
    | some operation =>
      match Mode.ofCode? f.mode.toNat with
      | none => .error (.unknownMode w f.mode)
      | some mode => .ok ⟨operation, mode, f.value⟩

/-- The instructions of a list of words, or the error of the first word that is none. -/
def decodeAll (ws : List Word) : Except DecodeError (List Instruction) := ws.mapM decode

/-! ### Assembly -/

/-- The instruction as a line of assembly; the operand of a plain halt is left out. -/
def text (i : Instruction) : Text :=
  if i = halt then i.operation.mnemonic
  else i.operation.mnemonic ++ ' ' :: i.mode.sigil ++ Text.ofInt i.value

end Instruction
end StoredProgram
