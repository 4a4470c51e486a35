import StoredProgram.CommandLine.Argument
import StoredProgram.Text.Decimal

/-! # Commands

A command line names one of three commands, a file, and the options of the command. An option may stand
before or after the file; only `--verbose` and `--registers` may be given more than once. -/

namespace StoredProgram

/-- How a program is to be run. -/
structure RunOptions where
  binary : Bool := false
  registers : List Word := []
  blank : UInt64 := 0
  maxSteps : Option UInt64 := none
  dump : Bool := false
  deriving DecidableEq

/-- What the command line asks for. -/
inductive Command where
  | assemble (file : Text) (listing : Bool)
  | run (file : Text) (options : RunOptions)
  | disassemble (file : Text)
  deriving DecidableEq

namespace Command

/-- The file that a command reads. -/
def file : Command → Text
  | assemble file _ => file
  | run file _ => file
  | disassemble file => file

/-! ### Options -/

/-- The options of `assemble`. -/
def assembleOptions : List (Text × OptionKind) := [("listing".toList, .flag)]

/-- The options of `run`. -/
def runOptions : List (Text × OptionKind) :=
  [("binary".toList, .flag), ("registers".toList, .signed), ("blank".toList, .plain),
    ("max-steps".toList, .plain), ("dump".toList, .flag)]

/-- The words of a list that is separated by commas. -/
def wordList? (t : Text) : Option (List Word) := (t.splitOn ',').mapM Text.word?

/-! ### Reading -/

/-- The command that the arguments after its name give. -/
def ofArguments? (name : Text) (args : List Text) : Option Command :=
  if name = "assemble".toList then do
    let as ← Argument.read? assembleOptions args
    let file ← Argument.operand? as
    let listing ← Argument.flag? "listing".toList as
    return .assemble file listing
  else if name = "run".toList then do
    let as ← Argument.read? runOptions args
    let file ← Argument.operand? as
    let binary ← Argument.flag? "binary".toList as
    let registers ← (Argument.values "registers".toList as).mapM wordList?
    let blank ← Argument.value? Text.count? "blank".toList as
    let maxSteps ← Argument.value? Text.count? "max-steps".toList as
    let dump ← Argument.flag? "dump".toList as
    return .run file ⟨binary, registers.flatten, blank.getD 0, maxSteps, dump⟩
  else if name = "disassemble".toList then do
    let as ← Argument.read? [] args
    let file ← Argument.operand? as
    return .disassemble file
  else none

/-- The command that a command line asks for, if it is well formed. -/
def read? : List Text → Option Command
  | [] => none
  | a :: args =>
    if Argument.isVerbose a then read? args
    else ofArguments? a args

end Command
end StoredProgram
