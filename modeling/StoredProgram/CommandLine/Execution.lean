import StoredProgram.Assembly.Listing
import StoredProgram.CommandLine.Command
import StoredProgram.Machine.Dump
import StoredProgram.Machine.Run
import StoredProgram.WordsFile

/-! # Executing a command

A command reads its file, works on what the file holds, and prints a result or fails. Nothing is printed
before a failure. Where there is no machine or no table to work on, the command is aborted. As a program need not
stop, executing a command takes fuel for the steps of a run without a limit; the other commands use none. -/

namespace StoredProgram

/-- Why a file could not be read: the system refuses it, or it does not hold text. -/
inductive ReadError where
  | system (description : Text) (code : Nat)
  | notText
  deriving DecidableEq

/-- There is no file of the name. -/
def ReadError.missing : ReadError := .system "No such file or directory".toList 2

/-- The system does not allow the file to be read. -/
def ReadError.forbidden : ReadError := .system "Permission denied".toList 13

/-- What a command cannot go on without. -/
inductive Abort where
  /-- The registers cannot be counted, or memory has not so many. -/
  | noMachine
  /-- A text of a table has no width. -/
  | noTable
  deriving DecidableEq

/-- Why a command has failed. -/
inductive Failure where
  | unreadable (file : Text) (error : ReadError)
  | notAWord (file : Text) (line : Line)
  | source (error : SourceError)
  | undecodable (error : DecodeError)
  | fault (fault : Fault)
  | aborted (abort : Abort)
  deriving DecidableEq

/-- The wording of what prevents a file from being read. -/
def ReadError.message : ReadError → Text
  | system t code => t ++ " (os error ".toList ++ Text.ofNat code ++ ")".toList
  | notText => "stream did not contain valid UTF-8".toList

/-- The wording of a failure; that of an abort is up to the system. -/
def Failure.message : Failure → Text
  | unreadable file e => "could not read ".toList ++ file ++ ": ".toList ++ e.message
  | notAWord file l =>
    file ++ ':' :: Text.ofNat l.number ++ ": ".toList ++ Problem.quoted l.text ++
      " is not a word".toList
  | source e => e.message
  | undecodable e => e.message
  | fault f => f.message
  | aborted _ => []

namespace Command

/-- The assembly of a source. -/
def assembly (source : Text) : Except Failure Assembly :=
  (Assembly.ofSource source).mapError .source

/-- The words of a file of words. -/
def words (file contents : Text) : Except Failure (List Word) :=
  (WordsFile.read contents).mapError (.notAWord file)

/-- The words of a program and the names of its variables; a file of words has none. -/
def program (file contents : Text) (binary : Bool) : Except Failure (List Word × SymbolTable) :=
  if binary then (words file contents).map (·, .empty)
  else (assembly contents).map fun a => (a.words, a.vars)

/-! ### Results -/

/-- The line of a register: its address, the variable that it holds, if any, and its contents. -/
def registerLine (vars : SymbolTable) (w : Word) (index : Nat) : Text :=
  "R[".toList ++ Text.ofNat index ++ "]".toList ++
    ((vars.name? index).map fun name => " (".toList ++ name ++ ")".toList).getD [] ++
    " = ".toList ++ Text.ofInt w.toInt

/-- The lines of a table that is printed with an empty line behind it. -/
def table (ls : Option (List Text)) : Except Failure (List Text) :=
  match ls with
  | some ls => .ok (ls ++ [[]])
  | none => .error (.aborted .noTable)

/-- What is printed of a machine that has stopped: the registers behind the program, or all there is. -/
def report (programLength : Nat) (vars : SymbolTable) (dump : Bool) (m : Machine) : Except Failure (List Text) :=
  if dump then table m.dump
  else
    .ok (["acc = ".toList ++ Text.ofInt m.acc.toInt, "pc  = ".toList ++ Text.ofInt m.pc,
        "steps = ".toList ++ Text.ofNat m.steps.toNat] ++
      ((m.registers.toList.zipIdx).drop programLength).map fun (w, index) =>
        registerLine vars w index)

/-- What is printed after a run, or the fault that has ended it. -/
def runResult (programLength : Nat) (vars : SymbolTable) (dump : Bool) (o : Outcome) :
    Except Failure (List Text) :=
  match o.fault with
  | some f => .error (.fault f)
  | none => report programLength vars dump o.machine

/-! ### Execution -/

/-- Runs a program, with the limit of steps if one is given; the outcome is absent if fuel runs out. -/
def runProgram (fuel : Nat) (limit : Option UInt64) (m : Machine) : Option Outcome :=
  match limit with
  | some limit => some (m.runWithin limit.toNat)
  | none => m.run fuel

/-- The lines that a command prints, given what its file holds. -/
def lines (counting : Counting) (fuel : Nat) (contents : Text) : Command → Option (Except Failure (List Text))
  | assemble _ listing =>
    some do
      let a ← assembly contents
      if listing then table a.listing else return a.words.map fun w => Text.ofInt w.toInt
  | run file options =>
    match program file contents options.binary with
    | .error e => some (.error e)
    | .ok (ws, vars) =>
      match Machine.load counting ws options.registers options.blank with
      | none => some (.error (.aborted .noMachine))
      | some m => (runProgram fuel options.maxSteps m).map (runResult ws.length vars options.dump)
  | disassemble file =>
    some do
      let ws ← words file contents
      let is ← (Instruction.decodeAll ws).mapError .undecodable
      return is.map Instruction.text

/-- What a command prints, or why it fails, given its file; the result is absent if fuel runs out. -/
def execute (counting : Counting) (fuel : Nat) (c : Command) (contents : Except ReadError Text) :
    Option (Except Failure Text) :=
  match contents with
  | .error e => some (.error (.unreadable c.file e))
  | .ok t => (c.lines counting fuel t).map (·.map Text.unlines)

end Command

/-! ### Responses -/

/-- What a process leaves behind: its exit code and what it has printed. -/
structure Response where
  exit : UInt32
  output : Text := []
  errors : Text := []
  deriving DecidableEq

namespace Response

/-- A command line that is not understood. -/
def usage : Response where
  exit := 2
  errors := Text.unlines
    ["usage: assemble FILE [--listing]".toList,
      "       run FILE [--binary] [--registers LIST] [--blank N] [--max-steps N] [--dump]".toList,
      "       disassemble FILE".toList]

/-- The response to the result of a command. -/
def ofResult : Except Failure Text → Response
  | .ok t => { exit := 0, output := t }
  | .error (.aborted _) => { exit := 101 }
  | .error e => { exit := 1, errors := Text.unlines ["error: ".toList ++ e.message] }

end Response
end StoredProgram
