import StoredProgram.CommandLine.Execution
import StoredProgram.Proofs.Assembly.Rewriting
import StoredProgram.Proofs.Machine.Dump
import StoredProgram.Proofs.WordsFile

/-! # Programs from words

What `assemble` prints of a source is a file of its words. Running the file comes to the same as running the source
(`Alike`): the same program is loaded, and all that is lost is the names of the variables. What `disassemble` prints of
the file is a source of these words. -/

namespace StoredProgram.Command

/-- The lines about the machine as a whole that are printed after a run. -/
def summary (m : Machine) : List Text :=
  ["acc = ".toList ++ Text.ofInt m.acc.toInt, "pc  = ".toList ++ Text.ofInt m.pc,
    "steps = ".toList ++ Text.ofNat m.steps.toNat]

/-- A line about a register, with a note behind its address. -/
def registerText (index : Nat) (note : Text) (w : Word) : Text :=
  "R[".toList ++ Text.ofNat index ++ "]".toList ++ note ++ " = ".toList ++ Text.ofInt w.toInt

/-- Two lines about a register with the same contents. The first one notes the variable that the register holds. -/
inductive SameRegister (vars : SymbolTable) : Text → Text → Prop
  | variable {name : Text} {index : Nat} (w : Word) (h : vars.address? name = some (index : Int)) :
    SameRegister vars (registerText index (" (".toList ++ name ++ ")".toList) w) (registerText index [] w)
  | other {index : Nat} (w : Word) (h : ∀ name, vars.address? name ≠ some (index : Int)) :
    SameRegister vars (registerText index [] w) (registerText index [] w)

/-- The results of running a source with some variables and of running its words: there has been no machine for either
    of them, or neither run has ended, or both have ended with the same fault, or both have printed the same, except for
    the names of variables. -/
inductive Alike (vars : SymbolTable) (dump : Bool) :
    Option (Except Failure Text) → Option (Except Failure Text) → Prop
  | noMachine : Alike vars dump (some (.error (.aborted .noMachine))) (some (.error (.aborted .noMachine)))
  | running : Alike vars dump none none
  | fault (f : Fault) : Alike vars dump (some (.error (.fault f))) (some (.error (.fault f)))
  | dump (h : dump = true) (t : Text) : Alike vars dump (some (.ok t)) (some (.ok t))
  | registers (h : dump = false) (m : Machine) {named plain : List Text}
    (hs : List.Forall₂ (SameRegister vars) named plain) :
    Alike vars dump (some (.ok (Text.unlines (summary m ++ named)))) (some (.ok (Text.unlines (summary m ++ plain))))

variable {source : Text} {a : Assembly} {vars : SymbolTable} {ws : List Word} {is : List Instruction}
  {counting : Counting} {m : Machine}

/-! ### Reports -/

theorem registerLine_of_some {name : Text} {index : Nat} (h : vars.name? index = some name) (w : Word) :
    registerLine vars w index = registerText index (" (".toList ++ name ++ ")".toList) w := by
  unfold registerLine
  rw [h]
  rfl

theorem registerLine_of_none {index : Nat} (h : vars.name? index = none) (w : Word) :
    registerLine vars w index = registerText index [] w := by
  unfold registerLine
  rw [h]
  rfl

theorem words_write (file : Text) (ws : List Word) : words file (WordsFile.write ws) = .ok ws := by
  unfold words
  rw [WordsFile.read_write]
  rfl

theorem assembly_of_ofSource (h : Assembly.ofSource source = .ok a) : assembly source = .ok a := by
  unfold assembly
  rw [h]
  rfl

section

variable {file contents : Text} (options : RunOptions) (h : program file contents options.binary = .ok (ws, vars))
  (fuel : Nat)
include h

theorem execute_run_of_none (hm : Machine.load counting ws options.registers options.blank = none) :
    (run file options).execute counting fuel (.ok contents) = some (.error (.aborted .noMachine)) := by
  unfold execute lines
  simp only [h, hm]
  rfl

theorem execute_run (hm : Machine.load counting ws options.registers options.blank = some m) :
    (run file options).execute counting fuel (.ok contents) =
      (runProgram fuel options.maxSteps m).map fun o =>
        (runResult ws.length vars options.dump o).map Text.unlines := by
  unfold execute lines
  simp only [h, hm, Option.map_map]
  rfl

end

theorem program_source (h : Assembly.ofSource source = .ok a) (file : Text) :
    program file source false = .ok (a.words, a.vars) := by
  unfold program
  rw [assembly_of_ofSource h]
  rfl

end StoredProgram.Command
