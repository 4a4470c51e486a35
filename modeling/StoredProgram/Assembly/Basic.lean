import StoredProgram.Assembly.Label
import StoredProgram.Assembly.Operand
import StoredProgram.Assembly.Problem
import StoredProgram.Instruction
import StoredProgram.Text.Line

/-! # Assembly

A source is assembled in three passes over its lines. The first gives each label the index of its
instruction. The second gives each variable a register, from the first one after the program on. The
third turns each instruction line into a word; both tables are complete by then, so that an instruction
may refer to a label or a variable defined further down. The first problem of the first pass that meets
one is the error of the source. -/

namespace StoredProgram

/-- A program with the symbols that its source defines. -/
structure Assembly where
  instructions : List Instruction
  words : List Word
  labels : SymbolTable
  vars : SymbolTable

namespace Assembly

/-! ### Kinds of lines -/

/-- The word that starts the definition of a variable. -/
def keyword : Text := "$define".toList

/-- Lines that start with the keyword define variables, the others hold instructions. -/
def isDefinition (l : Line) : Bool := keyword.isPrefixOf l.text

/-- The lines that define variables. -/
def definitions (source : Text) : List Line := source.lines.filter isDefinition

/-- The lines that hold an instruction. -/
def instructionLines (source : Text) : List Line := source.lines.filter (!isDefinition ·)

/-- Names the line of a problem. -/
def onLine {α : Type} (l : Line) (r : Except Problem α) : Except SourceError α :=
  r.mapError (⟨l.number, ·⟩)

/-! ### Labels -/

/-- Adds the label of an instruction line, if it has one. -/
def addLabel (labels : SymbolTable) (index : Nat) (line : Text) : Except Problem SymbolTable :=
  match Labelling.ofText line with
  | .plain _ => .ok labels
  | .malformed => .error (.labelling line)
  | .labelled name _ =>
    match labels.insert? ⟨name, index⟩ with
    | some labels => .ok labels
    | none => .error (.labelling line)

/-- The labels of the instruction lines, each at the index of its line. -/
def labelTable (ls : List Line) : Except SourceError SymbolTable :=
  ls.zipIdx.foldlM (fun labels (l, index) => onLine l (addLabel labels index l.text)) .empty

/-! ### Variables -/

/-- The name of a variable does not start with a digit and holds none of `@`, `#` and `:`. -/
def isVariableName (name : Text) : Bool :=
  !name.isEmpty && !(name.head?.any Char.isDigit) &&
    name.all fun c => c != '@' && c != '#' && c != ':'

/-- Adds the variable that a line defines. -/
def addVariable (vars : SymbolTable) (address : Nat) (line : Text) : Except Problem SymbolTable :=
  match line.words with
  | [word, name] =>
    if word ≠ keyword then .error (.definition line)
    else if !isVariableName name then .error (.variableName name)
    else
      match vars.insert? ⟨name, address⟩ with
      | some vars => .ok vars
      | none => .error (.definition line)
  | _ => .error (.definition line)

/-- The variables that the lines define, from a first address on. -/
def variableTable (first : Nat) (ls : List Line) : Except SourceError SymbolTable :=
  (ls.zipIdx first).foldlM (fun vars (l, address) => onLine l (addVariable vars address l.text))
    .empty

/-! ### Instructions -/

/-- The mode and value of an operand, or what is wrong with it. -/
def operand (labels vars : SymbolTable) (t : Text) : Except Problem (Mode × Int) :=
  match Operand.ofText? t with
  | none => .error (.mode t)
  | some o =>
    match o.resolve? labels vars, o with
    | some r, _ => .ok r
    | none, .target name => .error (.label name)
    | none, .value _ _ => .error (.value t)

/-- The instruction of a line, given the line and what follows its label. -/
def statement (labels vars : SymbolTable) (line body : Text) : Except Problem Instruction :=
  match body.words with
  | [name] => if name = Operation.halt.mnemonic then .ok .halt else .error (.expressions line)
  | [name, t] =>
    match Operation.ofMnemonic? name with
    | none => .error (.operation name)
    | some operation => (operand labels vars t).map fun (mode, value) => ⟨operation, mode, value⟩
  | _ => .error (.expressions line)

/-- The instruction of a line. -/
def instruction (labels vars : SymbolTable) (line : Text) : Except Problem Instruction :=
  match Labelling.ofText line with
  | .malformed => .error (.labelling line)
  | .plain body => statement labels vars line body
  | .labelled _ body => statement labels vars line body

/-- The instruction of a line with its word. -/
def encoded (labels vars : SymbolTable) (line : Text) : Except Problem (Instruction × Word) := do
  let i ← instruction labels vars line
  match i.encode with
  | .ok w => .ok (i, w)
  | .error e => .error (.encoding e)

/-! ### Sources -/

/-- Assembles a source. -/
def ofSource (source : Text) : Except SourceError Assembly := do
  let ls := instructionLines source
  let labels ← labelTable ls
  let vars ← variableTable ls.length (definitions source)
  let code ← ls.mapM fun l => onLine l (encoded labels vars l.text)
  return ⟨code.map Prod.fst, code.map Prod.snd, labels, vars⟩

end Assembly
end StoredProgram
