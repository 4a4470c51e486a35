import StoredProgram.Text.Basic

/-! # Arguments

The arguments of a command are options and operands. An option is written `--name`, and its value, if it
takes one, is the next argument or follows the name and an equals sign. After the argument `--` all
arguments are operands. The option `--verbose`, in short `-v`, is understood everywhere and changes
nothing that is printed. -/

namespace StoredProgram

/-- What may follow an option: no value, a value that does not start with a minus sign, or any value. -/
inductive OptionKind where
  | flag
  | plain
  | signed
  deriving DecidableEq

/-- An argument as it is understood. -/
inductive Argument where
  | operand (text : Text)
  | flag (name : Text)
  | valued (name value : Text)
  deriving DecidableEq

namespace Argument

/-- The long form of the verbosity option, or letters `v` after one minus sign. -/
def isVerbose : Text → Bool
  | '-' :: 'v' :: t => t.all (· == 'v')
  | t => t == "--verbose".toList

/-- An argument that starts with a minus sign, and is not only that, is an option. -/
def isOption : Text → Bool
  | '-' :: _ :: _ => true
  | _ => false

/-- Understands arguments, given the options that are known. -/
def read? (options : List (Text × OptionKind)) : List Text → Option (List Argument)
  | [] => some []
  | a :: args =>
    if a = "--".toList then some (args.map operand)
    else if isVerbose a then read? options args
    else if !isOption a then (read? options args).map (operand a :: ·)
    else
      match a with
      | '-' :: '-' :: t =>
        let name := t.takeWhile (· != '=')
        match options.lookup name, t.dropWhile (· != '='), args with
        | some .flag, [], args => (read? options args).map (flag name :: ·)
        | some .plain, [], v :: args =>
          if isOption v then none else (read? options args).map (valued name v :: ·)
        | some .signed, [], v :: args => (read? options args).map (valued name v :: ·)
        | some .plain, _ :: v, args => (read? options args).map (valued name v :: ·)
        | some .signed, _ :: v, args => (read? options args).map (valued name v :: ·)
        | _, _, _ => none
      | _ => none

/-- The only operand, which must not be empty. -/
def operand? (as : List Argument) : Option Text :=
  match as.filterMap fun | operand t => some t | _ => none with
  | [t] => if t.isEmpty then none else some t
  | _ => none

/-- Whether a flag is given; it may not be given again. -/
def flag? (name : Text) (as : List Argument) : Option Bool :=
  match as.count (flag name) with
  | 0 => some false
  | 1 => some true
  | _ => none

/-- The values that are given to an option. -/
def values (name : Text) (as : List Argument) : List Text :=
  as.filterMap fun | valued n v => if n = name then some v else none | _ => none

/-- What the value of an option denotes, if it is given; it may not be given again. -/
def value? {α : Type} (denotes : Text → Option α) (name : Text) (as : List Argument) :
    Option (Option α) :=
  match values name as with
  | [] => some none
  | [v] => (denotes v).map some
  | _ => none

end Argument
end StoredProgram
