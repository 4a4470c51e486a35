import StoredProgram.CommandLine.Execution

/-! # The program

Reads the command line and the file that it names, executes the command, and prints the response. -/

namespace StoredProgram

/-- Why the system refuses to read a file. -/
def ReadError.ofSystem : IO.Error → ReadError
  | .noFileOrDirectory _ _ _ => missing
  | .permissionDenied _ _ _ => forbidden
  | .inappropriateType _ code details => system details.toList code.toNat
  | .resourceExhausted _ code details => system details.toList code.toNat
  | e => system e.toString.toList 0

/-- The text of a file. -/
def readText (file : Text) : IO (Except ReadError Text) := do
  try
    let bytes ← IO.FS.readBinFile (String.ofList file)
    match String.fromUTF8? bytes with
    | some s => return .ok s.toList
    | none => return .error .notText
  catch e => return .error (.ofSystem e)

/-- Executes a command with ever more fuel, which goes on as long as its program runs. -/
partial def Command.finish (fuel : Nat) (c : Command) (contents : Except ReadError Text) :
    IO (Except Failure Text) :=
  match c.execute .checked fuel contents with
  | some result => return result
  | none => c.finish (2 * fuel) contents

/-- The response to a command line. -/
def respond (args : List Text) : IO Response := do
  match Command.read? args with
  | none => return .usage
  | some c => return .ofResult (← c.finish (1 <<< 60) (← readText c.file))

end StoredProgram

open StoredProgram in
def main (args : List String) : IO UInt32 := do
  let response ← respond (args.map String.toList)
  (← IO.getStdout).putStr (String.ofList response.output)
  (← IO.getStderr).putStr (String.ofList response.errors)
  return response.exit
