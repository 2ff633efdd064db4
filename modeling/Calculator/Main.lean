import Calculator.CommandLine

/-!
# The program

Reads the script if the arguments name one, and prints the output for the arguments.
-/

namespace Calculator.CommandLine

/-- The path of the script that a list of arguments names. -/
def scriptPath? (arguments : List String) : Option String :=
  match request arguments with
  | .ok (.task task) => if task.file then some task.contents else none
  | _ => none

/-- The cause behind an error number of the system, which may come negated. -/
def ReadError.ofSystem (number : UInt32) (description : String) : ReadError :=
  match (min number (-number)).toNat with
  | 2 => .notFound
  | 13 => .permissionDenied
  | 20 => .notDirectory
  | 21 => .isDirectory
  | 36 => .nameTooLong
  | n => .other (description ++ " (os error " ++ toString n ++ ")")

/-- Reads the file of a path as a text. -/
def readText (path : String) : IO (Except ReadError String) := do
  try
    return ReadError.decode (← IO.FS.readBinFile path)
  catch e =>
    match e with
    | .noFileOrDirectory _ number description | .permissionDenied _ number description
    | .inappropriateType _ number description | .invalidArgument _ number description
    | .resourceExhausted _ number description | .otherError number description =>
        return .error (.ofSystem number description)
    | e => return .error (.other (toString e))

end Calculator.CommandLine

open Calculator CommandLine in
/-- Runs the program on its arguments. -/
def main (arguments : List String) : IO UInt32 := do
  let script ←
    match scriptPath? arguments with
    | none => pure (.error .notFound)
    | some path => readText path
  let output := run (fun _ => script) arguments
  (← IO.getStdout).putStr output.stdout
  (← IO.getStderr).putStr output.stderr
  return output.exitCode.toUInt32
