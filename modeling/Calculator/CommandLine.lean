import Calculator.Calculation

/-!
# The command line

The program takes an expression, or with `--file` the path of a script, and prints the value of
the expression, or with `--ast` its tree. A script is evaluated line by line; blank lines are
skipped, and a line that fails does not stop the later ones.

## Main definitions

* `Calculator.CommandLine.Request`: what the arguments ask for; `Calculator.CommandLine.request`
  reads them.
* `Calculator.CommandLine.Output`: what is printed, and the exit code.
* `Calculator.CommandLine.answer`, `Calculator.CommandLine.runScript`: the output for one
  expression and for a script.
* `Calculator.CommandLine.run`: the output for a list of arguments.
-/

namespace Calculator.CommandLine

/-! ### Arguments -/

/-- An option. None of them takes a value. -/
inductive Flag
  | file
  | ast
  | help
  | version
deriving DecidableEq, Repr

namespace Flag

/-- The option of a long name. -/
def ofLong? : String → Option Flag
  | "file" => some file
  | "ast" => some ast
  | "help" => some help
  | "version" => some version
  | _ => none

/-- The option of a letter. -/
def ofLetter? : Char → Option Flag
  | 'f' => some file
  | 'a' => some ast
  | 'h' => some help
  | 'V' => some version
  | _ => none

/-- The long name of an option, with its dashes. -/
def text : Flag → String
  | file => "--file"
  | ast => "--ast"
  | help => "--help"
  | version => "--version"

end Flag

/-- Why a list of arguments is refused. -/
inductive UsageError
  /-- The argument is no option, and there is no place for it. -/
  | unexpectedArgument (argument : String)
  /-- An option is given a value. -/
  | unexpectedValue (value : String) (flag : Flag)
  /-- An option is given twice. -/
  | repeated (flag : Flag)
  /-- There is nothing to evaluate. -/
  | missingContents
deriving DecidableEq, Repr

namespace UsageError

/-- The cause in words. -/
def cause : UsageError → String
  | unexpectedArgument argument => "unexpected argument '" ++ argument ++ "' found"
  | unexpectedValue value flag =>
      "unexpected value '" ++ value ++ "' for '" ++ flag.text ++ "' found; no more were expected"
  | repeated flag => "the argument '" ++ flag.text ++ "' cannot be used multiple times"
  | missingContents =>
      "the following required arguments were not provided:\n  <CONTENTS>"

/-- The message of a refusal. -/
def message (e : UsageError) : String :=
  "error: " ++ e.cause ++
    "\n\nUsage: parseva [OPTIONS] <CONTENTS>\n\nFor more information, try '--help'.\n"

end UsageError

/-- What is to be evaluated, and how. -/
structure Task where
  /-- The contents are the path of a script. -/
  file : Bool
  /-- Trees are printed instead of values. -/
  ast : Bool
  /-- An expression, or the path of a script. -/
  contents : String
deriving DecidableEq, Repr

/-- What a list of arguments asks for. -/
inductive Request
  | help
  | version
  | task (task : Task)
deriving DecidableEq, Repr

/-- What has been seen of a list of arguments. -/
structure Seen where
  /-- The option `--file`. -/
  file : Bool
  /-- The option `--ast`. -/
  ast : Bool
  /-- The contents, if they have been given. -/
  contents : Option String

namespace Seen

/-- At the beginning nothing has been seen. -/
def nothing : Seen := ⟨false, false, none⟩

/-- The request after all arguments. -/
def finish (seen : Seen) : Except UsageError Request :=
  match seen.contents with
  | none => .error .missingContents
  | some contents => .ok (.task ⟨seen.file, seen.ast, contents⟩)

/-- Takes an argument that is no option. -/
def addContents (seen : Seen) (argument : String) : Except UsageError Seen :=
  match seen.contents with
  | none => .ok ⟨seen.file, seen.ast, some argument⟩
  | some _ => .error (.unexpectedArgument argument)

/-- Takes an option. Help and version are requests of their own, and nothing after them counts. -/
def addFlag (seen : Seen) (flag : Flag) : Except UsageError (Request ⊕ Seen) :=
  match flag with
  | .file =>
      if seen.file then .error (.repeated flag) else .ok (.inr ⟨true, seen.ast, seen.contents⟩)
  | .ast =>
      if seen.ast then .error (.repeated flag) else .ok (.inr ⟨seen.file, true, seen.contents⟩)
  | .help => .ok (.inl .help)
  | .version => .ok (.inl .version)

/-- Takes a row of letters behind one dash, from left to right. -/
def addLetters (seen : Seen) : List Char → Except UsageError (Request ⊕ Seen)
  | [] => .ok (.inr seen)
  | c :: cs =>
      match Flag.ofLetter? c with
      | none => .error (.unexpectedArgument ("-" ++ c.toString))
      | some flag =>
          match seen.addFlag flag with
          | .error e => .error e
          | .ok (.inl request) => .ok (.inl request)
          | .ok (.inr seen) => seen.addLetters cs

/-- Takes a long name behind two dashes. What follows an equality sign is a value. -/
def addLong (seen : Seen) (cs : List Char) : Except UsageError (Request ⊕ Seen) :=
  let name := String.ofList (cs.takeWhile (· ≠ '='))
  match Flag.ofLong? name, cs.dropWhile (· ≠ '=') with
  | none, _ => .error (.unexpectedArgument ("--" ++ name))
  | some flag, [] => seen.addFlag flag
  | some flag, _ :: value => .error (.unexpectedValue (String.ofList value) flag)

/-- Takes the arguments behind a lone pair of dashes, none of which is an option. -/
def addPlain (seen : Seen) : List String → Except UsageError Seen
  | [] => .ok seen
  | argument :: arguments =>
      match seen.addContents argument with
      | .error e => .error e
      | .ok seen => seen.addPlain arguments

/-- Takes arguments from left to right; the first that is refused decides. A lone dash is no
option. -/
def add (seen : Seen) : List String → Except UsageError Request
  | [] => seen.finish
  | argument :: arguments =>
      let continueWith (step : Except UsageError (Request ⊕ Seen)) : Except UsageError Request :=
        match step with
        | .error e => .error e
        | .ok (.inl request) => .ok request
        | .ok (.inr seen) => seen.add arguments
      match argument.toList with
      | ['-', '-'] =>
          match seen.addPlain arguments with
          | .error e => .error e
          | .ok seen => seen.finish
      | '-' :: '-' :: cs => continueWith (seen.addLong cs)
      | '-' :: c :: cs => continueWith (seen.addLetters (c :: cs))
      | _ =>
          match seen.addContents argument with
          | .error e => .error e
          | .ok seen => seen.add arguments

end Seen

/-- What a list of arguments asks for. -/
def request (arguments : List String) : Except UsageError Request := Seen.nothing.add arguments

/-! ### Output -/

/-- What a run prints, and its exit code. -/
structure Output where
  /-- What is printed. -/
  stdout : String
  /-- What is printed about failures. -/
  stderr : String
  /-- Zero for success, one if something could not be read or evaluated, two for a refusal of the
  arguments. -/
  exitCode : Nat
deriving DecidableEq, Repr, Inhabited

namespace Output

/-- The output of a run that does nothing. -/
def empty : Output := ⟨"", "", 0⟩

/-- One run after another: what they print is joined, and the greater exit code stays. -/
def append (a b : Output) : Output :=
  ⟨a.stdout ++ b.stdout, a.stderr ++ b.stderr, max a.exitCode b.exitCode⟩

instance : Append Output := ⟨append⟩

/-- A line that is printed. -/
def line (text : String) : Output := ⟨text ++ "\n", "", 0⟩

/-- A line that is printed about a failure. -/
def failure (text : String) : Output := ⟨"", text ++ "\n", 1⟩

end Output

/-- The output for one expression: its value, or its tree, or the message of its error. -/
def answer (ast : Bool) (expression : String) : Output :=
  let text :=
    if ast then (parse expression).map Expr.text else (evaluate expression).map Number.text
  match text with
  | .ok text => .line text
  | .error e => .failure e.message

/-- The expressions of a script: its lines without the blanks at their ends, unless they are
blank. -/
def expressions (script : String) : List String :=
  ((lines script.toList).map trim).filterMap fun cs =>
    if cs = [] then none else some (String.ofList cs)

/-- The output for a script: that of its expressions, one after another. -/
def runScript (ast : Bool) (script : String) : Output :=
  (expressions script).foldl (fun output expression => output ++ answer ast expression) .empty

/-- Why a file cannot be read. -/
inductive ReadError
  | notFound
  | permissionDenied
  /-- A part of the path in front of its end is a file. -/
  | notDirectory
  | isDirectory
  | nameTooLong
  /-- The bytes of the file are no text. -/
  | notText
  | other (description : String)
deriving DecidableEq, Repr

namespace ReadError

/-- The cause in the words of the system. -/
def description : ReadError → String
  | notFound => "No such file or directory (os error 2)"
  | permissionDenied => "Permission denied (os error 13)"
  | notDirectory => "Not a directory (os error 20)"
  | isDirectory => "Is a directory (os error 21)"
  | nameTooLong => "File name too long (os error 36)"
  | notText => "stream did not contain valid UTF-8"
  | other description => description

/-- The bytes of a file as a text. -/
def decode (bytes : ByteArray) : Except ReadError String :=
  match String.fromUTF8? bytes with
  | none => .error .notText
  | some text => .ok text

end ReadError

/-- The output for a task, where `read` reads the file of a path. -/
def runTask (read : String → Except ReadError String) (task : Task) : Output :=
  if task.file then
    match read task.contents with
    | .error e =>
        .failure ("Failed to read the input file '" ++ task.contents ++ "': " ++ e.description)
    | .ok script => runScript task.ast script
  else
    answer task.ast task.contents

/-- The text that describes the program and its options. -/
def help : String :=
  "parseva evaluates arithmetic expressions such as `sqrt(2 + 2) * 3!`\n\n" ++
  "Usage: parseva [OPTIONS] <CONTENTS>\n\n" ++
  "Arguments:\n" ++
  "  <CONTENTS>\n\n" ++
  "Options:\n" ++
  "  -f, --file     Treat CONTENTS as a path and evaluate every non-blank line of that file\n" ++
  "  -a, --ast      Print the parsed syntax tree, fully parenthesized, instead of the value\n" ++
  "  -h, --help     Print help\n" ++
  "  -V, --version  Print version\n"

/-- The output for a request. -/
def runRequest (read : String → Except ReadError String) : Request → Output
  | .help => ⟨help, "", 0⟩
  | .version => .line "parseva 0.1.0"
  | .task task => runTask read task

/-- The output for a list of arguments, where `read` reads the file of a path. -/
def run (read : String → Except ReadError String) (arguments : List String) : Output :=
  match request arguments with
  | .error e => ⟨"", e.message, 2⟩
  | .ok request => runRequest read request

end Calculator.CommandLine
