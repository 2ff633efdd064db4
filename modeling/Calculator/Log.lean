import Calculator.Expr.Printer
import Calculator.Text.Quoted

/-!
# The log

What a calculation reports beside its answer: how far the input was read, and which calls have no
value. A record holds what happened; its level and its message are read off it.

## Main definitions

* `Calculator.Log.Level`, `Calculator.Log.Record`: levels and records.
* `Calculator.Log.Record.level`, `Calculator.Log.Record.message`.
* `Calculator.Logging`: calculations that append records to a log.
-/

namespace Calculator

namespace Log

/-- How much a record matters. -/
inductive Level
  | trace
  | debug
  | warn
deriving DecidableEq, Repr

namespace Level

/-- The name of a level. -/
def text : Level → String
  | trace => "TRACE"
  | debug => "DEBUG"
  | warn => "WARN"

end Level

/-- Something that happened during a calculation. -/
inductive Record
  /-- A text was divided into this many lexemes. -/
  | tokenized (count : Nat) (source : String)
  /-- A row of tokens was read as a tree with this many nodes and this height. -/
  | treeRead (nodes height : Nat)
  /-- A text was read as this expression. -/
  | parsed (source : String) (expr : Expr)
  /-- A text was evaluated to this number. -/
  | evaluated (source : String) (value : Float)
  /-- A call names no function. -/
  | unknownFunction (name : String)
  /-- A call has more or fewer arguments than its function takes. -/
  | argumentCount (name : String) (arity found : Nat)

namespace Record

/-- The level of a record. -/
def level : Record → Level
  | tokenized .. => .trace
  | treeRead .. => .trace
  | parsed .. => .debug
  | evaluated .. => .debug
  | unknownFunction .. => .warn
  | argumentCount .. => .warn

/-- The message of a record. -/
def message : Record → String
  | tokenized count source =>
      "tokenized " ++ toString count ++ " token(s) from " ++ quoted source
  | treeRead nodes height =>
      "parsed " ++ toString nodes ++ " node(s), height " ++ toString height
  | parsed source expr => "parsed " ++ quoted source ++ " as " ++ expr.text
  | evaluated source value => quoted source ++ " evaluated to " ++ Number.text value
  | unknownFunction name => "call to unknown function '" ++ name ++ "' evaluated to NaN"
  | argumentCount name arity found =>
      "'" ++ name ++ "' takes " ++ toString arity ++ " argument(s) but was called with " ++
        toString found

end Record

end Log

/-- A calculation that appends records to a log. -/
abbrev Logging := StateM (Array Log.Record)

/-- Appends a record to the log. -/
def Log.write (record : Log.Record) : Logging Unit := modify fun log => log.push record

end Calculator
