import Calculator.Token

/-!
# Errors

Why a text is refused, and where. Each cause names the position that a message reports, counted in
characters from the beginning of the text.

## Main definitions

* `Calculator.LexError`: a character that belongs to no token.
* `Calculator.ParseError`: a row of tokens that is no expression.
* `Calculator.InputError`: either of the two.
-/

namespace Calculator

/-- The beginning of every message. -/
def messageAt (position : Nat) (cause : String) : String :=
  "Error at position " ++ toString position ++ ": " ++ cause ++ "."

/-- Why a text does not divide into tokens. -/
inductive LexError
  /-- The character belongs to no token. -/
  | invalidCharacter (character : Char) (position : Nat)
deriving DecidableEq, Repr

namespace LexError

/-- Where the text is refused. -/
def position : LexError → Nat
  | invalidCharacter _ position => position

/-- The cause in words. -/
def message : LexError → String
  | invalidCharacter character position =>
      messageAt position ("Invalid character '" ++ character.toString ++ "'")

end LexError

/-- Why a row of tokens is no expression. -/
inductive ParseError
  /-- No expression goes on with this token. -/
  | unexpectedToken (token : Token) (position : Nat)
  /-- A parenthesis has no partner. -/
  | unmatchedParenthesis (position : Nat)
  /-- The name is not that of a function. -/
  | unknownFunction (name : String) (position : Nat)
  /-- A function is given more or fewer arguments than it takes. -/
  | arityMismatch (name : String) (expected found : Nat) (position : Nat)
  /-- The literal denotes no number. -/
  | invalidNumber (literal : String) (position : Nat)
  /-- The expression is nested too deeply, or its tree is too high. -/
  | tooDeep (position : Nat)
deriving DecidableEq, Repr

namespace ParseError

/-- Where the row of tokens is refused. -/
def position : ParseError → Nat
  | unexpectedToken _ position => position
  | unmatchedParenthesis position => position
  | unknownFunction _ position => position
  | arityMismatch _ _ _ position => position
  | invalidNumber _ position => position
  | tooDeep position => position

/-- The cause without its position. -/
def cause : ParseError → String
  | unexpectedToken token _ => "Unexpected token: " ++ token.description
  | unmatchedParenthesis _ => "Unmatched parenthesis"
  | unknownFunction name _ => "Unknown function '" ++ name ++ "'"
  | arityMismatch name expected found _ =>
      "Function '" ++ name ++ "' takes " ++ toString expected ++ " argument(s), but " ++
        toString found ++ " were supplied"
  | invalidNumber literal _ => "Invalid number literal '" ++ literal ++ "'"
  | tooDeep _ => "Expression is nested too deeply"

/-- The cause in words. -/
def message (e : ParseError) : String := messageAt e.position e.cause

end ParseError

/-- Why a text is no expression. -/
inductive InputError
  | lexical (error : LexError)
  | grammatical (error : ParseError)
deriving DecidableEq, Repr

namespace InputError

/-- Where the text is refused. -/
def position : InputError → Nat
  | lexical error => error.position
  | grammatical error => error.position

/-- The cause in words. -/
def message : InputError → String
  | lexical error => error.message
  | grammatical error => error.message

end InputError

end Calculator
