/-!
# Tokens

An arithmetic text is read as a row of tokens: number literals, names, the signs of the four
operations, the factorial mark, parentheses, commas, and the end of the input. A lexeme is a token
together with the place where it begins, counted in characters.

## Main definitions

* `Calculator.Token`, `Calculator.Lexeme`: tokens, and tokens in their places.
* `Calculator.Token.text`: the characters of a token in a text.
* `Calculator.Token.description`: how a message names a token.
-/

namespace Calculator

/-- A token of an arithmetic text. -/
inductive Token
  /-- A number literal, as it is written. -/
  | number (literal : String)
  /-- The name of a function. -/
  | identifier (name : String)
  | plus
  | minus
  | star
  | slash
  | bang
  | leftParen
  | rightParen
  | comma
  /-- The end of the input, which stands after every other token. -/
  | endOfInput
deriving DecidableEq, Repr, Inhabited

/-- A token in its place. -/
structure Lexeme where
  /-- The token. -/
  token : Token
  /-- How many characters stand before the token. -/
  position : Nat
deriving DecidableEq, Repr, Inhabited

namespace Token

/-- The characters of a token. The end of the input has none. -/
def text : Token → String
  | number literal => literal
  | identifier name => name
  | plus => "+"
  | minus => "-"
  | star => "*"
  | slash => "/"
  | bang => "!"
  | leftParen => "("
  | rightParen => ")"
  | comma => ","
  | endOfInput => ""

/-- How a message names a token: its characters between apostrophes, or the words for the end of
the input. -/
def description : Token → String
  | endOfInput => "end of input"
  | token => "'" ++ token.text ++ "'"

end Token

end Calculator
