import Calculator.Expr.Evaluation
import Calculator.Expr.Parser
import Calculator.Token.Lexer

/-!
# From a text to its value

A text is divided into lexemes, the lexemes are read as a tree, and the tree is evaluated. Each of
the three steps can be logged; the log does not change the answer.

## Main definitions

* `Calculator.parse`, `Calculator.evaluate`: the tree and the value of a text.
* `Calculator.Logged.tokenize`, `Calculator.Logged.readTree`, `Calculator.Logged.parse`,
  `Calculator.Logged.evaluate`: the same with a log.

## Main results

* `Calculator.Logged.fst_parse`: a text has the same tree with and without the log.
-/

namespace Calculator

/-- The tree of a text. -/
def parse (source : String) : Except InputError Expr :=
  match tokenize source with
  | .error e => .error (.lexical e)
  | .ok ls =>
      match Expr.ofLexemes ls with
      | .error e => .error (.grammatical e)
      | .ok subtree => .ok subtree.expr

/-- The tree of a text is that of its lexemes. -/
theorem parse_of_tokenize {source : String} {ls : List Lexeme} (h : tokenize source = .ok ls) :
    parse source = ((Expr.ofLexemes ls).map Subtree.expr).mapError InputError.grammatical := by
  simp only [parse, h]
  cases Expr.ofLexemes ls <;> rfl

section

variable {source : String}

theorem parse_eq_ok_iff {e : Expr} : parse source = .ok e ↔
    ∃ ls s, tokenize source = .ok ls ∧ Expr.ofLexemes ls = .ok s ∧ s.expr = e := by
  cases htokens : tokenize source with
  | error => simp [parse, htokens]
  | ok ls => cases hread : Expr.ofLexemes ls <;> simp [parse, htokens, hread]

/-- A text that belongs to no row of lexemes is refused for that. -/
theorem parse_eq_lexical_iff {cause : LexError} :
    parse source = .error (.lexical cause) ↔ tokenize source = .error cause := by
  cases htokens : tokenize source with
  | error => simp [parse, htokens]
  | ok ls => cases hread : Expr.ofLexemes ls <;> simp [parse, htokens, hread]

/-- Every other text is refused for its row of lexemes. -/
theorem parse_eq_grammatical_iff {cause : ParseError} :
    parse source = .error (.grammatical cause) ↔
      ∃ ls, tokenize source = .ok ls ∧ Expr.ofLexemes ls = .error cause := by
  cases htokens : tokenize source with
  | error => simp [parse, htokens]
  | ok ls => cases hread : Expr.ofLexemes ls <;> simp [parse, htokens, hread]

end

/-- The value of a text. -/
def evaluate (source : String) : Except InputError Float :=
  (parse source).map Expr.value

theorem evaluate_of_parse {source : String} {e : Expr} (h : parse source = .ok e) :
    evaluate source = .ok e.value := by
  rw [evaluate, h]
  rfl

/-- A text has no value for the reason for which it has no tree. -/
theorem evaluate_eq_error_iff {source : String} {cause : InputError} :
    evaluate source = .error cause ↔ parse source = .error cause := by
  cases h : parse source <;> simp [evaluate, h, Except.map]

namespace Logged

/-- The lexemes of a text. The log tells how many there are. -/
def tokenize (source : String) : Logging (Except LexError (List Lexeme)) := do
  match Calculator.tokenize source with
  | .error e => return .error e
  | .ok ls =>
      Log.write (.tokenized ls.length source)
      return .ok ls

/-- The tree of a row of lexemes. The log tells how large it is. -/
def readTree (ls : List Lexeme) : Logging (Except ParseError Expr) := do
  match Expr.ofLexemes ls with
  | .error e => return .error e
  | .ok subtree =>
      Log.write (.treeRead subtree.expr.nodeCount subtree.height)
      return .ok subtree.expr

/-- The tree of a text. The log tells how it was read. -/
def parse (source : String) : Logging (Except InputError Expr) := do
  match ← tokenize source with
  | .error e => return .error (.lexical e)
  | .ok ls =>
      match ← readTree ls with
      | .error e => return .error (.grammatical e)
      | .ok expr =>
          Log.write (.parsed source expr)
          return .ok expr

/-- The value of a text. The log tells how it was read and evaluated. -/
def evaluate (source : String) : Logging (Except InputError Float) := do
  match ← parse source with
  | .error e => return .error e
  | .ok expr =>
      let value ← expr.evaluate
      Log.write (.evaluated source value)
      return .ok value

/-- A text has the same tree with and without the log. -/
theorem fst_parse (source : String) (log : Array Log.Record) :
    ((parse source).run log).1 = Calculator.parse source := by
  cases htokens : Calculator.tokenize source with
  | error e =>
    simp [parse, tokenize, Calculator.parse, htokens]
    rfl
  | ok ls =>
    cases htree : Expr.ofLexemes ls with
    | error e =>
      simp [parse, tokenize, readTree, Calculator.parse, htokens, htree, Log.write]
      rfl
    | ok subtree =>
      simp [parse, tokenize, readTree, Calculator.parse, htokens, htree, Log.write]
      rfl

end Logged

end Calculator
