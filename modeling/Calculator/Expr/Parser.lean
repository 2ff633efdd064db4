import Calculator.Builtin
import Calculator.Number.Literal
import Calculator.Parsing.Repetition

/-!
# Reading an expression

An expression is a chain of terms, joined by addition and subtraction. A term is a chain of
factors, joined by multiplication and division. A factor is a negated factor, or a primary with at
most one factorial mark. A primary is a number literal, a call of a function, or an expression in
parentheses. Groups, argument lists and negations lead one level further in.

## Main definitions

* `Calculator.Parser.unary`, `Calculator.Parser.multiplicative`, `Calculator.Parser.additive`,
  `Calculator.Parser.expression`: the parsers of factors, terms and expressions at a nesting.
* `Calculator.Expr.ofLexemes`: the tree of a whole row of lexemes, with its height.

## Main results

* `Calculator.Parser.unary_eq`: a factor is read with the parsers of the levels further in.
-/

namespace Calculator

namespace Parser

/-- The failure at a lexeme that begins no primary. A closing parenthesis has no partner if none
is open. -/
def stray (parenthesized : Bool) (l : Lexeme) : ParseError :=
  if l.token = .rightParen ∧ parenthesized = false then .unmatchedParenthesis l.position
  else .unexpected l

/-- A number literal at `position`. -/
def literal (text : String) (position : Nat) (ls : List Lexeme) : Outcome Subtree :=
  match Number.read text with
  | none => .error (.invalidNumber text position) ls
  | some value => .ok (.number value) ls

/-- A group behind its opening parenthesis at `opening`, where `inner` reads the content. -/
def group (inner : Except ParseError (Parser Subtree)) (opening : Nat) (ls : List Lexeme) :
    Outcome Subtree :=
  match inner with
  | .error cause => .error cause ls
  | .ok content => (content.run ls).andThen (closing opening)

/-- A call behind its name at `position`, where `enclosed` gives the parser of the arguments of a
list by the place of its parenthesis. -/
def call (enclosed : Nat → Except ParseError (Parser Subtree)) (parenthesized : Bool)
    (name : String) (position : Nat) (ls : List Lexeme) : Outcome Subtree :=
  match Builtin.lookup name with
  | none => .error (.unknownFunction name position) ls
  | some builtin =>
      match ls with
      | [] => .error .outOfLexemes []
      | l :: ls =>
          if l.token = .leftParen then
            match enclosed l.position with
            | .error cause => .error cause ls
            | .ok item =>
                (arguments item l.position ls).andThen fun args rest =>
                  if args.length = builtin.arity then
                    .ofExcept (Subtree.call builtin.name args position) rest
                  else
                    .error (.arityMismatch name builtin.arity args.length position) rest
          else
            .error (stray parenthesized l) (l :: ls)

/-- A primary: a number literal, a call or a group. -/
def primary (enclosed : Nat → Except ParseError (Parser Subtree)) (parenthesized : Bool) :
    List Lexeme → Outcome Subtree
  | [] => .error .outOfLexemes []
  | l :: ls =>
      match l.token with
      | .number text => literal text l.position ls
      | .identifier name => call enclosed parenthesized name l.position ls
      | .leftParen => group (enclosed l.position) l.position ls
      | _ => .error (stray parenthesized l) (l :: ls)

/-- The factorial of `operand` if a mark follows it, and else `operand` itself. -/
def factorialMark (operand : Subtree) : List Lexeme → Outcome Subtree
  | [] => .ok operand []
  | l :: ls =>
      if l.token = .bang then
        match operand.factorial l.position with
        | .error cause => .error cause (l :: ls)
        | .ok subtree => .ok subtree ls
      else
        .ok operand (l :: ls)

/-- A negation behind its sign at `position`, where `inner` reads the operand. -/
def negation (inner : Except ParseError (Parser Subtree)) (position : Nat) (ls : List Lexeme) :
    Outcome Subtree :=
  match inner with
  | .error cause => .error cause ls
  | .ok operand =>
      (operand.run ls).andThen fun subtree rest => .ofExcept (subtree.negate position) rest

/-- Reads a factor, where `negated` and `enclosed` give the parsers of what a sign negates and of
what a parenthesis encloses by the place of the sign and of the parenthesis. -/
def readFactor (negated enclosed : Nat → Except ParseError (Parser Subtree))
    (parenthesized : Bool) : List Lexeme → Outcome Subtree
  | [] => .error .outOfLexemes []
  | l :: ls =>
      if l.token = .minus then negation (negated l.position) l.position ls
      else (primary enclosed parenthesized (l :: ls)).andThen factorialMark

/-! ### Reading takes at least one lexeme -/

theorem literal_shortens {bound : Nat} (text : String) (position : Nat) {ls : List Lexeme}
    (h : ls.length < bound) : (literal text position ls).Shortens bound := by
  rw [literal]
  split
  · trivial
  · exact h

theorem group_shortens {bound : Nat} (inner : Except ParseError (Parser Subtree)) (opening : Nat)
    {ls : List Lexeme} (h : ls.length < bound) : (group inner opening ls).Shortens bound := by
  rw [group.eq_def]
  split
  · trivial
  · exact ((Parser.shortens _ ls).mono (Nat.le_of_lt h)).andThen fun value rest hrest =>
      closing_shortens opening value rest hrest

theorem call_shortens {bound : Nat} (enclosed : Nat → Except ParseError (Parser Subtree))
    (parenthesized : Bool) (name : String) (position : Nat) {ls : List Lexeme}
    (h : ls.length < bound) : (call enclosed parenthesized name position ls).Shortens bound := by
  rw [call]
  split
  · trivial
  · split
    · trivial
    · split
      · split
        · trivial
        · simp only [List.length_cons] at h
          refine (argumentsFrom_shortens _ _ _ _ (by omega)).andThen fun args rest hrest => ?_
          split
          · exact Outcome.shortens_ofExcept hrest
          · trivial
      · trivial

theorem primary_shortens (enclosed : Nat → Except ParseError (Parser Subtree))
    (parenthesized : Bool) : (ls : List Lexeme) →
      (primary enclosed parenthesized ls).Shortens ls.length
  | [] => trivial
  | l :: ls => by
      rw [primary]
      split
      · exact literal_shortens _ _ (Nat.lt_succ_self _)
      · exact call_shortens _ _ _ _ (Nat.lt_succ_self _)
      · exact group_shortens _ _ (Nat.lt_succ_self _)
      · trivial

theorem factorialMark_shortens {bound : Nat} (operand : Subtree) :
    (ls : List Lexeme) → ls.length < bound → (factorialMark operand ls).Shortens bound
  | [], h => h
  | l :: ls, h => by
      rw [factorialMark]
      split
      · split
        · trivial
        · simp only [List.length_cons] at h
          exact Nat.lt_of_succ_lt h
      · exact h

theorem negation_shortens {bound : Nat} (inner : Except ParseError (Parser Subtree))
    (position : Nat) {ls : List Lexeme} (h : ls.length < bound) :
    (negation inner position ls).Shortens bound := by
  rw [negation.eq_def]
  split
  · trivial
  · exact ((Parser.shortens _ ls).mono (Nat.le_of_lt h)).andThen fun _ _ hrest =>
      Outcome.shortens_ofExcept hrest

theorem readFactor_shortens (negated enclosed : Nat → Except ParseError (Parser Subtree))
    (parenthesized : Bool) : (ls : List Lexeme) →
      (readFactor negated enclosed parenthesized ls).Shortens ls.length
  | [] => trivial
  | l :: ls => by
      rw [readFactor]
      split
      · exact negation_shortens _ _ (Nat.lt_succ_self _)
      · exact (primary_shortens enclosed parenthesized (l :: ls)).andThen fun value rest hrest =>
          factorialMark_shortens value rest hrest

/-! ### The levels of the grammar -/

/-- The parser of factors, given those of what a sign negates and of what a parenthesis encloses. -/
def factor (negated enclosed : Nat → Except ParseError (Parser Subtree)) (parenthesized : Bool) :
    Parser Subtree where
  run := readFactor negated enclosed parenthesized
  shortens := readFactor_shortens negated enclosed parenthesized

/-- The parser of terms, given that of their factors. -/
def termOf (operand : Parser Subtree) : Parser Subtree := chain Token.multiplicative? operand

/-- The parser of sums, given that of the factors of their terms. -/
def sumOf (operand : Parser Subtree) : Parser Subtree := chain Token.additive? (termOf operand)

/-- The parser of factors at a nesting. Behind a sign and behind a parenthesis it is used again,
one level further in. -/
def unary (n : Nesting) : Parser Subtree :=
  factor
    (fun position =>
      match _h : n.deeper position with
      | .error cause => .error cause
      | .ok m => .ok (unary m))
    (fun position =>
      match _h : n.parenthesized position with
      | .error cause => .error cause
      | .ok m => .ok (sumOf (unary m)))
    n.isParenthesized
termination_by nestingLimit - n.depth
decreasing_by
  · exact Nesting.room_lt_of_deeper ‹_›
  · exact Nesting.room_lt_of_parenthesized ‹_›

/-- The parser of terms at a nesting. -/
def multiplicative (n : Nesting) : Parser Subtree := termOf (unary n)

/-- The parser of sums at a nesting. -/
def additive (n : Nesting) : Parser Subtree := sumOf (unary n)

/-- The parser of expressions at a nesting. -/
def expression (n : Nesting) : Parser Subtree := additive n

/-- A factor is read with the parsers of factors and of expressions one level further in. -/
theorem unary_eq (n : Nesting) :
    unary n =
      factor (fun position => (n.deeper position).map unary)
        (fun position => (n.parenthesized position).map expression) n.isParenthesized := by
  rw [unary]
  congr 1 <;> funext position <;> split <;> simp_all [Except.map, expression, additive]

end Parser

/-- The tree of a whole row of lexemes, with its height. Behind the expression the row ends or
holds the end of the input, and what follows that is not read. -/
def Expr.ofLexemes (ls : List Lexeme) : Except ParseError Subtree :=
  match (Parser.expression .outermost).run ls with
  | .error cause _ => .error cause
  | .ok subtree [] => .ok subtree
  | .ok subtree (l :: _) =>
      match l.token with
      | .endOfInput => .ok subtree
      | .rightParen => .error (.unmatchedParenthesis l.position)
      | _ => .error (.unexpected l)

end Calculator
