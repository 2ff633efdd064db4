import Calculator.Expr
import Calculator.Parsing.Outcome

/-!
# Chains of operations and lists of arguments

The two repetitions of the grammar. A chain is a row of operands with operations of one tier
between them; it groups to the left. A list of arguments stands between parentheses, with commas
between its members. Both count the height of the trees that they build.

## Main definitions

* `Calculator.Subtree`: a tree with its height.
* `Calculator.Parser.chain`: the parser of chains.
* `Calculator.Parser.closing`: the closing parenthesis of a group.
* `Calculator.Parser.arguments`: a list of arguments up to its closing parenthesis.
-/

namespace Calculator

/-- A tree with its height, which is counted while the tree is built. -/
structure Subtree where
  /-- The tree. -/
  expr : Expr
  /-- The height of the tree. -/
  height : Nat
deriving Inhabited

namespace Subtree

/-- The literal `value`. -/
def number (value : Float) : Subtree := ⟨.number value, 1⟩

/-- An operation on two subtrees, whose sign stands at `position`. -/
def binary (op : BinaryOperator) (left right : Subtree) (position : Nat) :
    Except ParseError Subtree :=
  (boundedHeight (max left.height right.height + 1) position).map fun height =>
    ⟨.binary op left.expr right.expr, height⟩

/-- The negative of a subtree, whose sign stands at `position`. -/
def negate (inner : Subtree) (position : Nat) : Except ParseError Subtree :=
  (boundedHeight (inner.height + 1) position).map fun height => ⟨.negate inner.expr, height⟩

/-- The factorial of a subtree, whose mark stands at `position`. -/
def factorial (inner : Subtree) (position : Nat) : Except ParseError Subtree :=
  (boundedHeight (inner.height + 1) position).map fun height => ⟨.factorial inner.expr, height⟩

/-- A call with the given arguments, whose name stands at `position`. -/
def call (name : String) (args : List Subtree) (position : Nat) : Except ParseError Subtree :=
  (boundedHeight ((args.map (·.height)).foldl max 0 + 1) position).map fun height =>
    ⟨.call name (args.map (·.expr)), height⟩

end Subtree

namespace Parser

/-- A chain whose part read so far is `left`: while an operation of the tier follows, its right
operand is read and the two are joined. -/
def chainFrom (operator? : Token → Option BinaryOperator) (operand : Parser Subtree)
    (left : Subtree) (ls : List Lexeme) : Outcome Subtree :=
  match ls with
  | [] => .ok left []
  | l :: ls =>
      match operator? l.token with
      | none => .ok left (l :: ls)
      | some op =>
          match _h : operand.run ls with
          | .error cause rest => .error cause rest
          | .ok right rest =>
              match left.binary op right l.position with
              | .error cause => .error cause rest
              | .ok joined => chainFrom operator? operand joined rest
termination_by ls.length
decreasing_by
  have := operand.length_rest_lt ‹_›
  simp only [List.length_cons]
  omega

theorem chainFrom_shortens (operator? : Token → Option BinaryOperator) (operand : Parser Subtree)
    {bound : Nat} (left : Subtree) (ls : List Lexeme) (hls : ls.length < bound) :
    (chainFrom operator? operand left ls).Shortens bound := by
  fun_induction chainFrom operator? operand left ls with
  | case1 => exact hls
  | case2 => exact hls
  | case3 => trivial
  | case4 => trivial
  | case5 left l ls op hop right rest hrun joined hjoin ih =>
      have hlt := operand.length_rest_lt hrun
      simp only [List.length_cons] at hls
      exact ih (by omega)

theorem chainFrom_cons {operator? : Token → Option BinaryOperator} {l : Lexeme}
    {op : BinaryOperator} (hop : operator? l.token = some op) (operand : Parser Subtree)
    (left : Subtree) (ls : List Lexeme) :
    chainFrom operator? operand left (l :: ls) =
      (operand.run ls).andThen fun right rest =>
        (Outcome.ofExcept (left.binary op right l.position) rest).andThen
          (chainFrom operator? operand) := by
  rw [chainFrom]
  simp only [hop]
  split
  next cause rest hrun => rw [hrun, Outcome.andThen_error]
  next right rest hrun =>
    rw [hrun, Outcome.andThen_ok]
    cases left.binary op right l.position <;> rfl

/-- A chain of operands with operations of one tier between them, grouped to the left. -/
def chain (operator? : Token → Option BinaryOperator) (operand : Parser Subtree) :
    Parser Subtree where
  run ls := (operand.run ls).andThen fun left rest => chainFrom operator? operand left rest
  shortens ls := (operand.shortens ls).andThen fun left rest h =>
    chainFrom_shortens operator? operand left rest h

/-- The closing parenthesis of the group that opened at `opening`, behind the content `value`. -/
def closing {α : Type} (opening : Nat) (value : α) : List Lexeme → Outcome α
  | [] => .error .outOfLexemes []
  | l :: ls =>
      match l.token with
      | .rightParen => .ok value ls
      | .endOfInput => .error (.unmatchedParenthesis opening) (l :: ls)
      | _ => .error (.unexpected l) (l :: ls)

theorem closing_shortens {α : Type} {bound : Nat} (opening : Nat) (value : α) :
    (ls : List Lexeme) → ls.length < bound → (closing opening value ls).Shortens bound
  | [], _ => trivial
  | l :: ls, h => by
      rw [closing]
      split
      · simp only [List.length_cons] at h
        exact Nat.lt_of_succ_lt h
      · trivial
      · trivial

/-- The members of a list that opened at `opening`, up to and with its closing parenthesis, behind
the members `read`, which are listed from the last to the first. -/
def argumentsFrom {α : Type} (item : Parser α) (opening : Nat) (read : List α)
    (ls : List Lexeme) : Outcome (List α) :=
  match _h : item.run ls with
  | .error cause rest => .error cause rest
  | .ok _ [] => .error .outOfLexemes []
  | .ok value (l :: rest) =>
      match l.token with
      | .comma => argumentsFrom item opening (value :: read) rest
      | .rightParen => .ok (value :: read).reverse rest
      | .endOfInput => .error (.unmatchedParenthesis opening) (l :: rest)
      | _ => .error (.unexpected l) (l :: rest)
termination_by ls.length
decreasing_by
  have := item.length_rest_lt ‹_›
  simp only [List.length_cons] at this
  omega

theorem argumentsFrom_shortens {α : Type} (item : Parser α) {bound : Nat} (opening : Nat)
    (read : List α) (ls : List Lexeme) (hls : ls.length < bound) :
    (argumentsFrom item opening read ls).Shortens bound := by
  fun_induction argumentsFrom item opening read ls with
  | case1 => trivial
  | case2 => trivial
  | case3 read ls value l rest hrun hl ih =>
      have hlt := item.length_rest_lt hrun
      simp only [List.length_cons] at hlt
      exact ih (by omega)
  | case4 read ls value l rest hrun hl =>
      have hlt := item.length_rest_lt hrun
      simp only [List.length_cons] at hlt
      simp only [Outcome.shortens_ok]
      omega
  | case5 => trivial
  | case6 => trivial

/-- What follows the member `value` of a list: a comma and the further members, or the closing
parenthesis. -/
def argumentsBehind {α : Type} (item : Parser α) (opening : Nat) (read : List α) (value : α) :
    List Lexeme → Outcome (List α)
  | [] => .error .outOfLexemes []
  | l :: ls =>
      match l.token with
      | .comma => argumentsFrom item opening (value :: read) ls
      | .rightParen => .ok (value :: read).reverse ls
      | .endOfInput => .error (.unmatchedParenthesis opening) (l :: ls)
      | _ => .error (.unexpected l) (l :: ls)

/-- A list is a member and what follows it. -/
theorem argumentsFrom_eq {α : Type} (item : Parser α) (opening : Nat) (read : List α)
    (ls : List Lexeme) :
    argumentsFrom item opening read ls =
      (item.run ls).andThen (argumentsBehind item opening read) := by
  rw [argumentsFrom]
  split <;> simp [*, argumentsBehind]

/-- The members of a list that opened at `opening`, up to and with its closing parenthesis. There
is at least one member. -/
def arguments {α : Type} (item : Parser α) (opening : Nat) (ls : List Lexeme) :
    Outcome (List α) :=
  argumentsFrom item opening [] ls

end Parser

end Calculator
