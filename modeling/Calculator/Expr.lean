import Calculator.Token

/-!
# Expressions

The tree of an arithmetic expression. Parentheses are not part of it: how operations group is the
shape of the tree.

## Main definitions

* `Calculator.BinaryOperator`: the four operations on two numbers, in their two tiers.
* `Calculator.Expr`: expressions.
* `Calculator.Expr.nodeCount`, `Calculator.Expr.height`: how many nodes a tree has, and how many
  lie on its longest branch.
* `Calculator.Expr.beq`: the comparison of trees that compares numbers as numbers, so that
  not-a-number differs from itself and the two zeros are equal.
-/

namespace Calculator

/-- An operation on two numbers. -/
inductive BinaryOperator
  | add
  | sub
  | mul
  | div
deriving DecidableEq, Repr, Inhabited

namespace BinaryOperator

/-- Whether an operation belongs to the tier that binds less. -/
def isAdditive : BinaryOperator → Bool
  | add | sub => true
  | mul | div => false

/-- Whether an operation belongs to the tier that binds more. -/
def isMultiplicative : BinaryOperator → Bool
  | add | sub => false
  | mul | div => true

/-- The sign of an operation. -/
def text : BinaryOperator → String
  | add => "+"
  | sub => "-"
  | mul => "*"
  | div => "/"

/-- The value of an operation. -/
def apply : BinaryOperator → Float → Float → Float
  | add, x, y => x + y
  | sub, x, y => x - y
  | mul, x, y => x * y
  | div, x, y => x / y

end BinaryOperator

/-- The operation that a token is the sign of. -/
def Token.operator? : Token → Option BinaryOperator
  | plus => some .add
  | minus => some .sub
  | star => some .mul
  | slash => some .div
  | _ => none

/-- The operation of the tier that binds less, if the token is the sign of one. -/
def Token.additive? (token : Token) : Option BinaryOperator :=
  token.operator?.filter BinaryOperator.isAdditive

/-- The operation of the tier that binds more, if the token is the sign of one. -/
def Token.multiplicative? (token : Token) : Option BinaryOperator :=
  token.operator?.filter BinaryOperator.isMultiplicative

/-- An arithmetic expression. -/
inductive Expr
  /-- A number. -/
  | number (value : Float)
  /-- An operation on two expressions. -/
  | binary (op : BinaryOperator) (left right : Expr)
  /-- The negative of an expression. -/
  | negate (inner : Expr)
  /-- The factorial of an expression. -/
  | factorial (inner : Expr)
  /-- A function called by name with a list of arguments. -/
  | call (name : String) (args : List Expr)
deriving Repr, Inhabited

namespace Expr

mutual

/-- How many nodes a tree has. -/
def nodeCount : Expr → Nat
  | number _ => 1
  | binary _ left right => 1 + left.nodeCount + right.nodeCount
  | negate inner => 1 + inner.nodeCount
  | factorial inner => 1 + inner.nodeCount
  | call _ args => 1 + totalNodeCount args

/-- How many nodes the trees of a list have together. -/
def totalNodeCount : List Expr → Nat
  | [] => 0
  | e :: es => e.nodeCount + totalNodeCount es

end

mutual

/-- How many nodes lie on the longest branch of a tree. -/
def height : Expr → Nat
  | number _ => 1
  | binary _ left right => max left.height right.height + 1
  | negate inner => inner.height + 1
  | factorial inner => inner.height + 1
  | call _ args => tallest args + 1

/-- The height of the highest tree of a list, zero if there is none. -/
def tallest : List Expr → Nat
  | [] => 0
  | e :: es => max e.height (tallest es)

end

mutual

/-- Whether two trees have one shape, with equal names and with numbers equal as numbers. -/
def beq : Expr → Expr → Bool
  | number x, number y => x == y
  | binary op left right, binary op' left' right' =>
      op == op' && left.beq left' && right.beq right'
  | negate inner, negate inner' => inner.beq inner'
  | factorial inner, factorial inner' => inner.beq inner'
  | call name args, call name' args' => name == name' && beqAll args args'
  | _, _ => false

/-- Whether two lists of trees are equal tree by tree. -/
def beqAll : List Expr → List Expr → Bool
  | [], [] => true
  | e :: es, e' :: es' => e.beq e' && beqAll es es'
  | _, _ => false

end

instance : BEq Expr := ⟨beq⟩

/-- A tree has at least one node. -/
theorem nodeCount_pos (e : Expr) : 0 < e.nodeCount := by
  cases e <;> simp only [nodeCount] <;> omega

/-- A tree has height at least one. -/
theorem height_pos (e : Expr) : 0 < e.height := by
  cases e <;> simp only [height] <;> omega

end Expr

end Calculator
