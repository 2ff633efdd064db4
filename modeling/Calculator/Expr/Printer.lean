import Calculator.Expr
import Calculator.Number.Shortest

/-!
# The text of an expression

An expression is written with every operation in parentheses, so that its text shows its tree. A
factorial has its operand in parentheses and its mark behind them; a call is written as in the
input.

## Main definitions

* `Calculator.Expr.text`: the text of a tree.
-/

namespace Calculator.Expr

mutual

/-- The text of a tree. -/
def text : Expr → String
  | number value => Number.text value
  | binary op left right => "(" ++ left.text ++ " " ++ op.text ++ " " ++ right.text ++ ")"
  | negate inner => "(-" ++ inner.text ++ ")"
  | factorial inner => "(" ++ inner.text ++ ")!"
  | call name args => name ++ "(" ++ argumentsText args ++ ")"

/-- The texts of the trees of a list, with commas between them. -/
def argumentsText : List Expr → String
  | [] => ""
  | [e] => e.text
  | e :: e' :: es => e.text ++ ", " ++ argumentsText (e' :: es)

end

example : (binary .mul (negate (number 2)) (call "max" [number 1, number 0.5])).text =
    "((-2) * max(1, 0.5))" := by decide +kernel

end Calculator.Expr
