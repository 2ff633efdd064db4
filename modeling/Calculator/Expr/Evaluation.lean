import Calculator.Builtin
import Calculator.Factorial
import Calculator.Log

/-!
# The value of an expression

An expression is evaluated from left to right, operands before operations. A call whose name is
unknown, or whose number of arguments is wrong, has the value not-a-number, and the log says so
after all arguments have been evaluated.

## Main definitions

* `Calculator.Builtin.callByName`: the value of a call at evaluated arguments.
* `Calculator.Expr.evaluate`: the value of an expression, with the log of its evaluation.
* `Calculator.Expr.value`: the value alone.
-/

namespace Calculator

/-- The value of the function of a given name at evaluated arguments. Where there is none, the log
says why and the value is not-a-number. -/
def Builtin.callByName (name : String) (values : List Float) : Logging Float :=
  match Builtin.lookup name with
  | none => do
      Log.write (.unknownFunction name)
      return Elementary.nan
  | some builtin =>
      match builtin.call values with
      | none => do
          Log.write (.argumentCount name builtin.arity values.length)
          return Elementary.nan
      | some value => return value

namespace Expr

mutual

/-- The value of an expression. -/
def evaluate : Expr → Logging Float
  | number value => return value
  | binary op left right => do
      let x ← left.evaluate
      let y ← right.evaluate
      return op.apply x y
  | negate inner => do
      let x ← inner.evaluate
      return -x
  | factorial inner => do
      let x ← inner.evaluate
      return Calculator.factorial x
  | call name args => do
      let values ← evaluateAll args
      Builtin.callByName name values

/-- The values of the expressions of a list, from left to right. -/
def evaluateAll : List Expr → Logging (List Float)
  | [] => return []
  | e :: es => do
      let x ← e.evaluate
      let xs ← evaluateAll es
      return x :: xs

end

/-- The value of an expression, without the log. -/
def value (e : Expr) : Float := (e.evaluate.run #[]).1

end Expr

end Calculator
