import Calculator.Builtin.Elementary

/-!
# Built-in functions

The functions that an expression can call by name, each with one or two arguments.

## Main definitions

* `Calculator.RealFunction`: a real function of one or of two arguments.
* `Calculator.Builtin`: a named function; `Calculator.Builtin.table` lists them all.
* `Calculator.Builtin.lookup`: the function of a given name.
* `Calculator.Builtin.call`: its value at a list of arguments, if their number is right.

## Main results

* `Calculator.Builtin.isSome_call_iff`: a call has a value exactly if the number of arguments is the
  arity.
-/

namespace Calculator

/-- A real function of one or of two arguments. -/
inductive RealFunction
  | unary (f : Float → Float)
  | binary (f : Float → Float → Float)

/-- A function that can be called by name. -/
structure Builtin where
  /-- The name in expressions. -/
  name : String
  /-- What it computes. -/
  function : RealFunction

namespace Builtin

open Elementary

/-- How many arguments a function takes. -/
def arity (b : Builtin) : Nat :=
  match b.function with
  | .unary _ => 1
  | .binary _ => 2

/-- The value of a function at a list of arguments, if their number is right. -/
def call (b : Builtin) (args : List Float) : Option Float :=
  match b.function, args with
  | .unary f, [x] => some (f x)
  | .binary f, [x, y] => some (f x y)
  | _, _ => none

/-- All functions, in the order in which they are listed to a reader. -/
def table : List Builtin :=
  [⟨"sqrt", .unary Float.sqrt⟩,
    ⟨"cbrt", .unary Float.cbrt⟩,
    ⟨"sin", .unary Float.sin⟩,
    ⟨"cos", .unary Float.cos⟩,
    ⟨"tan", .unary Float.tan⟩,
    ⟨"asin", .unary Float.asin⟩,
    ⟨"acos", .unary Float.acos⟩,
    ⟨"atan", .unary Float.atan⟩,
    ⟨"sinh", .unary Float.sinh⟩,
    ⟨"cosh", .unary Float.cosh⟩,
    ⟨"tanh", .unary Float.tanh⟩,
    ⟨"exp", .unary Float.exp⟩,
    ⟨"expm1", .unary expMinusOne⟩,
    ⟨"ln", .unary Float.log⟩,
    ⟨"log", .unary Float.log⟩,
    ⟨"log10", .unary Float.log10⟩,
    ⟨"log2", .unary Float.log2⟩,
    ⟨"log1p", .unary logOnePlus⟩,
    ⟨"abs", .unary Float.abs⟩,
    ⟨"floor", .unary Float.floor⟩,
    ⟨"ceil", .unary Float.ceil⟩,
    ⟨"round", .unary Float.round⟩,
    ⟨"trunc", .unary Binary64.trunc⟩,
    ⟨"sign", .unary sign⟩,
    ⟨"radians", .unary radians⟩,
    ⟨"degrees", .unary degrees⟩,
    ⟨"pow", .binary Float.pow⟩,
    ⟨"atan2", .binary Float.atan2⟩,
    ⟨"hypot", .binary hypotenuse⟩,
    ⟨"min", .binary least⟩,
    ⟨"max", .binary greatest⟩]

/-- The function of a given name. -/
def lookup (name : String) : Option Builtin :=
  table.find? fun b => b.name == name

/-- A call has a value exactly if the number of arguments is the arity of the function. -/
theorem isSome_call_iff (b : Builtin) (args : List Float) :
    (b.call args).isSome ↔ args.length = b.arity := by
  obtain ⟨name, function⟩ := b
  cases function <;> rcases args with _ | ⟨x, _ | ⟨y, _ | ⟨z, zs⟩⟩⟩ <;> simp [call, arity]

/-- Every function takes at least one argument. -/
theorem arity_pos (b : Builtin) : 0 < b.arity := by
  rw [arity]
  split <;> decide

/-- The function found under a name has that name. -/
theorem name_of_lookup {name : String} {b : Builtin} (h : lookup name = some b) :
    b.name = name := by
  simpa using List.find?_some h

end Builtin

end Calculator
