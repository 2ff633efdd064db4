import Calculator.Error

/-!
# Limits on nesting and on height

Reading an expression keeps count of what encloses the place that is being read: groups, argument
lists and negations together, and parentheses among them. Both the nesting and the height of the
tree are bounded, so that neither reading an expression nor walking its tree recurses further than
the limits allow, whatever the input.

## Main definitions

* `Calculator.Nesting`: what encloses a place.
* `Calculator.Nesting.deeper`, `Calculator.Nesting.parenthesized`: the nesting one level further in.
* `Calculator.boundedHeight`: refuses a tree that is too high.

## Main results

* `Calculator.Nesting.deeper_eq_ok_iff`, `Calculator.Nesting.parenthesized_eq_ok_iff`: when a
  further level is allowed, and which nesting it has.
-/

namespace Calculator

/-- How many groups, argument lists and negations may enclose a place. -/
def nestingLimit : Nat := 128

/-- How high a tree may be. -/
def heightLimit : Nat := 4096

/-- What encloses a place in an expression. -/
structure Nesting where
  /-- How many groups, argument lists and negations enclose the place. -/
  depth : Nat
  /-- How many of them are parentheses. -/
  parens : Nat
deriving DecidableEq, Repr

namespace Nesting

/-- The nesting of a whole expression, which nothing encloses. -/
def outermost : Nesting := ⟨0, 0⟩

instance : Inhabited Nesting := ⟨outermost⟩

/-- The nesting behind a negation at `position`. -/
def deeper (n : Nesting) (position : Nat) : Except ParseError Nesting :=
  if n.depth < nestingLimit then .ok ⟨n.depth + 1, n.parens⟩ else .error (.tooDeep position)

/-- The nesting behind an opening parenthesis at `position`. -/
def parenthesized (n : Nesting) (position : Nat) : Except ParseError Nesting :=
  (n.deeper position).map fun inner => ⟨inner.depth, inner.parens + 1⟩

/-- Whether some parenthesis is open. -/
def isParenthesized (n : Nesting) : Bool := 0 < n.parens

theorem deeper_eq_ok_iff {n m : Nesting} {position : Nat} :
    n.deeper position = .ok m ↔ n.depth < nestingLimit ∧ m = ⟨n.depth + 1, n.parens⟩ := by
  by_cases h : n.depth < nestingLimit <;> simp [deeper, h, eq_comm]

theorem parenthesized_eq_ok_iff {n m : Nesting} {position : Nat} :
    n.parenthesized position = .ok m ↔
      n.depth < nestingLimit ∧ m = ⟨n.depth + 1, n.parens + 1⟩ := by
  by_cases h : n.depth < nestingLimit <;> simp [parenthesized, deeper, Except.map, h, eq_comm]

/-- A level further in leaves fewer levels to go. -/
theorem room_lt_of_deeper {n m : Nesting} {position : Nat} (h : n.deeper position = .ok m) :
    nestingLimit - m.depth < nestingLimit - n.depth := by
  obtain ⟨hlt, rfl⟩ := deeper_eq_ok_iff.1 h
  simp only
  omega

/-- A parenthesis further in leaves fewer levels to go. -/
theorem room_lt_of_parenthesized {n m : Nesting} {position : Nat}
    (h : n.parenthesized position = .ok m) : nestingLimit - m.depth < nestingLimit - n.depth := by
  obtain ⟨hlt, rfl⟩ := parenthesized_eq_ok_iff.1 h
  simp only
  omega

end Nesting

/-- The height of a tree whose root stands at `position`, unless it is above the limit. -/
def boundedHeight (height position : Nat) : Except ParseError Nat :=
  if height ≤ heightLimit then .ok height else .error (.tooDeep position)

end Calculator
