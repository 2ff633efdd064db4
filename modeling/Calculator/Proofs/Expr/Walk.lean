import Calculator.Expr.Evaluation

/-!
# Walks over a tree

Evaluating a tree, writing it and counting its nodes are walks: what is computed for a tree depends
on its root and on what has been computed for the subtrees below the root. A walk that may go down
only so many levels gives up where it would have to go further, which it has to do exactly if the
tree is higher than that.

## Main definitions

* `Calculator.Walk`: what is computed at the root of a tree.
* `Calculator.Walk.runWithin`: a walk that goes down a bounded number of levels.
* `Calculator.Walk.evaluation`, `Calculator.Walk.printing`, `Calculator.Walk.counting`: the walks
  that evaluate, write and count.

## Main results

* `Calculator.Walk.Computes.runWithin_eq`: a walk gives up exactly on the trees that are higher
  than the number of levels.
* `Calculator.Walk.computes_evaluation`, `Calculator.Walk.computes_printing`,
  `Calculator.Walk.computes_counting`: what these walks compute.
-/

namespace Calculator

/-- What is computed at the root of a tree, from what has been computed below it. -/
structure Walk (α : Type) where
  number : Float → α
  binary : BinaryOperator → α → α → α
  negate : α → α
  factorial : α → α
  call : String → List α → α

namespace Walk

variable {α : Type}

/-- The walk `w` over a tree, with fuel that is one less at each level further down. It gives up at
a root for which no fuel is left. -/
def runWithin (w : Walk α) : Nat → Expr → Option α
  | 0, _ => none
  | _ + 1, .number value => some (w.number value)
  | fuel + 1, .binary op left right => do
      let x ← w.runWithin fuel left
      let y ← w.runWithin fuel right
      return w.binary op x y
  | fuel + 1, .negate inner => (w.runWithin fuel inner).map w.negate
  | fuel + 1, .factorial inner => (w.runWithin fuel inner).map w.factorial
  | fuel + 1, .call name args => (args.mapM (w.runWithin fuel)).map (w.call name)

/-- The walk `w` computes the function `f`. -/
structure Computes (w : Walk α) (f : Expr → α) : Prop where
  number : ∀ value, f (.number value) = w.number value
  binary : ∀ op left right, f (.binary op left right) = w.binary op (f left) (f right)
  negate : ∀ inner, f (.negate inner) = w.negate (f inner)
  factorial : ∀ inner, f (.factorial inner) = w.factorial (f inner)
  call : ∀ name args, f (.call name args) = w.call name (args.map f)

/-- A list is walked over if there is fuel for the highest of its trees. -/
theorem mapM_ite_height (f : Expr → α) (fuel : Nat) :
    (es : List Expr) → (es.mapM fun e => if e.height ≤ fuel then some (f e) else none) =
      if Expr.tallest es ≤ fuel then some (es.map f) else none
  | [] => by simp [Expr.tallest]
  | e :: es => by
      simp only [List.mapM_cons, mapM_ite_height f fuel es, Expr.tallest, Nat.max_le]
      by_cases he : e.height ≤ fuel <;> by_cases hes : Expr.tallest es ≤ fuel <;> simp [he, hes]

/-- A walk gives up exactly on the trees that are higher than there is fuel. -/
theorem Computes.runWithin_eq {w : Walk α} {f : Expr → α} (h : w.Computes f) (fuel : Nat)
    (e : Expr) : w.runWithin fuel e = if e.height ≤ fuel then some (f e) else none := by
  induction fuel generalizing e with
  | zero => rw [runWithin, if_neg (Nat.not_le.2 e.height_pos)]
  | succ fuel ih =>
    cases e with
    | number value => simp [runWithin, Expr.height, h.number]
    | binary op left right =>
      simp only [runWithin, ih, Expr.height, h.binary, Nat.add_le_add_iff_right, Nat.max_le]
      by_cases hleft : left.height ≤ fuel <;> by_cases hright : right.height ≤ fuel <;>
        simp [hleft, hright]
    | negate inner =>
      simp only [runWithin, ih, Expr.height, h.negate, Nat.add_le_add_iff_right]
      split <;> rfl
    | factorial inner =>
      simp only [runWithin, ih, Expr.height, h.factorial, Nat.add_le_add_iff_right]
      split <;> rfl
    | call name args =>
      simp only [runWithin, funext ih, mapM_ite_height, Expr.height, h.call,
        Nat.add_le_add_iff_right]
      split <;> rfl

/-! ### Evaluating, writing and counting -/

/-- Evaluates a tree, with the log of its evaluation. -/
def evaluation : Walk (Logging Float) where
  number value := return value
  binary op left right := do
    let x ← left
    let y ← right
    return op.apply x y
  negate inner := do
    let x ← inner
    return -x
  factorial inner := do
    let x ← inner
    return Calculator.factorial x
  call name args := do
    let values ← args.mapM id
    Builtin.callByName name values

/-- Writes a tree. -/
def printing : Walk String where
  number := Number.text
  binary op left right := "(" ++ left ++ " " ++ op.text ++ " " ++ right ++ ")"
  negate inner := "(-" ++ inner ++ ")"
  factorial inner := "(" ++ inner ++ ")!"
  call name args := name ++ "(" ++ ", ".intercalate args ++ ")"

/-- Counts the nodes of a tree. -/
def counting : Walk Nat where
  number _ := 1
  binary _ left right := 1 + left + right
  negate inner := 1 + inner
  factorial inner := 1 + inner
  call _ args := 1 + args.foldr (· + ·) 0

theorem evaluateAll_eq_mapM : (es : List Expr) →
    Expr.evaluateAll es = (es.map Expr.evaluate).mapM id
  | [] => rfl
  | e :: es => by
      rw [Expr.evaluateAll, evaluateAll_eq_mapM es, List.map_cons, List.mapM_cons]
      rfl

theorem argumentsText_eq_intercalate : (es : List Expr) →
    Expr.argumentsText es = ", ".intercalate (es.map Expr.text)
  | [] => by rw [Expr.argumentsText, List.map_nil, String.intercalate_nil]
  | [e] => by rw [Expr.argumentsText, List.map_singleton, String.intercalate_singleton]
  | e :: e' :: es => by
      rw [Expr.argumentsText, argumentsText_eq_intercalate (e' :: es)]
      exact String.intercalate_cons_cons.symm

theorem totalNodeCount_eq_foldr : (es : List Expr) →
    Expr.totalNodeCount es = (es.map Expr.nodeCount).foldr (· + ·) 0
  | [] => rfl
  | e :: es => by
      rw [Expr.totalNodeCount, totalNodeCount_eq_foldr es, List.map_cons, List.foldr_cons]

theorem computes_evaluation : evaluation.Computes Expr.evaluate where
  number _ := by rw [Expr.evaluate, evaluation]
  binary _ _ _ := by rw [Expr.evaluate, evaluation]
  negate _ := by rw [Expr.evaluate, evaluation]
  factorial _ := by rw [Expr.evaluate, evaluation]
  call _ args := by rw [Expr.evaluate, evaluateAll_eq_mapM, evaluation]

theorem computes_printing : printing.Computes Expr.text where
  number _ := by rw [Expr.text, printing]
  binary _ _ _ := by rw [Expr.text, printing]
  negate _ := by rw [Expr.text, printing]
  factorial _ := by rw [Expr.text, printing]
  call _ args := by rw [Expr.text, argumentsText_eq_intercalate, printing]

theorem computes_counting : counting.Computes Expr.nodeCount where
  number _ := by rw [Expr.nodeCount, counting]
  binary _ _ _ := by rw [Expr.nodeCount, counting]
  negate _ := by rw [Expr.nodeCount, counting]
  factorial _ := by rw [Expr.nodeCount, counting]
  call _ args := by rw [Expr.nodeCount, totalNodeCount_eq_foldr, counting]

end Walk

end Calculator
