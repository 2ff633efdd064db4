import Calculator.Builtin
import Calculator.Expr

/-!
# The nodes of a tree

A tree is spoken of through its nodes: that all its numbers are finite, or that all its calls have
the right number of arguments, is a statement about every node. The nodes are listed from left to
right, the operands of an operation before the operation, which is the order of evaluation.

## Main definitions

* `Calculator.Expr.nodes`: the subtrees at all nodes of a tree.
* `Calculator.Expr.HasValidCalls`: every call names a function and has as many arguments as that
  function takes.
* `Calculator.Expr.HasFiniteNumbers`: all numbers are finite.

## Main results

* `Calculator.Expr.inductionOn`: induction on a tree, for all arguments of a call at once.
* `Calculator.Expr.hasValidCalls_call_iff`: the calls of a call are itself and those of its
  arguments.
* `Calculator.Expr.tallest_le_iff`: a bound on the tallest of a list of trees bounds each of them.
* `Calculator.Expr.height_le_of_mem_nodes`: no tree at a node is higher than the whole.
-/

namespace Calculator.Expr

section

variable {motive : Expr → Prop} (number : ∀ value, motive (number value))
  (binary : ∀ op left right, motive left → motive right → motive (binary op left right))
  (negate : ∀ inner, motive inner → motive (negate inner))
  (factorial : ∀ inner, motive inner → motive (factorial inner))
  (call : ∀ name args, (∀ e ∈ args, motive e) → motive (call name args))

include number binary negate factorial call

/-- Induction on a tree. A property of a call may be derived from that property of all its
arguments. -/
@[elab_as_elim]
theorem inductionOn : (e : Expr) → motive e
  | .number value => number value
  | .binary op left right => binary op left right (inductionOn left) (inductionOn right)
  | .negate inner => negate inner (inductionOn inner)
  | .factorial inner => factorial inner (inductionOn inner)
  | .call name args => call name args fun e _ => inductionOn e

end

mutual

/-- The subtrees at all nodes of a tree, from left to right, each behind its operands. -/
def nodes : Expr → List Expr
  | number value => [number value]
  | binary op left right => left.nodes ++ right.nodes ++ [binary op left right]
  | negate inner => inner.nodes ++ [negate inner]
  | factorial inner => inner.nodes ++ [factorial inner]
  | call name args => nodesOfAll args ++ [call name args]

/-- The subtrees at all nodes of the trees of a list. -/
def nodesOfAll : List Expr → List Expr
  | [] => []
  | e :: es => e.nodes ++ nodesOfAll es

end

attribute [simp] nodes nodesOfAll

theorem mem_nodesOfAll {node : Expr} :
    (es : List Expr) → (node ∈ nodesOfAll es ↔ ∃ e ∈ es, node ∈ e.nodes)
  | [] => by simp
  | e :: es => by simp [mem_nodesOfAll es]

/-- Every call of a tree names a function and has as many arguments as the function takes. -/
def HasValidCalls (e : Expr) : Prop :=
  ∀ name args, call name args ∈ e.nodes →
    ∃ builtin, Builtin.lookup name = some builtin ∧ args.length = builtin.arity

@[simp] theorem hasValidCalls_number (value : Float) : (number value).HasValidCalls := by
  simp [HasValidCalls]

@[simp] theorem hasValidCalls_binary_iff {op : BinaryOperator} {left right : Expr} :
    (binary op left right).HasValidCalls ↔ left.HasValidCalls ∧ right.HasValidCalls := by
  simp only [HasValidCalls, nodes, List.mem_append, List.mem_singleton, reduceCtorEq, or_false]
  constructor
  · intro h
    exact ⟨fun name args hmem => h name args (.inl hmem),
      fun name args hmem => h name args (.inr hmem)⟩
  · rintro ⟨hleft, hright⟩ name args (hmem | hmem)
    · exact hleft name args hmem
    · exact hright name args hmem

@[simp] theorem hasValidCalls_negate_iff {inner : Expr} :
    (negate inner).HasValidCalls ↔ inner.HasValidCalls := by
  simp [HasValidCalls]

@[simp] theorem hasValidCalls_factorial_iff {inner : Expr} :
    (factorial inner).HasValidCalls ↔ inner.HasValidCalls := by
  simp [HasValidCalls]

/-- The calls of a call are the call itself and those of its arguments. -/
theorem hasValidCalls_call_iff {name : String} {args : List Expr} :
    (call name args).HasValidCalls ↔
      (∃ builtin, Builtin.lookup name = some builtin ∧ args.length = builtin.arity) ∧
        ∀ e ∈ args, e.HasValidCalls := by
  simp only [HasValidCalls, nodes, List.mem_append, List.mem_singleton, mem_nodesOfAll]
  constructor
  · intro h
    exact ⟨h name args (.inr rfl), fun e he name' args' hmem => h name' args' (.inl ⟨e, he, hmem⟩)⟩
  · rintro ⟨hcall, hargs⟩ name' args' (⟨e, he, hmem⟩ | hself)
    · exact hargs e he name' args' hmem
    · obtain ⟨rfl, rfl⟩ := call.inj hself
      exact hcall

/-- All numbers of a tree are finite. -/
def HasFiniteNumbers (e : Expr) : Prop := ∀ value, number value ∈ e.nodes → value.isFinite = true

@[simp] theorem hasFiniteNumbers_number_iff {value : Float} :
    (number value).HasFiniteNumbers ↔ value.isFinite = true := by
  simp [HasFiniteNumbers]

@[simp] theorem hasFiniteNumbers_binary_iff {op : BinaryOperator} {left right : Expr} :
    (binary op left right).HasFiniteNumbers ↔
      left.HasFiniteNumbers ∧ right.HasFiniteNumbers := by
  simp [HasFiniteNumbers, or_imp, forall_and]

@[simp] theorem hasFiniteNumbers_negate_iff {inner : Expr} :
    (negate inner).HasFiniteNumbers ↔ inner.HasFiniteNumbers := by
  simp [HasFiniteNumbers]

@[simp] theorem hasFiniteNumbers_factorial_iff {inner : Expr} :
    (factorial inner).HasFiniteNumbers ↔ inner.HasFiniteNumbers := by
  simp [HasFiniteNumbers]

@[simp] theorem hasFiniteNumbers_call_iff {name : String} {args : List Expr} :
    (call name args).HasFiniteNumbers ↔ ∀ e ∈ args, e.HasFiniteNumbers := by
  simp only [HasFiniteNumbers, nodes, List.mem_append, List.mem_singleton, reduceCtorEq, or_false,
    mem_nodesOfAll]
  exact ⟨fun h e he value hmem => h value ⟨e, he, hmem⟩,
    fun h value ⟨e, he, hmem⟩ => h e he value hmem⟩

/-! ### Heights of lists of trees -/

/-- A bound on the tallest of a list of trees bounds each of them. -/
theorem tallest_le_iff {k : Nat} :
    (es : List Expr) → (tallest es ≤ k ↔ ∀ e ∈ es, e.height ≤ k)
  | [] => by simp [tallest]
  | e :: es => by rw [tallest, Nat.max_le, tallest_le_iff es, List.forall_mem_cons]

/-- The greatest of the heights of a list of trees is the height of the tallest. -/
theorem foldl_max_height (es : List Expr) (k : Nat) :
    (es.map height).foldl max k = max k (tallest es) := by
  induction es generalizing k with
  | nil => simp [tallest]
  | cons e es ih => rw [List.map_cons, List.foldl_cons, ih, tallest, Nat.max_assoc]

/-- No tree at a node is higher than the whole. -/
theorem height_le_of_mem_nodes {e node : Expr} (h : node ∈ e.nodes) : node.height ≤ e.height := by
  induction e using inductionOn with
  | number value =>
    rw [nodes, List.mem_singleton] at h
    exact Nat.le_of_eq (congrArg height h)
  | binary op left right hleft hright =>
    simp only [nodes, List.mem_append, List.mem_singleton] at h
    rcases h with (hmem | hmem) | rfl
    · exact Nat.le_succ_of_le (Nat.le_trans (hleft hmem) (Nat.le_max_left _ _))
    · exact Nat.le_succ_of_le (Nat.le_trans (hright hmem) (Nat.le_max_right _ _))
    · exact Nat.le_refl _
  | negate inner ih =>
    simp only [nodes, List.mem_append, List.mem_singleton] at h
    rcases h with hmem | rfl
    · exact Nat.le_succ_of_le (ih hmem)
    · exact Nat.le_refl _
  | factorial inner ih =>
    simp only [nodes, List.mem_append, List.mem_singleton] at h
    rcases h with hmem | rfl
    · exact Nat.le_succ_of_le (ih hmem)
    · exact Nat.le_refl _
  | call name args ih =>
    simp only [nodes, List.mem_append, List.mem_singleton, mem_nodesOfAll] at h
    rcases h with ⟨arg, harg, hmem⟩ | rfl
    · have hle := (tallest_le_iff args).1 (Nat.le_refl _) arg harg
      exact Nat.le_succ_of_le (Nat.le_trans (ih arg harg hmem) hle)
    · exact Nat.le_refl _

end Calculator.Expr
