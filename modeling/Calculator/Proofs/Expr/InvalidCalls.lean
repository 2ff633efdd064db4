import Mathlib.Data.List.Forall2
import Calculator.Proofs.Expr.Warnings

/-!
# Calls without a value

A tree that was not read from a text may call functions that do not exist, or with too few or too
many arguments, anywhere and at any depth. Such calls are the invalid ones. Evaluating the tree says
so in the log once for each invalid call, in the order in which the calls are evaluated, and says
nothing else; the value of an invalid call is not-a-number, and that of every other call is the
value of its function at the values of its arguments.

## Main definitions

* `Calculator.Builtin.Gives`: a function takes as many arguments as there are, and gives a value for
  them.
* `Calculator.Expr.isInvalidCall`: a tree is a call that names no function, or has another number of
  arguments than its function takes.
* `Calculator.Expr.WarnsOf`: a record is the warning for a call.

## Main results

* `Calculator.Builtin.call_eq_some_iff`: a function is called exactly as its real function says.
* `Calculator.Expr.forall₂_warnsOf`: there is one warning for each invalid call, in order.
* `Calculator.Expr.warnings_isInfix`: the warnings of a part of a tree stand next to each other.
* `Calculator.Expr.invalid_calls_are_logged`: what the evaluation of a tree writes to the log, and
  what its calls evaluate to.
-/

namespace Calculator

/-! ### Values of functions -/

namespace Builtin

/-- `b.Gives args value`: the function `b` takes as many arguments as there are, and gives `value`
for them. -/
inductive Gives (b : Builtin) : List Float → Float → Prop
  | unary {f : Float → Float} (hf : b.function = .unary f) (x : Float) : b.Gives [x] (f x)
  | binary {f : Float → Float → Float} (hf : b.function = .binary f) (x y : Float) :
      b.Gives [x, y] (f x y)

/-- A function is called exactly as its real function says. -/
theorem call_eq_some_iff {b : Builtin} {args : List Float} {value : Float} :
    b.call args = some value ↔ b.Gives args value := by
  rw [call.eq_def]
  constructor
  · intro h
    split at h
    next f x hf =>
      cases h
      exact .unary hf x
    next f x y hf =>
      cases h
      exact .binary hf x y
    next => cases h
  · rintro (⟨hf, x⟩ | ⟨hf, x, y⟩) <;> rw [hf]

end Builtin

namespace Expr

open Log

/-- Whether a tree is a call that names no function, or has another number of arguments than its
function takes. -/
def isInvalidCall : Expr → Bool
  | call name args => !(Builtin.lookup name).any fun builtin => args.length == builtin.arity
  | _ => false

/-- The record warns of the call: that its function is unknown, however many arguments it has, or
how many arguments the function takes and how many there are. -/
inductive WarnsOf : Expr → Record → Prop
  | unknown {name : String} {args : List Expr} {record : Record}
      (hname : Builtin.lookup name = none) (hlevel : record.level = .warn)
      (hmessage : record.message = "call to unknown function '" ++ name ++ "' evaluated to NaN") :
      WarnsOf (call name args) record
  | count {name : String} {args : List Expr} {builtin : Builtin} {record : Record}
      (hname : Builtin.lookup name = some builtin) (hlength : args.length ≠ builtin.arity)
      (hlevel : record.level = .warn)
      (hmessage : record.message = "'" ++ name ++ "' takes " ++ toString builtin.arity ++
        " argument(s) but was called with " ++ toString args.length) :
      WarnsOf (call name args) record

section

variable {e node : Expr} {name : String} {args : List Expr}

theorem isInvalidCall_call_eq_false_iff : (call name args).isInvalidCall = false ↔
    ∃ builtin, Builtin.lookup name = some builtin ∧ args.length = builtin.arity := by
  rw [isInvalidCall]
  cases Builtin.lookup name <;> simp

/-! ### One warning for each invalid call -/

/-- The log says something about a node exactly if it is an invalid call. -/
theorem warning?_eq_none_iff : node.warning? = none ↔ node.isInvalidCall = false := by
  cases node with
  | call name args =>
    rw [isInvalidCall_call_eq_false_iff]
    exact Builtin.warning?_eq_none_iff
  | _ => exact iff_of_true rfl rfl

theorem warnsOf_of_warning? {record : Record} (h : node.warning? = some record) :
    WarnsOf node record := by
  cases node with
  | call name args =>
    rw [warning?, Builtin.warning?] at h
    cases hname : Builtin.lookup name with
    | none =>
      rw [hname] at h
      obtain rfl := Option.some.inj h
      exact .unknown hname rfl rfl
    | some builtin =>
      simp only [hname] at h
      by_cases hlength : args.length = builtin.arity
      · rw [if_pos hlength] at h
        cases h
      · rw [if_neg hlength] at h
        obtain rfl := Option.some.inj h
        exact .count hname hlength rfl rfl
  | _ => cases h

theorem forall₂_filterMap_warning? (nodes : List Expr) :
    List.Forall₂ WarnsOf (nodes.filter isInvalidCall) (nodes.filterMap warning?) := by
  induction nodes with
  | nil => exact .nil
  | cons node nodes ih =>
    cases hwarning : node.warning? with
    | none =>
      rw [List.filterMap_cons_none hwarning,
        List.filter_cons_of_neg (by rw [warning?_eq_none_iff.1 hwarning]; exact Bool.false_ne_true)]
      exact ih
    | some record =>
      have hinvalid : node.isInvalidCall = true := by
        rw [← Bool.not_eq_false, ← warning?_eq_none_iff, hwarning]
        exact Option.some_ne_none record
      rw [List.filterMap_cons_some hwarning, List.filter_cons_of_pos hinvalid]
      exact .cons (warnsOf_of_warning? hwarning) ih

/-- There is one warning for each invalid call of a tree, in the order of evaluation. -/
theorem forall₂_warnsOf (e : Expr) :
    List.Forall₂ WarnsOf (e.nodes.filter isInvalidCall) e.warnings :=
  forall₂_filterMap_warning? e.nodes

/-! ### The order of the warnings -/

theorem nodesOfAll_eq_flatMap : (es : List Expr) → nodesOfAll es = es.flatMap nodes
  | [] => rfl
  | e :: es => by rw [nodesOfAll, nodesOfAll_eq_flatMap es, List.flatMap_cons]

/-- The warnings of a call are those of its arguments, from left to right, and then its own. -/
theorem warnings_call_eq_flatMap (name : String) (args : List Expr) :
    (call name args).warnings =
      args.flatMap warnings ++ (Builtin.warning? name args.length).toList := by
  rw [warnings_call, nodesOfAll_eq_flatMap, List.filterMap_flatMap]
  rfl

theorem nodes_isInfix_nodesOfAll {es : List Expr} (h : e ∈ es) :
    e.nodes <:+: nodesOfAll es := by
  obtain ⟨before, after, rfl⟩ := List.append_of_mem h
  rw [nodesOfAll_eq_flatMap, List.flatMap_append, List.flatMap_cons, ← List.append_assoc]
  exact List.infix_append _ _ _

/-- The nodes of a part of a tree stand next to each other. -/
theorem nodes_isInfix (h : node ∈ e.nodes) : node.nodes <:+: e.nodes := by
  induction e using inductionOn with
  | number value =>
    obtain rfl := List.mem_singleton.1 h
    exact List.infix_rfl
  | binary op left right hleft hright =>
    simp only [nodes, List.mem_append, List.mem_singleton] at h
    rcases h with (hmem | hmem) | rfl
    · exact (hleft hmem).trans ((List.prefix_append _ _).trans (List.prefix_append _ _)).isInfix
    · exact (hright hmem).trans (List.infix_append _ _ _)
    · exact List.infix_rfl
  | negate inner ih =>
    simp only [nodes, List.mem_append, List.mem_singleton] at h
    rcases h with hmem | rfl
    · exact (ih hmem).trans (List.prefix_append _ _).isInfix
    · exact List.infix_rfl
  | factorial inner ih =>
    simp only [nodes, List.mem_append, List.mem_singleton] at h
    rcases h with hmem | rfl
    · exact (ih hmem).trans (List.prefix_append _ _).isInfix
    · exact List.infix_rfl
  | call name args ih =>
    simp only [nodes, List.mem_append, List.mem_singleton, mem_nodesOfAll] at h
    rcases h with ⟨arg, harg, hmem⟩ | rfl
    · exact ((ih arg harg hmem).trans (nodes_isInfix_nodesOfAll harg)).trans
        (List.prefix_append _ _).isInfix
    · exact List.infix_rfl

/-- The warnings of a part of a tree stand next to each other. -/
theorem warnings_isInfix (h : node ∈ e.nodes) : node.warnings <:+: e.warnings :=
  (nodes_isInfix h).filterMap warning?

/-! ### Values of calls -/

/-- An invalid call has no value. -/
theorem value_of_isInvalidCall (h : (call name args).isInvalidCall = true) :
    (call name args).value = Elementary.nan := by
  rw [value_call, Builtin.result]
  cases hname : Builtin.lookup name with
  | none => rfl
  | some builtin =>
    have hcall : ¬(builtin.call (args.map value)).isSome = true := by
      rw [Builtin.isSome_call_iff, List.length_map]
      intro hlength
      rw [isInvalidCall_call_eq_false_iff.2 ⟨builtin, hname, hlength⟩] at h
      cases h
    rw [Option.bind_some, Option.not_isSome_iff_eq_none.1 hcall, Option.getD_none]

/-- Every other call has the value of its function at the values of its arguments. -/
theorem value_of_not_isInvalidCall (h : (call name args).isInvalidCall = false) :
    ∃ builtin, Builtin.lookup name = some builtin ∧
      builtin.Gives (args.map value) (call name args).value := by
  obtain ⟨builtin, hname, hlength⟩ := isInvalidCall_call_eq_false_iff.1 h
  exact ⟨builtin, hname, Builtin.call_eq_some_iff.1 (call_map_value hname hlength)⟩

end

/-- Evaluating any tree appends its warnings to the log and nothing else: one for each invalid call,
in the order of evaluation. In it the warnings of a call are those of its arguments, from left to
right, and then its own. An invalid call has the value not-a-number, and every other call that which
its function gives for the values of its arguments. -/
theorem invalid_calls_are_logged (e : Expr) :
    (∀ log, e.evaluate.run log = (e.value, log ++ e.warnings)) ∧
      List.Forall₂ WarnsOf (e.nodes.filter isInvalidCall) e.warnings ∧
      ∀ name args, call name args ∈ e.nodes →
        args.flatMap warnings ++ (call name args).warning?.toList <:+: e.warnings ∧
          ((call name args).isInvalidCall = true → (call name args).value = Elementary.nan) ∧
          ((call name args).isInvalidCall = false → ∃ builtin, Builtin.lookup name = some builtin ∧
            builtin.Gives (args.map value) (call name args).value) := by
  refine ⟨e.emits_evaluate, e.forall₂_warnsOf, fun name args hmem => ⟨?_, ?_, ?_⟩⟩
  · have hinfix := warnings_isInfix hmem
    rwa [warnings_call_eq_flatMap] at hinfix
  · exact value_of_isInvalidCall
  · exact value_of_not_isInvalidCall

/-- In `max(nope(sqrt()), 2)` the call of `sqrt` has too few arguments, and `nope` is no function.
Both calls evaluate to not-a-number, and so does the whole. -/
theorem invalid_calls_are_logged_nested :
    (call "max" [call "nope" [call "sqrt" []], number 2]).evaluate.run #[] =
        (Elementary.nan, #[.argumentCount "sqrt" 1 0, .unknownFunction "nope"]) ∧
      call "nope" [call "sqrt" []] ∈
        (call "max" [call "nope" [call "sqrt" []], number 2]).nodes ∧
      (call "nope" [call "sqrt" []]).isInvalidCall = true ∧
      (call "nope" [call "sqrt" []]).value = Elementary.nan ∧
      (call "max" [call "nope" [call "sqrt" []], number 2]).isInvalidCall = false ∧
      ∃ builtin, Builtin.lookup "max" = some builtin ∧
        builtin.Gives [Elementary.nan, 2] Elementary.nan := by
  obtain ⟨hrun, _, hcalls⟩ :=
    invalid_calls_are_logged (call "max" [call "nope" [call "sqrt" []], number 2])
  have hmem : call "nope" [call "sqrt" []] ∈
      (call "max" [call "nope" [call "sqrt" []], number 2]).nodes := by simp
  have hself : call "max" [call "nope" [call "sqrt" []], number 2] ∈
      (call "max" [call "nope" [call "sqrt" []], number 2]).nodes := by simp
  have hinvalid : (call "nope" [call "sqrt" []]).isInvalidCall = true := by decide
  have hvalid : (call "max" [call "nope" [call "sqrt" []], number 2]).isInvalidCall = false := by
    decide
  have hnope : (call "nope" [call "sqrt" []]).value = Elementary.nan :=
    (hcalls _ _ hmem).2.1 hinvalid
  have hmax : (call "max" [call "nope" [call "sqrt" []], number 2]).value = Elementary.nan := by
    rw [value_call, List.map_cons, List.map_singleton, hnope]
    decide +kernel
  obtain ⟨builtin, hname, hcall⟩ := (hcalls _ _ hself).2.2 hvalid
  rw [List.map_cons, List.map_singleton, hnope, hmax] at hcall
  exact ⟨by rw [hrun, hmax]; rfl, hmem, hinvalid, hnope, hvalid, builtin, hname, hcall⟩

end Expr

end Calculator
