import Calculator.Calculation
import Calculator.Proofs.Expr.Nodes
import Calculator.Proofs.Parsing.Acceptance

/-!
# What the log says about calls

Evaluating a tree appends one record to the log for each call that has no value, behind the records
of its arguments, and no other record. The calls of a tree that has been read from a row of lexemes
all have values, so that its evaluation leaves the log as it was.

## Main definitions

* `Calculator.Log.Emits`: the value of a calculation, and the records that it appends to the log.
* `Calculator.Expr.warnings`: the records of the calls of a tree that have no value.

## Main results

* `Calculator.Expr.emits_evaluate`: the evaluation of a tree appends exactly its warnings.
* `Calculator.Expr.HasValidCalls.warnings_eq_nil`: valid calls have no warnings.
* `Calculator.Expr.calls_have_values`: no call of a tree that has been read goes without a value,
  and no text is evaluated with a warning.
-/

namespace Calculator

/-! ### Calculations and their records -/

namespace Log

/-- Whatever the log holds, the calculation has the given value and appends the given records. -/
def Emits {α : Type} (calculation : Logging α) (value : α) (records : List Record) : Prop :=
  ∀ log, calculation.run log = (value, log ++ records)

section

variable {α β : Type} {m : Logging α} {value : α} {records records' : List Record}

theorem emits_pure (value : α) : Emits (pure value) value [] := by
  intro log
  have hlog : log ++ ([] : List Record) = log := by simp
  rw [hlog]
  rfl

theorem emits_write (record : Record) : Emits (write record) () [record] := fun log => by
  show ((), log.push record) = _
  simp

/-- Two calculations one after the other append their records one after the other. -/
theorem Emits.bind (h : Emits m value records) {f : α → Logging β} {value' : β}
    (hf : Emits (f value) value' records') : Emits (m >>= f) value' (records ++ records') := by
  intro log
  have hrecords : log ++ records ++ records' = log ++ (records ++ records') := by
    apply Array.ext'
    simp
  rw [StateT.run_bind, h log, ← hrecords]
  exact hf (log ++ records)

/-- A calculation that goes on without the log. -/
theorem Emits.map (h : Emits m value records) (f : α → β) :
    Emits (m >>= fun x => pure (f x)) (f value) records := by
  have hpure : Emits (m >>= fun x => pure (f x)) (f value) (records ++ []) :=
    h.bind (emits_pure (f value))
  rwa [List.append_nil] at hpure

end

end Log

open Log

/-! ### Calls -/

namespace Builtin

/-- What the log says about a call of the function `name` with `count` arguments: nothing, if there
is such a function and it takes so many. -/
def warning? (name : String) (count : Nat) : Option Record :=
  match lookup name with
  | none => some (.unknownFunction name)
  | some builtin =>
      if count = builtin.arity then none else some (.argumentCount name builtin.arity count)

theorem warning?_eq_none_iff {name : String} {count : Nat} :
    warning? name count = none ↔ ∃ builtin, lookup name = some builtin ∧ count = builtin.arity := by
  rw [warning?]
  cases lookup name <;> simp

/-- The value of a call at evaluated arguments. It is not-a-number if there is no such function, or
if it takes another number of arguments. -/
def result (name : String) (values : List Float) : Float :=
  ((lookup name).bind fun builtin => builtin.call values).getD Elementary.nan

/-- A function has a value at as many arguments as it takes. -/
theorem exists_call_eq_some {b : Builtin} {values : List Float} (h : values.length = b.arity) :
    ∃ y, b.call values = some y :=
  Option.isSome_iff_exists.1 ((b.isSome_call_iff values).2 h)

/-- A call has its result, and the log says why if that is not the value of a function. -/
theorem emits_callByName (name : String) (values : List Float) :
    Emits (callByName name values) (result name values) (warning? name values.length).toList := by
  rw [callByName, warning?, result]
  cases hlookup : lookup name with
  | none => exact (emits_write _).map fun _ => Elementary.nan
  | some builtin =>
    simp only [Option.bind_some]
    by_cases hlength : values.length = builtin.arity
    · obtain ⟨y, hy⟩ := exists_call_eq_some hlength
      rw [hy, if_pos hlength]
      exact emits_pure y
    · have hnone : builtin.call values = none := by
        rw [← Option.not_isSome_iff_eq_none, isSome_call_iff]
        exact hlength
      rw [hnone, if_neg hlength]
      exact (emits_write _).map fun _ => Elementary.nan

end Builtin

/-! ### Trees -/

namespace Expr

/-- What the log says about the node at the root of a tree. -/
def warning? : Expr → Option Record
  | call name args => Builtin.warning? name args.length
  | _ => none

/-- The records of all calls of a tree that have no value, from left to right, those of the
arguments of a call before its own. -/
def warnings (e : Expr) : List Record := e.nodes.filterMap warning?

@[simp] theorem warnings_binary (op : BinaryOperator) (left right : Expr) :
    (binary op left right).warnings = left.warnings ++ right.warnings := by
  simp [warnings, List.filterMap_cons, warning?]

@[simp] theorem warnings_negate (inner : Expr) : (negate inner).warnings = inner.warnings := by
  simp [warnings, List.filterMap_cons, warning?]

@[simp] theorem warnings_factorial (inner : Expr) :
    (factorial inner).warnings = inner.warnings := by
  simp [warnings, List.filterMap_cons, warning?]

theorem warnings_call (name : String) (args : List Expr) :
    (call name args).warnings =
      (nodesOfAll args).filterMap warning? ++ (Builtin.warning? name args.length).toList := by
  rw [warnings, nodes, List.filterMap_append]
  cases hwarning : Builtin.warning? name args.length <;>
    simp [warning?, hwarning]

/-- What a tree evaluates to is its value. -/
theorem value_eq_of_emits {e : Expr} {x : Float} {records : List Record}
    (h : Emits e.evaluate x records) : e.value = x := congrArg Prod.fst (h #[])

theorem emits_evaluateAll {args : List Expr} (h : ∀ e ∈ args, Emits e.evaluate e.value e.warnings) :
    Emits (evaluateAll args) (args.map value) ((nodesOfAll args).filterMap warning?) := by
  induction args with
  | nil => exact emits_pure []
  | cons e es ih =>
    rw [List.forall_mem_cons] at h
    rw [nodesOfAll, List.filterMap_append]
    exact h.1.bind ((ih h.2).map fun values => e.value :: values)

/-- The value of a call is its result at the values of its arguments. -/
theorem emits_call (name : String) {args : List Expr}
    (h : ∀ e ∈ args, Emits e.evaluate e.value e.warnings) :
    Emits (call name args).evaluate (Builtin.result name (args.map value))
      (call name args).warnings := by
  have hcall := (emits_evaluateAll h).bind (Builtin.emits_callByName name (args.map value))
  rw [List.length_map, ← warnings_call] at hcall
  rwa [evaluate]

/-- The evaluation of a tree appends the warnings of its calls to the log, and nothing else. -/
theorem emits_evaluate (e : Expr) : Emits e.evaluate e.value e.warnings := by
  induction e using inductionOn with
  | number x => exact emits_pure x
  | binary op left right hleft hright =>
    have h : Emits (binary op left right).evaluate (op.apply left.value right.value)
        (left.warnings ++ right.warnings) := hleft.bind (hright.map fun y => op.apply left.value y)
    rwa [value_eq_of_emits h, warnings_binary]
  | negate inner hinner =>
    have h : Emits (negate inner).evaluate (-inner.value) inner.warnings := hinner.map fun x => -x
    rwa [value_eq_of_emits h, warnings_negate]
  | factorial inner hinner =>
    have h : Emits (factorial inner).evaluate (Calculator.factorial inner.value) inner.warnings :=
      hinner.map Calculator.factorial
    rwa [value_eq_of_emits h, warnings_factorial]
  | call name args hargs =>
    have h := emits_call name hargs
    rwa [← value_eq_of_emits h] at h

theorem value_call (name : String) (args : List Expr) :
    (call name args).value = Builtin.result name (args.map value) :=
  value_eq_of_emits (emits_call name fun e _ => emits_evaluate e)

/-- A call of a function with as many arguments as it takes has the value of the function at the
values of its arguments. -/
theorem call_map_value {name : String} {args : List Expr} {builtin : Builtin}
    (hname : Builtin.lookup name = some builtin) (hlength : args.length = builtin.arity) :
    builtin.call (args.map value) = some (call name args).value := by
  have hvalues : (args.map value).length = builtin.arity := by rwa [List.length_map]
  obtain ⟨y, hy⟩ := Builtin.exists_call_eq_some hvalues
  rw [value_call, Builtin.result, hname, Option.bind_some, hy, Option.getD_some]

/-! ### Valid calls -/

/-- Valid calls have no warnings. -/
theorem HasValidCalls.warnings_eq_nil {e : Expr} (h : e.HasValidCalls) : e.warnings = [] := by
  rw [warnings, List.filterMap_eq_nil_iff]
  intro node hnode
  cases node with
  | call name args =>
    obtain ⟨builtin, hlookup, hlength⟩ := h name args hnode
    exact Builtin.warning?_eq_none_iff.2 ⟨builtin, hlookup, hlength⟩
  | _ => rfl

/-- Valid calls have values. -/
theorem HasValidCalls.call_eq_some {e : Expr} (h : e.HasValidCalls) {name : String}
    {args : List Expr} (hmem : call name args ∈ e.nodes) :
    ∃ builtin, Builtin.lookup name = some builtin ∧ args.length = builtin.arity ∧
      builtin.call (args.map value) = some (call name args).value := by
  obtain ⟨builtin, hlookup, hlength⟩ := h name args hmem
  exact ⟨builtin, hlookup, hlength, call_map_value hlookup hlength⟩

/-- The evaluation of a tree with valid calls leaves the log as it was. -/
theorem HasValidCalls.run_evaluate {e : Expr} (h : e.HasValidCalls) (log : Array Record) :
    e.evaluate.run log = (e.value, log) := by
  rw [emits_evaluate e log, h.warnings_eq_nil]
  simp

end Expr

/-! ### Texts -/

namespace Log

/-- Whatever the log holds, the calculation has the given value, and appends no warning to the
log. -/
def EmitsNoWarning {α : Type} (calculation : Logging α) (value : α) : Prop :=
  ∃ records, Emits calculation value records ∧ ∀ record ∈ records, record.level ≠ .warn

section

variable {α β : Type} {m : Logging α} {value : α}

theorem emitsNoWarning_pure (value : α) : EmitsNoWarning (pure value) value :=
  ⟨[], emits_pure value, nofun⟩

/-- A record that is no warning does not become one by what is done behind it. -/
theorem EmitsNoWarning.behind_write {record : Record} (h : record.level ≠ .warn)
    (hm : EmitsNoWarning m value) : EmitsNoWarning (write record >>= fun _ => m) value := by
  obtain ⟨records, hemits, hlevels⟩ := hm
  exact ⟨record :: records, (emits_write record).bind hemits, List.forall_mem_cons.2 ⟨h, hlevels⟩⟩

theorem EmitsNoWarning.bind (h : EmitsNoWarning m value) {f : α → Logging β} {value' : β}
    (hf : EmitsNoWarning (f value) value') : EmitsNoWarning (m >>= f) value' := by
  obtain ⟨records, hemits, hlevels⟩ := h
  obtain ⟨records', hemits', hlevels'⟩ := hf
  exact ⟨records ++ records', hemits.bind hemits', List.forall_mem_append.2 ⟨hlevels, hlevels'⟩⟩

end

end Log

/-- The calls of a tree that has been read are valid. -/
theorem hasValidCalls_of_ofLexemes {ls : List Lexeme} {s : Subtree}
    (h : Expr.ofLexemes ls = .ok s) : s.expr.HasValidCalls := by
  obtain ⟨_, _, _, hvalid, _⟩ := derives_of_ofLexemes_eq_ok h
  exact hvalid

/-- The calls of the tree of a text are valid. -/
theorem hasValidCalls_of_parse {source : String} {e : Expr} (h : parse source = .ok e) :
    e.HasValidCalls := by
  obtain ⟨ls, s, _, hread, rfl⟩ := parse_eq_ok_iff.1 h
  exact hasValidCalls_of_ofLexemes hread

namespace Logged

theorem emitsNoWarning_tokenize (source : String) :
    EmitsNoWarning (tokenize source) (Calculator.tokenize source) := by
  rw [tokenize]
  cases Calculator.tokenize source with
  | error e => exact emitsNoWarning_pure _
  | ok ls => exact (emitsNoWarning_pure _).behind_write (by simp [Record.level])

theorem emitsNoWarning_readTree (ls : List Lexeme) :
    EmitsNoWarning (readTree ls) ((Expr.ofLexemes ls).map Subtree.expr) := by
  rw [readTree]
  cases Expr.ofLexemes ls with
  | error e => exact emitsNoWarning_pure _
  | ok s => exact (emitsNoWarning_pure _).behind_write (by simp [Record.level])

theorem emitsNoWarning_parse (source : String) :
    EmitsNoWarning (parse source) (Calculator.parse source) := by
  refine (emitsNoWarning_tokenize source).bind ?_
  cases htokens : Calculator.tokenize source with
  | error e =>
    rw [Calculator.parse, htokens]
    exact emitsNoWarning_pure _
  | ok ls =>
    refine (emitsNoWarning_readTree ls).bind ?_
    rw [parse_of_tokenize htokens]
    cases Expr.ofLexemes ls with
    | error e => exact emitsNoWarning_pure _
    | ok s => exact (emitsNoWarning_pure _).behind_write (by simp [Record.level])

/-- A text is evaluated without a warning. -/
theorem emitsNoWarning_evaluate (source : String) :
    EmitsNoWarning (evaluate source) (Calculator.evaluate source) := by
  refine (emitsNoWarning_parse source).bind ?_
  rw [Calculator.evaluate]
  cases hparse : Calculator.parse source with
  | error e => exact emitsNoWarning_pure _
  | ok e =>
    have hemits := e.emits_evaluate
    rw [(hasValidCalls_of_parse hparse).warnings_eq_nil] at hemits
    have hquiet : EmitsNoWarning e.evaluate e.value := ⟨[], hemits, List.forall_mem_nil _⟩
    exact hquiet.bind ((emitsNoWarning_pure _).behind_write (by simp [Record.level]))

end Logged

namespace Expr

/-- Every call of a tree that has been read from a row of lexemes names a function, has as many
arguments as the function takes, of which there is at least one, and has the value of the function
at the values of its arguments. The evaluation of the tree leaves the log as it was, and the
evaluation of a text appends no warning to it. -/
theorem calls_have_values :
    (∀ (ls : List Lexeme) (s : Subtree), ofLexemes ls = .ok s →
      (∀ name args, call name args ∈ s.expr.nodes →
        ∃ builtin, Builtin.lookup name = some builtin ∧ args.length = builtin.arity ∧
          0 < args.length ∧ builtin.call (args.map value) = some (call name args).value) ∧
      ∀ log, s.expr.evaluate.run log = (s.expr.value, log)) ∧
    ∀ source, EmitsNoWarning (Logged.evaluate source) (Calculator.evaluate source) := by
  refine ⟨fun ls s h => ?_, Logged.emitsNoWarning_evaluate⟩
  have hvalid := hasValidCalls_of_ofLexemes h
  refine ⟨fun name args hmem => ?_, hvalid.run_evaluate⟩
  obtain ⟨builtin, hlookup, hlength, hcall⟩ := hvalid.call_eq_some hmem
  exact ⟨builtin, hlookup, hlength, hlength ▸ builtin.arity_pos, hcall⟩

/-- The call `max(1, 2)` has a value, and the log stays empty. -/
theorem calls_have_values_max :
    ∃ s, ofLexemes [⟨.identifier "max", 0⟩, ⟨.leftParen, 3⟩, ⟨.number "1", 4⟩, ⟨.comma, 5⟩,
        ⟨.number "2", 7⟩, ⟨.rightParen, 8⟩, ⟨.endOfInput, 9⟩] = .ok s ∧
      s.expr = call "max" [number 1, number 2] ∧ s.expr.evaluate.run #[] = (2, #[]) := by
  have hone : Derives .expression 0 [.number "1"] (number 1) :=
    .ofPrimary (.number (by decide +kernel)) _
  have htwo : Derives .expression 0 [.number "2"] (number 2) :=
    .ofPrimary (.number (by decide +kernel)) _
  have hmax : Derives .expression 1
      [.identifier "max", .leftParen, .number "1", .comma, .number "2", .rightParen]
      (call "max" [number 1, number 2]) :=
    .ofPrimary (.call (by decide) (.cons hone (.one htwo))) _
  have hvalid : (call "max" [number 1, number 2]).HasValidCalls :=
    hasValidCalls_call_iff.2 ⟨⟨_, rfl, rfl⟩, by simp⟩
  have hread : ofLexemes [⟨.identifier "max", 0⟩, ⟨.leftParen, 3⟩, ⟨.number "1", 4⟩, ⟨.comma, 5⟩,
      ⟨.number "2", 7⟩, ⟨.rightParen, 8⟩, ⟨.endOfInput, 9⟩] =
        .ok (call "max" [number 1, number 2]).measured :=
    ofLexemes_eq_ok_of_derives hmax ⟨by decide, by decide, hvalid⟩
  have hvalue : (call "max" [number 1, number 2]).measured.expr.value = 2 := by decide +kernel
  refine ⟨_, hread, rfl, ?_⟩
  rw [(calls_have_values.1 _ _ hread).2, hvalue]

end Expr

end Calculator
