import Calculator.Builtin
import Calculator.Expr
import Calculator.Number.Literal

/-!
# The grammar of expressions

Which rows of tokens are expressions, and which trees they have, without regard to how they are
read:

    expression := term (("+" | "-") term)*
    term       := factor (("*" | "/") factor)*
    factor     := "-" factor | marked
    marked     := primary "!"?
    primary    := NUMBER | NAME "(" expression ("," expression)* ")" | "(" expression ")"

Expressions and terms are the chains of the two tiers of operations. A chain groups to the left: it
is one operand, or a shorter chain, the sign of an operation and one more operand. Groups leave no
trace in the tree.

A derivation also counts how deeply its row is nested, which is the greatest number of groups,
argument lists and negations around any place of the row. The limits on nesting and on height, and
the number of arguments of a call, are not part of the grammar.

## Main definitions

* `Calculator.Tier`, `Calculator.Nonterminal`: the tiers of operations and the kinds of phrases.
* `Calculator.Derives`, `Calculator.DerivesAll`: a row of tokens is a phrase, or a list of
  arguments, of a certain nesting and with certain trees.
* `Calculator.IsSentence`, `Calculator.IsViable`: a row is an expression, or can be continued to
  one.

## Main results

* `Calculator.Derives.endOfInput_notMem`: the end of the input is in no phrase.
* `Calculator.Derives.isSome_lookup`: every name in a phrase is the name of a function.
* `Calculator.DerivesAll.inductionOn`: induction on a list of arguments.
* `Calculator.Derives.parenthesized`: a phrase in parentheses is a phrase of the same kind.
* `Calculator.Nonterminal.exists_derives`: there are phrases of every kind.
-/

namespace Calculator

/-- The sign of an operation. -/
def BinaryOperator.sign : BinaryOperator → Token
  | add => .plus
  | sub => .minus
  | mul => .star
  | div => .slash

/-- The sign of an operation is no parenthesis and no name. -/
theorem BinaryOperator.sign_ne (op : BinaryOperator) :
    op.sign ≠ .leftParen ∧ op.sign ≠ .rightParen ∧ ∀ name, op.sign ≠ .identifier name := by
  cases op <;> simp [sign]

/-- A tier of operations, which bind equally strongly. -/
inductive Tier
  /-- Addition and subtraction. -/
  | additive
  /-- Multiplication and division. -/
  | multiplicative

/-- A kind of phrase. -/
inductive Nonterminal
  /-- One or more operands with operations of one tier between them. -/
  | chain (tier : Tier)
  /-- A negated factor, or a primary that may have a factorial mark. -/
  | factor
  /-- A primary that may have a factorial mark. -/
  | marked
  /-- A number literal, a call or a group. -/
  | primary

namespace Nonterminal

/-- A chain of terms. -/
abbrev expression : Nonterminal := chain .additive

/-- A chain of factors. -/
abbrev term : Nonterminal := chain .multiplicative

end Nonterminal

namespace Tier

/-- Whether an operation belongs to a tier. -/
def contains : Tier → BinaryOperator → Bool
  | additive, .add | additive, .sub => true
  | multiplicative, .mul | multiplicative, .div => true
  | _, _ => false

/-- The phrases between the operations of a tier. -/
def operand : Tier → Nonterminal
  | additive => .term
  | multiplicative => .factor

/-- The operation of a tier that a token is the sign of. -/
def operator? : Tier → Token → Option BinaryOperator
  | additive => Token.additive?
  | multiplicative => Token.multiplicative?

/-- A token is taken for an operation of a tier exactly if it is the sign of that operation. -/
theorem operator?_eq_some_iff (tier : Tier) {token : Token} {op : BinaryOperator} :
    tier.operator? token = some op ↔ token = op.sign ∧ tier.contains op = true := by
  cases tier <;> cases op <;> cases token <;>
    simp [operator?, contains, Token.additive?, Token.multiplicative?, Token.operator?,
      BinaryOperator.sign, BinaryOperator.isAdditive, BinaryOperator.isMultiplicative,
      Option.filter]

theorem operator?_sign (tier : Tier) {op : BinaryOperator} (h : tier.contains op = true) :
    tier.operator? op.sign = some op :=
  (operator?_eq_some_iff tier).2 ⟨rfl, h⟩

end Tier

mutual

/-- `Derives x depth tokens e`: the row `tokens` is a phrase of the kind `x` with the tree `e`, and
`depth` groups, argument lists and negations enclose the most deeply nested place of the row. -/
inductive Derives : Nonterminal → Nat → List Token → Expr → Prop
  | operand (tier : Tier) {d : Nat} {ts : List Token} {e : Expr}
      (h : Derives tier.operand d ts e) : Derives (.chain tier) d ts e
  | join (tier : Tier) (op : BinaryOperator) {d d' : Nat} {ts ts' : List Token} {e e' : Expr}
      (hop : tier.contains op = true) (left : Derives (.chain tier) d ts e)
      (right : Derives tier.operand d' ts' e') :
      Derives (.chain tier) (max d d') (ts ++ op.sign :: ts') (.binary op e e')
  | negation {d : Nat} {ts : List Token} {e : Expr} (h : Derives .factor d ts e) :
      Derives .factor (d + 1) (.minus :: ts) (.negate e)
  | unsigned {d : Nat} {ts : List Token} {e : Expr} (h : Derives .marked d ts e) :
      Derives .factor d ts e
  | factorial {d : Nat} {ts : List Token} {e : Expr} (h : Derives .primary d ts e) :
      Derives .marked d (ts ++ [.bang]) (.factorial e)
  | unmarked {d : Nat} {ts : List Token} {e : Expr} (h : Derives .primary d ts e) :
      Derives .marked d ts e
  | number {literal : String} {value : Float} (hread : Number.read literal = some value) :
      Derives .primary 0 [.number literal] (.number value)
  | call {name : String} {d : Nat} {ts : List Token} {es : List Expr}
      (hname : (Builtin.lookup name).isSome = true) (h : DerivesAll d ts es) :
      Derives .primary (d + 1) (.identifier name :: .leftParen :: (ts ++ [.rightParen]))
        (.call name es)
  | group {d : Nat} {ts : List Token} {e : Expr} (h : Derives .expression d ts e) :
      Derives .primary (d + 1) (.leftParen :: (ts ++ [.rightParen])) e

/-- `DerivesAll depth tokens es`: the row `tokens` is one or more expressions with commas between
them, with the trees `es`, and `depth` groups, argument lists and negations enclose the most deeply
nested place of the row. -/
inductive DerivesAll : Nat → List Token → List Expr → Prop
  | one {d : Nat} {ts : List Token} {e : Expr} (h : Derives .expression d ts e) :
      DerivesAll d ts [e]
  | cons {d d' : Nat} {ts ts' : List Token} {e : Expr} {es : List Expr}
      (h : Derives .expression d ts e) (hs : DerivesAll d' ts' es) :
      DerivesAll (max d d') (ts ++ .comma :: ts') (e :: es)

end

/-- The row is an expression. -/
def IsSentence (ts : List Token) : Prop := ∃ d e, Derives .expression d ts e

/-- The row can be continued to an expression. -/
def IsViable (ts : List Token) : Prop := ∃ us, IsSentence (ts ++ us)

/-! ### Tokens of phrases -/

mutual

/-- The end of the input is in no phrase. -/
theorem Derives.endOfInput_notMem {x : Nonterminal} {d : Nat} {ts : List Token} {e : Expr} :
    Derives x d ts e → .endOfInput ∉ ts
  | .operand _ h => h.endOfInput_notMem
  | .join _ op _ left right => by
      cases op <;> simp [left.endOfInput_notMem, right.endOfInput_notMem, BinaryOperator.sign]
  | .negation h => by simp [h.endOfInput_notMem]
  | .unsigned h => h.endOfInput_notMem
  | .factorial h => by simp [h.endOfInput_notMem]
  | .unmarked h => h.endOfInput_notMem
  | .number _ => by simp
  | .call _ h => by simp [h.endOfInput_notMem]
  | .group h => by simp [h.endOfInput_notMem]

/-- The end of the input is in no list of arguments. -/
theorem DerivesAll.endOfInput_notMem {d : Nat} {ts : List Token} {es : List Expr} :
    DerivesAll d ts es → .endOfInput ∉ ts
  | .one h => h.endOfInput_notMem
  | .cons h hs => by simp [h.endOfInput_notMem, hs.endOfInput_notMem]

end

mutual

/-- Every name in a phrase is the name of a function. -/
theorem Derives.isSome_lookup {x : Nonterminal} {d : Nat} {ts : List Token} {e : Expr}
    {name : String} : Derives x d ts e → .identifier name ∈ ts →
      (Builtin.lookup name).isSome = true
  | .operand _ h, hmem => h.isSome_lookup hmem
  | .join _ op _ left right, hmem => by
      rcases List.mem_append.1 hmem with hmem | hmem
      · exact left.isSome_lookup hmem
      · rcases List.mem_cons.1 hmem with hsign | hmem
        · cases op <;> cases hsign
        · exact right.isSome_lookup hmem
  | .negation h, hmem => h.isSome_lookup (by simpa using hmem)
  | .unsigned h, hmem => h.isSome_lookup hmem
  | .factorial h, hmem => h.isSome_lookup (by simpa using hmem)
  | .unmarked h, hmem => h.isSome_lookup hmem
  | .number _, hmem => by simp at hmem
  | .call hname h, hmem => by
      rcases List.mem_cons.1 hmem with heq | hmem
      · cases heq
        exact hname
      · exact h.isSome_lookup (by simpa using hmem)
  | .group h, hmem => h.isSome_lookup (by simpa using hmem)

/-- Every name in a list of arguments is the name of a function. -/
theorem DerivesAll.isSome_lookup {d : Nat} {ts : List Token} {es : List Expr} {name : String} :
    DerivesAll d ts es → .identifier name ∈ ts → (Builtin.lookup name).isSome = true
  | .one h, hmem => h.isSome_lookup hmem
  | .cons h hs, hmem => by
      rcases List.mem_append.1 hmem with hmem | hmem
      · exact h.isSome_lookup hmem
      · exact hs.isSome_lookup (by simpa using hmem)

end

/-! ### Building phrases -/

/-- Induction on a list of arguments, from its end. -/
@[elab_as_elim]
theorem DerivesAll.inductionOn
    {motive : (d : Nat) → (ts : List Token) → (es : List Expr) → DerivesAll d ts es → Prop}
    (one : ∀ {d : Nat} {ts : List Token} {e : Expr} (h : Derives .expression d ts e),
      motive d ts [e] (.one h))
    (cons : ∀ {d d' : Nat} {ts ts' : List Token} {e : Expr} {es : List Expr}
      (h : Derives .expression d ts e) (hs : DerivesAll d' ts' es), motive d' ts' es hs →
        motive (max d d') (ts ++ .comma :: ts') (e :: es) (.cons h hs))
    {d : Nat} {ts : List Token} {es : List Expr} : (h : DerivesAll d ts es) → motive d ts es h
  | .one h => one h
  | .cons h hs => cons h hs (inductionOn one cons hs)

/-- A list of arguments goes on with a comma and one more argument. -/
theorem DerivesAll.concat {d d' : Nat} {ts ts' : List Token} {es : List Expr} {e : Expr}
    (hlast : Derives .expression d' ts' e) :
    DerivesAll d ts es → DerivesAll (max d d') (ts ++ .comma :: ts') (es ++ [e])
  | .one h => .cons h (.one hlast)
  | .cons h hs => by
      simpa only [List.append_assoc, List.cons_append, Nat.max_assoc] using
        DerivesAll.cons h (hs.concat hlast)

/-- A primary is a phrase of every kind. -/
theorem Derives.ofPrimary {d : Nat} {ts : List Token} {e : Expr} (h : Derives .primary d ts e) :
    (x : Nonterminal) → Derives x d ts e
  | .primary => h
  | .marked => .unmarked h
  | .factor => .unsigned (.unmarked h)
  | .chain .multiplicative => .operand .multiplicative (.unsigned (.unmarked h))
  | .chain .additive => .operand .additive (.operand .multiplicative (.unsigned (.unmarked h)))

/-- A phrase of every kind is an expression. -/
theorem Derives.expression {d : Nat} {ts : List Token} {e : Expr} :
    {x : Nonterminal} → Derives x d ts e → Derives .expression d ts e
  | .chain .additive, h => h
  | .chain .multiplicative, h => .operand .additive h
  | .factor, h => .operand .additive (.operand .multiplicative h)
  | .marked, h => .operand .additive (.operand .multiplicative h.unsigned)
  | .primary, h => h.ofPrimary _

/-- A phrase of any kind in parentheses is a phrase of that kind with the same tree. -/
theorem Derives.parenthesized {x : Nonterminal} {d : Nat} {ts : List Token} {e : Expr}
    (h : Derives x d ts e) : Derives x (d + 1) (.leftParen :: (ts ++ [.rightParen])) e :=
  h.expression.group.ofPrimary x

/-- Two factors with the sign of an operation between them are an expression. -/
theorem Derives.joined (op : BinaryOperator) {d d' : Nat} {ts ts' : List Token} {e e' : Expr}
    (h : Derives .factor d ts e) (h' : Derives .factor d' ts' e') :
    Derives .expression (max d d') (ts ++ op.sign :: ts') (.binary op e e') := by
  by_cases hop : Tier.multiplicative.contains op = true
  · exact .operand .additive (.join .multiplicative op hop (.operand .multiplicative h) h')
  · have hadditive : Tier.additive.contains op = true := by
      revert hop
      cases op <;> decide
    exact .join .additive op hadditive h.expression (.operand .multiplicative h')

/-- There are phrases of every kind. -/
theorem Nonterminal.exists_derives (x : Nonterminal) : ∃ d ts e, Derives x d ts e :=
  ⟨0, [.number "1"], .number 1, .ofPrimary (.number (by decide +kernel)) x⟩

/-- What can be continued to a viable row is viable. -/
theorem IsViable.of_append {ts : List Token} (us : List Token) (h : IsViable (ts ++ us)) :
    IsViable ts := by
  obtain ⟨vs, hvs⟩ := h
  exact ⟨us ++ vs, by simpa only [List.append_assoc] using hvs⟩

end Calculator
