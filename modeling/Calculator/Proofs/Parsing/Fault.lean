import Calculator.Proofs.Parsing.Phrase

/-!
# Places in an unfinished expression, and faults

Reading from the left, the parser is always at a place where some phrase is expected. Such a place
is described by what has been taken so far: behind it are the operands, the groups and the lists
of arguments that are still open. A fault is a way in which reading stops at a place, with the
cause that it reports, the lexemes taken and the lexemes left.

## Main definitions

* `Calculator.Expects`: behind a row of lexemes a phrase of a certain kind is expected, at a certain
  nesting.
* `Calculator.Inside`: a row of lexemes ends behind a member of an open group or list.
* `Calculator.Misfit`: the causes for which a group or a list cannot go on or close.
* `Calculator.Enters`, `Calculator.Composes`: the places where the two limits are checked.
* `Calculator.Fault`: all ways in which reading stops.
-/

namespace Calculator

open Calculator.Parser

/-- `Expects n ls x`: the row `ls` is the beginning of an expression, and a phrase of the kind `x`
is expected behind it, at the nesting `n`. -/
inductive Expects : Nesting → List Lexeme → Nonterminal → Prop
  /-- An expression is expected at the beginning. -/
  | outermost : Expects .outermost [] .expression
  /-- A chain begins with an operand. -/
  | first (tier : Tier) {n : Nesting} {ls : List Lexeme} (h : Expects n ls (.chain tier)) :
      Expects n ls tier.operand
  /-- A chain goes on with an operand behind the sign of an operation. -/
  | next (tier : Tier) {n : Nesting} {ls us : List Lexeme} {l : Lexeme} {op : BinaryOperator}
      {s : Subtree} (h : Expects n ls (.chain tier)) (left : Reads (.chain tier) n us s)
      (hop : tier.operator? l.token = some op) : Expects n (ls ++ us ++ [l]) tier.operand
  /-- A minus sign is followed by a factor. -/
  | negated {n m : Nesting} {ls : List Lexeme} {l : Lexeme} (h : Expects n ls .factor)
      (hl : l.Negates n m) : Expects m (ls ++ [l]) .factor
  /-- A factor may have no sign. -/
  | marked {n : Nesting} {ls : List Lexeme} (h : Expects n ls .factor) : Expects n ls .marked
  /-- A marked primary begins with a primary. -/
  | primary {n : Nesting} {ls : List Lexeme} (h : Expects n ls .marked) : Expects n ls .primary
  /-- A group begins with an expression. -/
  | group {n m : Nesting} {ls : List Lexeme} {l : Lexeme} (h : Expects n ls .primary)
      (hl : l.Opens n m) : Expects m (ls ++ [l]) .expression
  /-- A list of arguments begins with an expression. -/
  | firstArgument {n m : Nesting} {ls : List Lexeme} {l l' : Lexeme} {builtin : Builtin}
      (h : Expects n ls .primary) (hl : l.Names builtin) (hl' : l'.Opens n m) :
      Expects m (ls ++ [l, l']) .expression
  /-- A list of arguments goes on with an expression behind a comma. -/
  | nextArgument {n m : Nesting} {ls us : List Lexeme} {l l' l'' : Lexeme} {builtin : Builtin}
      {ss : List Subtree} (h : Expects n ls .primary) (hl : l.Names builtin) (hl' : l'.Opens n m)
      (hargs : ReadsAll m us ss) (hl'' : l''.token = .comma) :
      Expects m (ls ++ l :: l' :: (us ++ [l''])) .expression

/-- `Inside list ls opening`: the row `ls` ends behind a member of the group or, if `list` is set,
of the list of arguments whose parenthesis stands at `opening`. -/
inductive Inside : Bool → List Lexeme → Nat → Prop
  | group {n m : Nesting} {ls us : List Lexeme} {l : Lexeme} {s : Subtree}
      (h : Expects n ls .primary) (hl : l.Opens n m) (content : Reads .expression m us s) :
      Inside false (ls ++ l :: us) l.position
  | list {n m : Nesting} {ls us : List Lexeme} {l l' : Lexeme} {builtin : Builtin}
      {ss : List Subtree} (h : Expects n ls .primary) (hl : l.Names builtin) (hl' : l'.Opens n m)
      (hargs : ReadsAll m us ss) : Inside true (ls ++ l :: l' :: us) l'.position

/-- `Misfit list opening cause rest`: what stands behind a member of a group or list is not what
closes it or goes on with it. -/
inductive Misfit (list : Bool) (opening : Nat) : ParseError → List Lexeme → Prop
  | dry : Misfit list opening .outOfLexemes []
  | unclosed {l : Lexeme} {rest : List Lexeme} (hl : l.token = .endOfInput) :
      Misfit list opening (.unmatchedParenthesis opening) (l :: rest)
  | unexpected {l : Lexeme} {rest : List Lexeme} (hclose : l.token ≠ .rightParen)
      (hend : l.token ≠ .endOfInput) (hcomma : list = true → l.token ≠ .comma) :
      Misfit list opening (.unexpected l) (l :: rest)

/-- `Enters n ls position`: the row `ls` ends with the sign or the parenthesis at `position`, which
leads one level further in than `n`. -/
inductive Enters : Nesting → List Lexeme → Nat → Prop
  | negation {n : Nesting} {ls : List Lexeme} {l : Lexeme} (h : Expects n ls .factor)
      (hl : l.token = .minus) : Enters n (ls ++ [l]) l.position
  | group {n : Nesting} {ls : List Lexeme} {l : Lexeme} (h : Expects n ls .primary)
      (hl : l.token = .leftParen) : Enters n (ls ++ [l]) l.position
  | list {n : Nesting} {ls : List Lexeme} {l l' : Lexeme} {builtin : Builtin}
      (h : Expects n ls .primary) (hl : l.Names builtin) (hl' : l'.token = .leftParen) :
      Enters n (ls ++ [l, l']) l'.position

/-- `Composes ls rest e position`: behind `ls`, in front of `rest`, all operands of the tree `e`
have been read to their ends, and its root stands at `position`. -/
inductive Composes : List Lexeme → List Lexeme → Expr → Nat → Prop
  | join (tier : Tier) {n : Nesting} {ls us vs rest : List Lexeme} {l : Lexeme}
      {op : BinaryOperator} {s s' : Subtree} (h : Expects n ls (.chain tier))
      (left : Reads (.chain tier) n us s) (hop : tier.operator? l.token = some op)
      (right : Reads tier.operand n vs s')
      (hends : tier.operand.EndsAt (vs.map Lexeme.token) rest) :
      Composes (ls ++ us ++ l :: vs) rest (.binary op s.expr s'.expr) l.position
  | negation {n m : Nesting} {ls us rest : List Lexeme} {l : Lexeme} {s : Subtree}
      (h : Expects n ls .factor) (hl : l.Negates n m) (inner : Reads .factor m us s)
      (hends : Nonterminal.factor.EndsAt (us.map Lexeme.token) rest) :
      Composes (ls ++ l :: us) rest (.negate s.expr) l.position
  | factorial {n : Nesting} {ls us rest : List Lexeme} {l : Lexeme} {s : Subtree}
      (h : Expects n ls .marked) (inner : Reads .primary n us s) (hl : l.token = .bang) :
      Composes (ls ++ us) (l :: rest) (.factorial s.expr) l.position
  | call {n m : Nesting} {ls us rest : List Lexeme} {l l' l'' : Lexeme} {builtin : Builtin}
      {ss : List Subtree} (h : Expects n ls .primary) (hl : l.Names builtin) (hl' : l'.Opens n m)
      (hargs : ReadsAll m us ss) (hl'' : l''.token = .rightParen)
      (hlength : ss.length = builtin.arity) :
      Composes (ls ++ l :: l' :: (us ++ [l''])) rest (.call builtin.name (ss.map Subtree.expr))
        l.position

/-- `Fault ls cause rest`: reading stops for `cause` behind the lexemes `ls`, in front of `rest`. -/
inductive Fault : List Lexeme → ParseError → List Lexeme → Prop
  /-- The row ends where a primary is expected. -/
  | noPrimary {n : Nesting} {ls : List Lexeme} (h : Expects n ls .primary) :
      Fault ls .outOfLexemes []
  /-- A lexeme begins no primary where one is expected. -/
  | strayPrimary {n : Nesting} {ls rest : List Lexeme} {l : Lexeme} (h : Expects n ls .primary)
      (hnumber : ∀ literal, l.token ≠ .number literal)
      (hname : ∀ name, l.token ≠ .identifier name) (hopen : l.token ≠ .leftParen) :
      Fault ls (stray n.isParenthesized l) (l :: rest)
  /-- A literal denotes no number. -/
  | invalidNumber {n : Nesting} {ls rest : List Lexeme} {l : Lexeme} {literal : String}
      (h : Expects n ls .primary) (hl : l.token = .number literal)
      (hread : Number.read literal = none) :
      Fault (ls ++ [l]) (.invalidNumber literal l.position) rest
  /-- A name is not that of a function. -/
  | unknownFunction {n : Nesting} {ls rest : List Lexeme} {l : Lexeme} {name : String}
      (h : Expects n ls .primary) (hl : l.token = .identifier name)
      (hname : Builtin.lookup name = none) :
      Fault (ls ++ [l]) (.unknownFunction name l.position) rest
  /-- The row ends behind a name. -/
  | noArguments {n : Nesting} {ls : List Lexeme} {l : Lexeme} {builtin : Builtin}
      (h : Expects n ls .primary) (hl : l.Names builtin) : Fault (ls ++ [l]) .outOfLexemes []
  /-- A name is not followed by a parenthesis. -/
  | strayArguments {n : Nesting} {ls rest : List Lexeme} {l l' : Lexeme} {builtin : Builtin}
      (h : Expects n ls .primary) (hl : l.Names builtin) (hl' : l'.token ≠ .leftParen) :
      Fault (ls ++ [l]) (stray n.isParenthesized l') (l' :: rest)
  /-- A group or a list of arguments neither goes on nor closes. -/
  | misfit {list : Bool} {ls rest : List Lexeme} {opening : Nat} {cause : ParseError}
      (h : Inside list ls opening) (hmisfit : Misfit list opening cause rest) : Fault ls cause rest
  /-- A call has more or fewer arguments than its function takes. -/
  | arityMismatch {n m : Nesting} {ls us rest : List Lexeme} {l l' l'' : Lexeme}
      {builtin : Builtin} {ss : List Subtree} (h : Expects n ls .primary) (hl : l.Names builtin)
      (hl' : l'.Opens n m) (hargs : ReadsAll m us ss) (hl'' : l''.token = .rightParen)
      (hlength : ss.length ≠ builtin.arity) :
      Fault (ls ++ l :: l' :: (us ++ [l'']))
        (.arityMismatch builtin.name builtin.arity ss.length l.position) rest
  /-- No further level is allowed. -/
  | tooNested {n : Nesting} {ls rest : List Lexeme} {position : Nat} (h : Enters n ls position)
      (hroom : n.room = 0) : Fault ls (.tooDeep position) rest
  /-- A tree is too high. -/
  | tooHigh {ls rest : List Lexeme} {e : Expr} {position : Nat} (h : Composes ls rest e position)
      (hheight : heightLimit < e.height) : Fault ls (.tooDeep position) rest

end Calculator
