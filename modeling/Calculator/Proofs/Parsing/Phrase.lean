import Calculator.Expr.Parser
import Calculator.Proofs.Expr.Nodes
import Calculator.Proofs.Grammar

/-!
# Phrases within the limits

What a parser hands back is a phrase of the grammar that keeps all limits: its nesting fits into
the room that is left, every call in it has the right number of arguments, and the height that was
counted along the way is the height of the tree and not above the limit. Each rule of the grammar
is a rule for such phrases, with the checks of the parser in the place of the limits.

## Main definitions

* `Calculator.Nesting.room`: how many further levels a nesting allows.
* `Calculator.Nonterminal.run`: how phrases of each kind are read.
* `Calculator.Lexeme.Negates`, `Calculator.Lexeme.Opens`, `Calculator.Lexeme.Names`: the lexemes
  that lead further in.
* `Calculator.Reads`, `Calculator.ReadsAll`: a row of lexemes is a phrase, or a list of arguments,
  within the limits.
* `Calculator.Nonterminal.EndsAt`: a phrase cannot go on with what follows it.

## Main results

* `Calculator.Reads.join`, `Calculator.Reads.negation`, `Calculator.Reads.factorial`,
  `Calculator.Reads.call`, `Calculator.Reads.group`: the rules of the grammar within the limits.
-/

namespace Calculator

/-! ### Room for nesting and for height -/

namespace Nesting

/-- How many further levels are allowed. -/
def room (n : Nesting) : Nat := nestingLimit - n.depth

theorem room_of_deeper {n m : Nesting} {position : Nat} (h : n.deeper position = .ok m) :
    n.room = m.room + 1 := by
  obtain ⟨hlt, rfl⟩ := deeper_eq_ok_iff.1 h
  simp only [room]
  omega

theorem room_of_parenthesized {n m : Nesting} {position : Nat}
    (h : n.parenthesized position = .ok m) : n.room = m.room + 1 := by
  obtain ⟨hlt, rfl⟩ := parenthesized_eq_ok_iff.1 h
  simp only [room]
  omega

/-- A negation is refused exactly where no room is left, at its own place. -/
theorem deeper_eq_error_iff {n : Nesting} {position : Nat} {cause : ParseError} :
    n.deeper position = .error cause ↔ n.room = 0 ∧ cause = .tooDeep position := by
  rw [deeper, room, Nat.sub_eq_zero_iff_le]
  by_cases h : n.depth < nestingLimit
  · simp [h, Nat.not_le.2 h]
  · simp [h, Nat.le_of_not_lt h, eq_comm]

/-- A parenthesis is refused exactly where no room is left, at its own place. -/
theorem parenthesized_eq_error_iff {n : Nesting} {position : Nat} {cause : ParseError} :
    n.parenthesized position = .error cause ↔ n.room = 0 ∧ cause = .tooDeep position := by
  rw [← deeper_eq_error_iff, parenthesized]
  cases n.deeper position <;> simp [Except.map]

end Nesting

theorem map_boundedHeight_eq_ok_iff {height position : Nat} {f : Nat → Subtree} {s : Subtree} :
    (boundedHeight height position).map f = .ok s ↔ height ≤ heightLimit ∧ s = f height := by
  by_cases h : height ≤ heightLimit <;> simp [boundedHeight, Except.map, h, eq_comm]

theorem map_boundedHeight_eq_error_iff {height position : Nat} {f : Nat → Subtree}
    {cause : ParseError} :
    (boundedHeight height position).map f = .error cause ↔
      heightLimit < height ∧ cause = .tooDeep position := by
  by_cases h : height ≤ heightLimit
  · simp [boundedHeight, Except.map, h, Nat.not_lt.2 h]
  · simp [boundedHeight, Except.map, h, Nat.lt_of_not_le h, eq_comm]

/-! ### Parsers by the kind of phrase -/

namespace Parser

/-- What a parenthesis at a given place encloses. -/
def enclosed (n : Nesting) (position : Nat) : Except ParseError (Parser Subtree) :=
  (n.parenthesized position).map expression

/-- What a minus sign at a given place negates. -/
def negated (n : Nesting) (position : Nat) : Except ParseError (Parser Subtree) :=
  (n.deeper position).map unary

theorem enclosed_eq_ok_iff {n : Nesting} {position : Nat} {content : Parser Subtree} :
    enclosed n position = .ok content ↔
      ∃ m, n.parenthesized position = .ok m ∧ content = expression m := by
  rw [enclosed]
  cases n.parenthesized position <;> simp [Except.map, eq_comm]

theorem enclosed_eq_error_iff {n : Nesting} {position : Nat} {cause : ParseError} :
    enclosed n position = .error cause ↔ n.room = 0 ∧ cause = .tooDeep position := by
  rw [← Nesting.parenthesized_eq_error_iff, enclosed]
  cases n.parenthesized position <;> simp [Except.map]

theorem negated_eq_ok_iff {n : Nesting} {position : Nat} {operand : Parser Subtree} :
    negated n position = .ok operand ↔
      ∃ m, n.deeper position = .ok m ∧ operand = unary m := by
  rw [negated]
  cases n.deeper position <;> simp [Except.map, eq_comm]

theorem negated_eq_error_iff {n : Nesting} {position : Nat} {cause : ParseError} :
    negated n position = .error cause ↔ n.room = 0 ∧ cause = .tooDeep position := by
  rw [← Nesting.deeper_eq_error_iff, negated]
  cases n.deeper position <;> simp [Except.map]

/-- The parser of the chains of a tier. -/
def ofTier (n : Nesting) : Tier → Parser Subtree
  | .additive => additive n
  | .multiplicative => multiplicative n

/-- The parser of the operands of a tier. -/
def operandOf (n : Nesting) : Tier → Parser Subtree
  | .additive => multiplicative n
  | .multiplicative => unary n

theorem ofTier_eq_chain (n : Nesting) (tier : Tier) :
    ofTier n tier = chain tier.operator? (operandOf n tier) := by
  cases tier <;> rfl

/-- The parsers of expressions, sums and terms are those of the chains of a tier. -/
theorem exists_eq_ofTier {read : Nesting → Parser Subtree}
    (h : read ∈ [expression, additive, multiplicative]) : ∃ tier, ∀ n, read n = ofTier n tier := by
  simp only [List.mem_cons, List.not_mem_nil, or_false] at h
  rcases h with rfl | rfl | rfl
  · exact ⟨.additive, fun _ => rfl⟩
  · exact ⟨.additive, fun _ => rfl⟩
  · exact ⟨.multiplicative, fun _ => rfl⟩

theorem run_unary (n : Nesting) (ls : List Lexeme) :
    (unary n).run ls = readFactor (negated n) (enclosed n) n.isParenthesized ls := by
  rw [unary_eq]
  rfl

end Parser

open Calculator.Parser

/-- How a phrase is read at a nesting. -/
def Nonterminal.run (n : Nesting) : Nonterminal → List Lexeme → Outcome Subtree
  | chain tier => (ofTier n tier).run
  | factor => (unary n).run
  | marked => fun ls => (Parser.primary (enclosed n) n.isParenthesized ls).andThen factorialMark
  | primary => Parser.primary (enclosed n) n.isParenthesized

theorem Tier.run_operand (n : Nesting) (tier : Tier) :
    tier.operand.run n = (operandOf n tier).run := by
  cases tier <;> rfl

/-! ### Lexemes that lead further in -/

/-- The lexeme is a minus sign that leads from the nesting `n` to the nesting `m`. -/
def Lexeme.Negates (l : Lexeme) (n m : Nesting) : Prop :=
  l.token = .minus ∧ n.deeper l.position = .ok m

/-- The lexeme is a parenthesis that leads from the nesting `n` to the nesting `m`. -/
def Lexeme.Opens (l : Lexeme) (n m : Nesting) : Prop :=
  l.token = .leftParen ∧ n.parenthesized l.position = .ok m

/-- The lexeme is the name of a function. -/
def Lexeme.Names (l : Lexeme) (builtin : Builtin) : Prop :=
  l.token = .identifier builtin.name ∧ Builtin.lookup builtin.name = some builtin

theorem Lexeme.names_of_lookup {l : Lexeme} {name : String} {builtin : Builtin}
    (hl : l.token = .identifier name) (hname : Builtin.lookup name = some builtin) :
    l.Names builtin := by
  obtain rfl := Builtin.name_of_lookup hname
  exact ⟨hl, hname⟩

theorem Lexeme.Names.isSome_lookup {l : Lexeme} {builtin : Builtin} (h : l.Names builtin) :
    (Builtin.lookup builtin.name).isSome = true := by
  rw [h.2, Option.isSome_some]

/-! ### Where a phrase ends -/

namespace Nonterminal

/-- A phrase of a certain kind can go on with the token. -/
def GoesOnWith (token : Token) : Nonterminal → Prop
  | chain .additive => token = .bang ∨ ∃ op : BinaryOperator, token = op.sign
  | chain .multiplicative => token = .bang ∨ token = .star ∨ token = .slash
  | factor => token = .bang
  | marked => token = .bang
  | primary => False

/-- A chain goes on as its operands do, or with the sign of one of its operations. -/
theorem goesOnWith_chain_iff {tier : Tier} {token : Token} :
    (chain tier).GoesOnWith token ↔
      tier.operand.GoesOnWith token ∨ ∃ op, tier.operator? token = some op := by
  simp only [Tier.operator?_eq_some_iff]
  cases tier with
  | additive =>
    constructor
    · rintro (rfl | ⟨op, rfl⟩)
      · exact .inl (.inl rfl)
      · cases op with
        | add | sub => exact .inr ⟨_, rfl, rfl⟩
        | mul => exact .inl (.inr (.inl rfl))
        | div => exact .inl (.inr (.inr rfl))
    · rintro ((rfl | rfl | rfl) | ⟨op, rfl, _⟩)
      · exact .inl rfl
      · exact .inr ⟨.mul, rfl⟩
      · exact .inr ⟨.div, rfl⟩
      · exact .inr ⟨op, rfl⟩
  | multiplicative =>
    constructor
    · rintro (rfl | rfl | rfl)
      · exact .inl rfl
      · exact .inr ⟨.mul, rfl, rfl⟩
      · exact .inr ⟨.div, rfl, rfl⟩
    · rintro (rfl | ⟨op, rfl, hop⟩)
      · exact .inl rfl
      · cases op with
        | add | sub => cases hop
        | mul => exact .inr (.inl rfl)
        | div => exact .inr (.inr rfl)

/-- The phrase `ts` of a certain kind cannot go on with the rest. Where it ends with a factorial
mark it has no other. -/
def EndsAt (x : Nonterminal) (ts : List Token) (rest : List Lexeme) : Prop :=
  ∀ l ∈ rest.head?, x.GoesOnWith l.token → l.token = .bang ∧ ts.getLast? = some .bang

section

variable {x : Nonterminal} {tier : Tier} {ts : List Token} {l : Lexeme} {rest : List Lexeme}

theorem endsAt_nil (x : Nonterminal) (ts : List Token) : x.EndsAt ts [] := nofun

theorem endsAt_cons_iff : x.EndsAt ts (l :: rest) ↔
    (x.GoesOnWith l.token → l.token = .bang ∧ ts.getLast? = some .bang) := by
  simp [EndsAt]

theorem endsAt_primary (ts : List Token) (rest : List Lexeme) : primary.EndsAt ts rest :=
  fun _ _ h => h.elim

/-- How a phrase ends does not depend on what stands in front of it. -/
theorem EndsAt.append (h : x.EndsAt ts rest) (us : List Token) : x.EndsAt (us ++ ts) rest := by
  intro l hl hgo
  obtain ⟨hbang, hlast⟩ := h l hl hgo
  exact ⟨hbang, by rw [List.getLast?_append, hlast, Option.some_or]⟩

/-- What stands behind a token other than a mark ends as the two do together. -/
theorem EndsAt.of_append_cons (us : List Token) {token : Token}
    (h : x.EndsAt (us ++ token :: ts) rest) (htoken : token ≠ .bang) : x.EndsAt ts rest := by
  intro l hl hgo
  obtain ⟨hbang, hlast⟩ := h l hl hgo
  refine ⟨hbang, ?_⟩
  rw [List.getLast?_append, List.getLast?_cons, Option.some_or, Option.some.injEq] at hlast
  cases hts : ts.getLast? with
  | none =>
    rw [hts] at hlast
    exact absurd hlast htoken
  | some last =>
    rw [hts] at hlast
    exact congrArg some hlast

/-- A chain ends where its last operand does, in front of what is not the sign of one of its
operations. -/
theorem EndsAt.chain (h : tier.operand.EndsAt ts (l :: rest))
    (hop : tier.operator? l.token = none) : (chain tier).EndsAt ts (l :: rest) := by
  rw [endsAt_cons_iff, goesOnWith_chain_iff, hop]
  rintro (hgo | ⟨op, hop⟩)
  · exact endsAt_cons_iff.1 h hgo
  · cases hop

/-- What ends a chain ends its operands. -/
theorem EndsAt.operand (h : (Nonterminal.chain tier).EndsAt ts rest) :
    tier.operand.EndsAt ts rest :=
  fun l hl hgo => h l hl (goesOnWith_chain_iff.2 (.inl hgo))

/-- What ends a chain is not the sign of one of its operations. -/
theorem EndsAt.operator?_eq_none (h : (Nonterminal.chain tier).EndsAt ts (l :: rest)) :
    tier.operator? l.token = none := by
  rw [Option.eq_none_iff_forall_ne_some]
  intro op hop
  obtain ⟨hbang, _⟩ := endsAt_cons_iff.1 h (goesOnWith_chain_iff.2 (.inr ⟨op, hop⟩))
  obtain ⟨hsign, _⟩ := (tier.operator?_eq_some_iff).1 hop
  rw [hbang] at hsign
  cases op <;> cases hsign

end

end Nonterminal

/-! ### Phrases within the limits -/

/-- The row `ls` is a phrase of the kind `x` with the tree and the height of `s`, and it keeps the
limits at the nesting `n`. -/
structure Reads (x : Nonterminal) (n : Nesting) (ls : List Lexeme) (s : Subtree) : Prop where
  /-- The row is a phrase whose nesting fits into the room. -/
  derives : ∃ d ≤ n.room, Derives x d (ls.map Lexeme.token) s.expr
  /-- All calls have the right number of arguments. -/
  hasValidCalls : s.expr.HasValidCalls
  /-- The height is that of the tree. -/
  height_eq : s.height = s.expr.height
  /-- The height is within the limit. -/
  height_le : s.height ≤ heightLimit

/-- The row `ls` is a list of arguments with the trees and the heights of `ss`, and it keeps the
limits at the nesting `n`. -/
structure ReadsAll (n : Nesting) (ls : List Lexeme) (ss : List Subtree) : Prop where
  /-- The row is a list of arguments whose nesting fits into the room. -/
  derives : ∃ d ≤ n.room, DerivesAll d (ls.map Lexeme.token) (ss.map Subtree.expr)
  /-- All calls have the right number of arguments. -/
  hasValidCalls : ∀ s ∈ ss, s.expr.HasValidCalls
  /-- The heights are those of the trees. -/
  height_eq : ∀ s ∈ ss, s.height = s.expr.height
  /-- The heights are within the limit. -/
  height_le : ∀ s ∈ ss, s.height ≤ heightLimit

namespace Reads

variable {n m : Nesting} {ls us : List Lexeme} {s s' joined : Subtree}

/-- The end of the input is in no phrase. -/
theorem endOfInput_notMem {x : Nonterminal} (h : Reads x n ls s) :
    .endOfInput ∉ ls.map Lexeme.token := by
  obtain ⟨_, _, hd⟩ := h.derives
  exact hd.endOfInput_notMem

/-- A phrase by one rule is a phrase by a rule that adds nothing to it. -/
theorem imp {x y : Nonterminal} (h : Reads x n ls s)
    (hxy : ∀ d ts e, Derives x d ts e → Derives y d ts e) : Reads y n ls s := by
  obtain ⟨d, hroom, hd⟩ := h.derives
  exact ⟨⟨d, hroom, hxy _ _ _ hd⟩, h.hasValidCalls, h.height_eq, h.height_le⟩

/-- One operand is a chain. -/
theorem operand (tier : Tier) (h : Reads tier.operand n ls s) : Reads (.chain tier) n ls s :=
  h.imp fun _ _ _ => .operand tier

/-- A marked primary is a factor. -/
theorem unsigned (h : Reads .marked n ls s) : Reads .factor n ls s :=
  h.imp fun _ _ _ => .unsigned

/-- A primary needs no mark. -/
theorem unmarked (h : Reads .primary n ls s) : Reads .marked n ls s :=
  h.imp fun _ _ _ => .unmarked

/-- A chain goes on with the sign of an operation and one more operand. -/
theorem join (tier : Tier) {l : Lexeme} {op : BinaryOperator} (left : Reads (.chain tier) n ls s)
    (hop : tier.operator? l.token = some op) (right : Reads tier.operand n us s')
    (hjoin : s.binary op s' l.position = .ok joined) :
    Reads (.chain tier) n (ls ++ l :: us) joined := by
  obtain ⟨d, hroom, hd⟩ := left.derives
  obtain ⟨d', hroom', hd'⟩ := right.derives
  obtain ⟨hsign, hcontains⟩ := (tier.operator?_eq_some_iff).1 hop
  obtain ⟨hheight, rfl⟩ := map_boundedHeight_eq_ok_iff.1 hjoin
  refine ⟨⟨max d d', Nat.max_le.2 ⟨hroom, hroom'⟩, ?_⟩, ?_, ?_, hheight⟩
  · simpa [hsign] using Derives.join tier op hcontains hd hd'
  · exact Expr.hasValidCalls_binary_iff.2 ⟨left.hasValidCalls, right.hasValidCalls⟩
  · simp [Expr.height, left.height_eq, right.height_eq]

/-- A minus sign negates the factor behind it. -/
theorem negation {l : Lexeme} (hl : l.Negates n m) (h : Reads .factor m ls s)
    (hjoin : s.negate l.position = .ok joined) : Reads .factor n (l :: ls) joined := by
  obtain ⟨d, hroom, hd⟩ := h.derives
  obtain ⟨hheight, rfl⟩ := map_boundedHeight_eq_ok_iff.1 hjoin
  have hn := Nesting.room_of_deeper hl.2
  refine ⟨⟨d + 1, by omega, ?_⟩, Expr.hasValidCalls_negate_iff.2 h.hasValidCalls, ?_, hheight⟩
  · simpa [hl.1] using hd.negation
  · simp [Expr.height, h.height_eq]

/-- A factorial mark stands behind a primary. -/
theorem factorial {l : Lexeme} (h : Reads .primary n ls s) (hl : l.token = .bang)
    (hjoin : s.factorial l.position = .ok joined) : Reads .marked n (ls ++ [l]) joined := by
  obtain ⟨d, hroom, hd⟩ := h.derives
  obtain ⟨hheight, rfl⟩ := map_boundedHeight_eq_ok_iff.1 hjoin
  refine ⟨⟨d, hroom, ?_⟩, Expr.hasValidCalls_factorial_iff.2 h.hasValidCalls, ?_, hheight⟩
  · simpa [hl] using hd.factorial
  · simp [Expr.height, h.height_eq]

/-- A number literal is a primary. -/
theorem number {l : Lexeme} {literal : String} {value : Float} (hl : l.token = .number literal)
    (hread : Number.read literal = some value) : Reads .primary n [l] (.number value) := by
  refine ⟨⟨0, Nat.zero_le _, ?_⟩, Expr.hasValidCalls_number value, rfl, ?_⟩
  · simpa [hl, Subtree.number] using Derives.number hread
  · exact Nat.one_le_of_lt (by decide : 0 < heightLimit)

/-- An expression in parentheses is a primary. -/
theorem group {l l' : Lexeme} (hl : l.Opens n m) (h : Reads .expression m ls s)
    (hl' : l'.token = .rightParen) : Reads .primary n (l :: (ls ++ [l'])) s := by
  obtain ⟨d, hroom, hd⟩ := h.derives
  have hn := Nesting.room_of_parenthesized hl.2
  refine ⟨⟨d + 1, by omega, ?_⟩, h.hasValidCalls, h.height_eq, h.height_le⟩
  simpa [hl.1, hl'] using hd.group

end Reads

namespace ReadsAll

variable {n m : Nesting} {ls us : List Lexeme} {s : Subtree} {ss : List Subtree}

theorem one (h : Reads .expression n ls s) : ReadsAll n ls [s] := by
  obtain ⟨d, hroom, hd⟩ := h.derives
  exact ⟨⟨d, hroom, .one hd⟩, by simpa using h.hasValidCalls, by simpa using h.height_eq,
    by simpa using h.height_le⟩

/-- A list of arguments goes on with a comma and one more argument. -/
theorem concat (h : ReadsAll n ls ss) {l : Lexeme} (hl : l.token = .comma)
    (hlast : Reads .expression n us s) : ReadsAll n (ls ++ l :: us) (ss ++ [s]) := by
  obtain ⟨d, hroom, hd⟩ := h.derives
  obtain ⟨d', hroom', hd'⟩ := hlast.derives
  refine ⟨⟨max d d', Nat.max_le.2 ⟨hroom, hroom'⟩, ?_⟩, ?_, ?_, ?_⟩
  · simpa [hl] using hd.concat hd'
  · simpa [or_imp, forall_and] using ⟨h.hasValidCalls, hlast.hasValidCalls⟩
  · simpa [or_imp, forall_and] using ⟨h.height_eq, hlast.height_eq⟩
  · simpa [or_imp, forall_and] using ⟨h.height_le, hlast.height_le⟩

/-- The end of the input is in no list of arguments. -/
theorem endOfInput_notMem (h : ReadsAll n ls ss) : .endOfInput ∉ ls.map Lexeme.token := by
  obtain ⟨_, _, hd⟩ := h.derives
  exact hd.endOfInput_notMem

/-- The greatest of the counted heights is the height of the tallest tree. -/
theorem foldl_max_height (h : ReadsAll n ls ss) :
    (ss.map Subtree.height).foldl max 0 = Expr.tallest (ss.map Subtree.expr) := by
  have hmap : ss.map Subtree.height = (ss.map Subtree.expr).map Expr.height := by
    rw [List.map_map]
    exact List.map_congr_left h.height_eq
  rw [hmap, Expr.foldl_max_height, Nat.zero_max]

end ReadsAll

/-- A name with its arguments in parentheses is a primary. -/
theorem Reads.call {n m : Nesting} {l l' l'' : Lexeme} {ls : List Lexeme} {ss : List Subtree}
    {joined : Subtree} {builtin : Builtin} (hl : l.Names builtin) (hl' : l'.Opens n m)
    (hargs : ReadsAll m ls ss) (hl'' : l''.token = .rightParen)
    (hlength : ss.length = builtin.arity)
    (hjoin : Subtree.call builtin.name ss l.position = .ok joined) :
    Reads .primary n (l :: l' :: (ls ++ [l''])) joined := by
  obtain ⟨d, hroom, hd⟩ := hargs.derives
  obtain ⟨hheight, rfl⟩ := map_boundedHeight_eq_ok_iff.1 hjoin
  have hn := Nesting.room_of_parenthesized hl'.2
  refine ⟨⟨d + 1, by omega, ?_⟩, ?_, ?_, hheight⟩
  · simpa [hl.1, hl'.1, hl''] using Derives.call hl.isSome_lookup hd
  · refine Expr.hasValidCalls_call_iff.2 ⟨⟨builtin, hl.2, by simpa using hlength⟩, ?_⟩
    simpa using hargs.hasValidCalls
  · simpa [Expr.height] using hargs.foldl_max_height

end Calculator
