import Calculator.Proofs.Composition
import Calculator.Proofs.Expr.Walk

/-!
# Recursion is bounded whatever the input

The parser enters itself behind a minus sign and behind a parenthesis, and nowhere else, one level
further in each time. The limit on nesting bounds how many of these entries are open at once,
however long the row of lexemes is: a parser with fuel for just so many of them never needs more.
The limit on heights does the same for the walks over the trees that are read.

What a parser without fuel would read is left open. The parser with fuel for all entries does not
depend on it, so that it does not run out of fuel; with less fuel it does depend on it.

## Main definitions

* `Calculator.Parser.unaryWithin`, `Calculator.Parser.expressionWithin`: the parsers of factors and
  of expressions with fuel that is one less at each entry.
* `Calculator.Expr.IsWithinReach`: the walks over a tree need no more levels than a tree may have.

## Main results

* `Calculator.Parser.unaryWithin_eq`: the parser with enough fuel is the parser.
* `Calculator.Parser.run_unaryWithin_room`: the parser with less fuel runs out of it.
* `Calculator.recursion_is_bounded`: the limits bound the recursion of the parser and of the walks.
-/

namespace Calculator

namespace Parser

/-! ### Entries further in -/

/-- The parser of factors with fuel that is one less behind each sign and each parenthesis. Where no
fuel is left, `out` reads instead. -/
def unaryWithin (out : Nesting → Parser Subtree) : Nat → Nesting → Parser Subtree
  | 0, n => out n
  | fuel + 1, n =>
      factor (fun position => (n.deeper position).map (unaryWithin out fuel))
        (fun position => (n.parenthesized position).map fun m => sumOf (unaryWithin out fuel m))
        n.isParenthesized

/-- The parser of expressions whose factors are read with fuel. -/
def expressionWithin (out : Nesting → Parser Subtree) (fuel : Nat) (n : Nesting) :
    Parser Subtree :=
  sumOf (unaryWithin out fuel n)

/-- With more fuel than there are levels to go, the parser does not run out of it. -/
theorem unaryWithin_eq (out : Nesting → Parser Subtree) {fuel : Nat} {n : Nesting}
    (hfuel : n.room < fuel) : unaryWithin out fuel n = unary n := by
  induction fuel generalizing n with
  | zero => exact absurd hfuel (Nat.not_lt_zero _)
  | succ fuel ih =>
    have hnegated (position : Nat) : (n.deeper position).map (unaryWithin out fuel) =
        (n.deeper position).map unary := by
      cases hm : n.deeper position with
      | error => rfl
      | ok m =>
        have hroom := Nesting.room_of_deeper hm
        exact congrArg Except.ok (ih (by omega))
    have henclosed (position : Nat) :
        ((n.parenthesized position).map fun m => sumOf (unaryWithin out fuel m)) =
          (n.parenthesized position).map expression := by
      cases hm : n.parenthesized position with
      | error => rfl
      | ok m =>
        have hroom := Nesting.room_of_parenthesized hm
        exact congrArg (fun operand => Except.ok (sumOf operand)) (ih (by omega))
    rw [unaryWithin, unary_eq, funext hnegated, funext henclosed]

/-- The parser that takes nothing and fails. -/
def refusing (cause : ParseError) : Parser Subtree where
  run ls := .error cause ls
  shortens _ := trivial

/-- With just as much fuel as there are levels to go, the parser runs out of it: behind that many
minus signs it asks for what stands in for it. -/
theorem run_unaryWithin_room (cause : ParseError) (n : Nesting) (rest : List Lexeme) :
    (unaryWithin (fun _ => refusing cause) n.room n).run
      (List.replicate n.room ⟨.minus, 0⟩ ++ rest) = .error cause rest := by
  generalize hroom : n.room = fuel
  induction fuel generalizing n with
  | zero => rfl
  | succ fuel ih =>
    have hm : n.deeper 0 = .ok ⟨n.depth + 1, n.parens⟩ := by
      rw [Nesting.deeper_eq_ok_iff, ← Nat.sub_pos_iff_lt, ← Nesting.room, hroom]
      exact ⟨Nat.succ_pos fuel, rfl⟩
    have hroom' := Nesting.room_of_deeper hm
    rw [List.replicate_succ, List.cons_append]
    show (negation ((n.deeper 0).map _) 0 _) = _
    rw [hm]
    show Outcome.andThen _ _ = _
    rw [ih _ (by omega), Outcome.andThen_error]

end Parser

open Calculator.Parser

/-! ### Walks over accepted trees -/

/-- The walks over the tree need no more levels than a tree may have. -/
structure Expr.IsWithinReach (e : Expr) : Prop where
  evaluation : Walk.evaluation.runWithin heightLimit e = some e.evaluate
  printing : Walk.printing.runWithin heightLimit e = some e.text
  counting : Walk.counting.runWithin heightLimit e = some e.nodeCount

theorem Expr.isWithinReach_of_height_le {e : Expr} (h : e.height ≤ heightLimit) :
    e.IsWithinReach where
  evaluation := by rw [Walk.computes_evaluation.runWithin_eq, if_pos h]
  printing := by rw [Walk.computes_printing.runWithin_eq, if_pos h]
  counting := by rw [Walk.computes_counting.runWithin_eq, if_pos h]

/-- The walks over the tree of an accepted row need no more levels than a tree may have. -/
theorem Expr.isWithinReach_of_ofLexemes {ls : List Lexeme} {s : Subtree}
    (h : Expr.ofLexemes ls = .ok s) : s.expr.IsWithinReach := by
  obtain ⟨_, _, _, _, hheight⟩ := derives_of_ofLexemes_eq_ok h
  exact isWithinReach_of_height_le hheight

/-! ### Bounded recursion -/

/-- At every nesting that is allowed, and for every row of lexemes, the parser with fuel for one
more entry than there are levels to go reads as the parser does, whatever would be read without
fuel. The walks over the tree of an accepted row or text give up on nothing with fuel for as many
levels as a tree may have. -/
theorem recursion_is_bounded :
    (∀ n : Nesting, n.depth ≤ nestingLimit → ∀ out ls,
      (unaryWithin out (nestingLimit + 1 - n.depth) n).run ls = (unary n).run ls ∧
        (expressionWithin out (nestingLimit + 1 - n.depth) n).run ls = (expression n).run ls) ∧
    (∀ ls s, Expr.ofLexemes ls = .ok s → s.expr.IsWithinReach) ∧
    ∀ source e, parse source = .ok e → e.IsWithinReach := by
  refine ⟨fun n hdepth out ls => ?_, fun ls s => Expr.isWithinReach_of_ofLexemes,
    fun source e h => ?_⟩
  · have hfuel : n.room < nestingLimit + 1 - n.depth := by
      rw [Nesting.room]
      omega
    rw [expressionWithin, unaryWithin_eq out hfuel]
    exact ⟨rfl, rfl⟩
  · obtain ⟨ls, s, _, hread, rfl⟩ := parse_eq_ok_iff.1 h
    exact Expr.isWithinReach_of_ofLexemes hread

/-- At the greatest nesting the parser needs fuel for itself alone. The walks over the trees of the
row `1 + 2` and of the text `2` do not give up. -/
theorem recursion_is_bounded_add :
    (⟨128, 0⟩ : Nesting).depth ≤ nestingLimit ∧
      (∀ ls, (expressionWithin (fun _ => refusing .outOfLexemes) 1 ⟨128, 0⟩).run ls =
        (expression ⟨128, 0⟩).run ls) ∧
      (∃ s, Expr.ofLexemes [⟨.number "1", 0⟩, ⟨.plus, 2⟩, ⟨.number "2", 4⟩, ⟨.endOfInput, 5⟩] =
          .ok s ∧ s.expr = .binary .add (.number 1) (.number 2) ∧ s.expr.IsWithinReach) ∧
        parse "2" = .ok (.number 2) ∧ (Expr.number 2).IsWithinReach := by
  have hone : Number.read "1" = some 1 := by decide +kernel
  have htwo : Number.read "2" = some 2 := by decide +kernel
  have hadd : Derives .expression 0 [.number "1", .plus, .number "2"]
      (.binary .add (.number 1) (.number 2)) :=
    Derives.joined .add ((Derives.number hone).ofPrimary _) ((Derives.number htwo).ofPrimary _)
  have hread : Expr.ofLexemes
      [⟨.number "1", 0⟩, ⟨.plus, 2⟩, ⟨.number "2", 4⟩, ⟨.endOfInput, 5⟩] =
        .ok (Expr.binary .add (.number 1) (.number 2)).measured :=
    ofLexemes_eq_ok_of_derives hadd ⟨by decide, by decide, by simp⟩
  have hliteral : IsLiteral "2".toList :=
    @IsLiteral.whole ['2'] ⟨List.cons_ne_nil _ _, List.forall_mem_singleton.2 rfl⟩
  obtain ⟨hparse, _⟩ := parse_literal hliteral htwo
  obtain ⟨hparser, hrows, htexts⟩ := recursion_is_bounded
  exact ⟨by decide, fun ls => (hparser ⟨128, 0⟩ (by decide) _ ls).2,
    ⟨_, hread, rfl, hrows _ _ hread⟩, hparse, htexts _ _ hparse⟩

end Calculator
