import Calculator.Proofs.Parsing.Entry
import Calculator.Proofs.Parsing.Parentheses
import Calculator.Proofs.Token.PrefixSigns

/-!
# What encloses a place

The parser counts the levels and the parentheses that enclose its place, and hands the counts on by
value: it never counts back when a level ends. This file shows that at every place the counts agree
with what has been taken. The levels are the parentheses that are open and the prefix signs whose
operand is unfinished.

A prefix sign in front of the place stays unfinished only as long as nothing behind the place ends
its operand. So the count is shown for all rows that may follow without ending it: if a factor is
expected, the row begins with no factor, and in any case it closes no parenthesis in front of it.

## Main definitions

* `Calculator.CountsLevels`: the counts at a place are those of the row in front of it, whatever
  follows it.
* `Calculator.Nesting.IsTrueBehind`: the counts of a nesting are those of a row.

## Main results

* `Calculator.Expects.countsLevels`: at every place the counts are right, whatever follows it.
* `Calculator.Expects.isTrueBehind`: the levels at a place are the open parentheses and the
  unfinished operands, and there are no more than allowed.
* `Calculator.nestings_are_true`: wherever a run enters a routine, the nesting that is handed on is
  true behind what has been taken.
-/

namespace Calculator

open Calculator.Parser

/-- The depth `n` counts the open parentheses and the unfinished operands of the row `ts`, behind
which a phrase of the kind `x` is expected. This holds also if a row `us` follows, in which no
factor that is expected ends and which closes no parenthesis in front of it; `previous` is the last
token of `ts`. -/
def CountsLevels (x : Nonterminal) (n : Nesting) (ts : List Token) : Prop :=
  ∃ previous, expectsOperand previous = true ∧ ∀ k us, HasOpen k us →
    ((∀ tier, x ≠ .chain tier) → ¬BeginsWithFactor us) →
      unfinishedFrom none (ts ++ us) + n.parens = n.depth + unfinishedFrom previous us

theorem countsLevels_outermost (x : Nonterminal) : CountsLevels x .outermost [] :=
  ⟨none, rfl, fun _ _ _ _ => Nat.add_comm _ 0⟩

namespace CountsLevels

variable {n m : Nesting} {ts us : List Token}

/-- A place where a factor is expected is no other place for its parts, and a place where a chain is
expected is none for what the chain begins with. -/
theorem imp {x y : Nonterminal} (h : CountsLevels x n ts)
    (hxy : (∀ tier, x ≠ .chain tier) → ∀ tier, y ≠ .chain tier) : CountsLevels y n ts := by
  obtain ⟨previous, hprevious, hcount⟩ := h
  exact ⟨previous, hprevious, fun k us hus hpending => hcount k us hus (hpending ∘ hxy)⟩

/-- The place behind a phrase, or behind a list of arguments, and a token that an operand
follows. -/
theorem append {tier : Tier} (h : CountsLevels (.chain tier) n ts) (hbalanced : IsBalanced us)
    (hus : ∀ previous t vs, unfinishedFrom previous (us ++ t :: vs) = unfinishedFrom (some t) vs)
    {t : Token} (ht : t.leadsOperand = true) (hopen : t ≠ .leftParen) (x : Nonterminal) :
    CountsLevels x n (ts ++ us ++ [t]) := by
  obtain ⟨previous, _, hcount⟩ := h
  have hclose : t ≠ .rightParen := by
    rintro rfl
    cases ht
  refine ⟨some t, ht, fun k vs hvs _ => ?_⟩
  have hrest : HasOpen (0 + (0 + k)) (us ++ t :: vs) :=
    HasOpen.append hbalanced (HasOpen.append (isBalanced_singleton hopen hclose) hvs)
  have h := hcount _ _ hrest fun h => absurd rfl (h tier)
  rw [hus] at h
  simpa using h

/-- The place behind a prefix sign. -/
theorem negated {l : Lexeme} (h : CountsLevels .factor n ts) (hl : l.Negates n m) :
    CountsLevels .factor m (ts ++ [l.token]) := by
  obtain ⟨previous, hprevious, hcount⟩ := h
  obtain ⟨_, rfl⟩ := Nesting.deeper_eq_ok_iff.1 hl.2
  refine ⟨some .minus, rfl, fun k us hus hpending => ?_⟩
  have hfactor := hpending (by simp)
  have hrest : HasOpen (0 + k) (.minus :: us) := HasOpen.append (isBalanced_sign .sub) hus
  have h := hcount _ _ hrest fun _ hminus => hfactor hminus.of_minus
  rw [unfinishedFrom_minus_of_not_beginsWithFactor hprevious hfactor] at h
  rw [hl.1, List.append_assoc, List.singleton_append]
  dsimp only
  omega

/-- The place behind the parenthesis of a group. -/
theorem group {l : Lexeme} (h : CountsLevels .primary n ts) (hl : l.Opens n m) (x : Nonterminal) :
    CountsLevels x m (ts ++ [l.token]) := by
  obtain ⟨previous, _, hcount⟩ := h
  obtain ⟨_, rfl⟩ := Nesting.parenthesized_eq_ok_iff.1 hl.2
  refine ⟨some .leftParen, rfl, fun k us hus _ => ?_⟩
  have h := hcount _ _ hus.leftParen_cons fun _ => not_beginsWithFactor_group hus
  rw [unfinishedFrom_cons_of_ne (t := .leftParen) (by simp)] at h
  rw [hl.1, List.append_assoc, List.singleton_append]
  dsimp only
  omega

/-- The place behind the name and the parenthesis of a call. -/
theorem call {l l' : Lexeme} {builtin : Builtin} (h : CountsLevels .primary n ts)
    (hl : l.Names builtin) (hl' : l'.Opens n m) (x : Nonterminal) :
    CountsLevels x m (ts ++ [l.token, l'.token]) := by
  obtain ⟨previous, _, hcount⟩ := h
  obtain ⟨_, rfl⟩ := Nesting.parenthesized_eq_ok_iff.1 hl'.2
  refine ⟨some .leftParen, rfl, fun k us hus _ => ?_⟩
  have hname : IsBalanced [.identifier builtin.name] := isBalanced_singleton (by simp) (by simp)
  have h := hcount _ _ (HasOpen.append hname hus.leftParen_cons) fun _ =>
    not_beginsWithFactor_call hus
  rw [List.singleton_append, unfinishedFrom_cons_of_ne (t := .identifier _) (by simp),
    unfinishedFrom_cons_of_ne (t := .leftParen) (by simp)] at h
  rw [hl.1, hl'.1, List.append_assoc]
  show unfinishedFrom none (ts ++ .identifier builtin.name :: .leftParen :: us) + (n.parens + 1) =
    n.depth + 1 + unfinishedFrom (some .leftParen) us
  omega

end CountsLevels

/-- At every place the counts are right. -/
theorem Expects.countsLevels {x : Nonterminal} {n : Nesting} {ls : List Lexeme}
    (h : Expects n ls x) : CountsLevels x n (ls.map Lexeme.token) := by
  induction h with
  | outermost => exact countsLevels_outermost _
  | first tier _ ih => exact ih.imp fun h => absurd rfl (h tier)
  | @next tier _ _ _ _ op _ _ left hop ih =>
    obtain ⟨_, _, hd⟩ := left.derives
    obtain ⟨hsign, _⟩ := tier.operator?_eq_some_iff.1 hop
    have h := ih.append hd.isBalanced hd.unfinishedFrom_append op.leadsOperand_sign op.sign_ne.1
      tier.operand
    simpa [hsign] using h
  | negated _ hl ih => simpa using ih.negated hl
  | marked _ ih | primary _ ih => exact ih.imp (by simp)
  | group _ hl ih => simpa using ih.group hl .expression
  | firstArgument _ hl hl' ih => simpa using ih.call hl hl' .expression
  | nextArgument _ hl hl' hargs hl'' ih =>
    obtain ⟨_, _, hd⟩ := hargs.derives
    have h := (ih.call hl hl' .expression).append hd.isBalanced hd.unfinishedFrom_append
      (t := .comma) rfl (by simp) .expression
    simpa [hl''] using h

/-- The levels at a place are the parentheses that are open and the operands that are unfinished. -/
theorem Expects.depth_eq {x : Nonterminal} {n : Nesting} {ls : List Lexeme} (h : Expects n ls x) :
    n.depth = n.parens + unfinished (ls.map Lexeme.token) := by
  obtain ⟨previous, _, hcount⟩ := h.countsLevels
  have h := hcount 0 [] isBalanced_nil fun _ => not_beginsWithFactor_nil
  rw [List.append_nil] at h
  rw [Nat.add_comm, unfinished, h]
  rfl

/-! ### True nestings -/

/-- The nesting counts what encloses the place behind the row `ts`: as many parentheses as have been
opened and not closed, and as many levels as there are of these and of the prefix signs whose
operand is unfinished. There are no more levels than allowed. -/
structure Nesting.IsTrueBehind (n : Nesting) (ts : List Token) : Prop where
  parens_eq : ts.count .leftParen = ts.count .rightParen + n.parens
  depth_eq : n.depth = n.parens + unfinished ts
  parens_le : n.parens ≤ n.depth
  depth_le : n.depth ≤ nestingLimit

/-- The nesting at a place is true behind what has been taken. -/
theorem Expects.isTrueBehind {x : Nonterminal} {n : Nesting} {ls : List Lexeme}
    (h : Expects n ls x) : n.IsTrueBehind (ls.map Lexeme.token) where
  parens_eq := h.hasOpen.count_eq
  depth_eq := h.depth_eq
  parens_le := by
    rw [h.depth_eq]
    exact Nat.le_add_right _ _
  depth_le := h.depth_le

/-- Whatever the row, wherever its reading enters the routine for factors or that for primaries, the
nesting that is handed on is true behind the lexemes that have been taken. An expression that is
read at any nesting takes as many closing as opening parentheses, so that behind it as many are open
as in front of it. -/
theorem nestings_are_true :
    (∀ ls x n rest, IsEntered ls x n rest →
      ∃ taken, ls = taken ++ rest ∧ n.IsTrueBehind (taken.map Lexeme.token)) ∧
    ∀ n ls s rest, (expression n).run ls = .ok s rest →
      ∃ taken, ls = taken ++ rest ∧ IsBalanced (taken.map Lexeme.token) := by
  refine ⟨fun ls x n rest hentered => ?_, fun n ls s rest hrun => ?_⟩
  · obtain ⟨_, _, taken, hls, htaken⟩ := isEntered_iff.1 hentered
    exact ⟨taken, hls, htaken.isTrueBehind⟩
  · obtain ⟨taken, hls, htaken⟩ := reads_of_run (x := .expression) hrun
    exact ⟨taken, hls, htaken.isBalanced⟩

/-- In `(-1*-2)` the operand of the first sign is finished where that of the second one begins, so
that the parenthesis and the second sign enclose it. Read as an expression, the row is balanced. -/
theorem nestings_are_true_product :
    IsEntered [⟨.leftParen, 0⟩, ⟨.minus, 1⟩, ⟨.number "1", 2⟩, ⟨.star, 3⟩, ⟨.minus, 4⟩,
        ⟨.number "2", 5⟩, ⟨.rightParen, 6⟩] .factor ⟨2, 1⟩ [⟨.number "2", 5⟩, ⟨.rightParen, 6⟩] ∧
      (⟨2, 1⟩ : Nesting).IsTrueBehind [.leftParen, .minus, .number "1", .star, .minus] ∧
      unfinished [.leftParen, .minus, .number "1", .star, .minus] = 1 ∧
      (∃ s, (expression .outermost).run [⟨.leftParen, 0⟩, ⟨.minus, 1⟩, ⟨.number "1", 2⟩,
        ⟨.star, 3⟩, ⟨.minus, 4⟩, ⟨.number "2", 5⟩, ⟨.rightParen, 6⟩] = .ok s []) ∧
      IsBalanced [.leftParen, .minus, .number "1", .star, .minus, .number "2", .rightParen] := by
  have hone : Number.read "1" = some 1 := by decide +kernel
  have htwo : Number.read "2" = some 2 := by decide +kernel
  have hleft : Derives .term 1 [.minus, .number "1"] (.negate (.number 1)) :=
    .operand .multiplicative (.negation ((Derives.number hone).ofPrimary .factor))
  have hright : Derives .factor 1 [.minus, .number "2"] (.negate (.number 2)) :=
    .negation ((Derives.number htwo).ofPrimary .factor)
  have hgroup : Derives .expression 2
      [.leftParen, .minus, .number "1", .star, .minus, .number "2", .rightParen] _ :=
    (Derives.group (.operand .additive (.join .multiplicative .mul rfl hleft hright))).ofPrimary
      .expression
  -- The place of the second operand: inside the parenthesis, behind the first factor and a sign.
  have hsign : (⟨.minus, 4⟩ : Lexeme).Negates ⟨1, 1⟩ ⟨2, 1⟩ := ⟨rfl, rfl⟩
  have hopens : (⟨.leftParen, 0⟩ : Lexeme).Opens .outermost ⟨1, 1⟩ := ⟨rfl, rfl⟩
  have hfits : Fits ⟨1, 1⟩ 1 (.negate (.number 1)) := ⟨by decide, by decide, by simp⟩
  have hfirst : Reads .term ⟨1, 1⟩ [⟨.minus, 1⟩, ⟨.number "1", 2⟩] _ := hfits.reads hleft
  have hcontent := ((Expects.outermost.first .additive).first .multiplicative).marked.primary.group
    hopens
  have hplace := ((hcontent.first .additive).next .multiplicative (l := ⟨.star, 3⟩) hfirst
    rfl).negated hsign
  have hentered : IsEntered _ .factor ⟨2, 1⟩ [⟨.number "2", 5⟩, ⟨.rightParen, 6⟩] :=
    isEntered_iff.2 ⟨.inl rfl, trivial, _, rfl, hplace⟩
  have hwhole : Fits .outermost 2 (.binary .mul (.negate (.number 1)) (.negate (.number 2))) :=
    ⟨by decide, by decide, by simp⟩
  have hreads : Reads .expression .outermost [⟨.leftParen, 0⟩, ⟨.minus, 1⟩, ⟨.number "1", 2⟩,
      ⟨.star, 3⟩, ⟨.minus, 4⟩, ⟨.number "2", 5⟩, ⟨.rightParen, 6⟩] _ := hwhole.reads hgroup
  have hrun := ReadsUpTo.run_eq_ok ⟨hreads, Nonterminal.endsAt_nil _ _⟩
  rw [List.append_nil] at hrun
  obtain ⟨hentries, hreadings⟩ := nestings_are_true
  obtain ⟨taken, htaken, htrue⟩ := hentries _ _ _ _ hentered
  obtain ⟨taken', htaken', hbalanced⟩ := hreadings _ _ _ _ hrun
  obtain rfl := List.append_cancel_right htaken
  rw [List.append_nil] at htaken'
  subst htaken'
  have hdepth : 2 = 1 + unfinished [.leftParen, .minus, .number "1", .star, .minus] :=
    htrue.depth_eq
  exact ⟨hentered, htrue, by omega, ⟨_, hrun⟩, hbalanced⟩

end Calculator
