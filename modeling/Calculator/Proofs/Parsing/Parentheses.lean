import Calculator.Proofs.Parsing.Report
import Calculator.Proofs.Token.Balance

/-!
# Unmatched parentheses are reported truthfully

The parser counts the parentheses that are open at its place. The count agrees with what it has
taken: phrases are balanced, so that only the parentheses of the groups and lists around the place
are open. From the count it tells a closing parenthesis that has no partner from one that comes too
early, and at the end of the input the innermost open parenthesis is the last without a partner.

## Main definitions

* `Calculator.IsLastUnclosed`: a parenthesis of a row is the last one that is never closed.
* `Calculator.ParseError.AgreesWithParentheses`: what a cause says about parentheses is true.

## Main results

* `Calculator.Expects.hasOpen`: the count of open parentheses is right at every place.
* `Calculator.agreesWithParentheses_of_parse`: what is reported about the parentheses of a text is
  true, and a closing parenthesis is reported as unmatched exactly if none is open there.
-/

namespace Calculator

open Calculator.Parser

/-! ### The count of open parentheses -/

section

variable {n m : Nesting} {ls us : List Lexeme} {l : Lexeme}

theorem Reads.isBalanced {x : Nonterminal} {s : Subtree} (h : Reads x n ls s) :
    IsBalanced (ls.map Lexeme.token) := by
  obtain ⟨_, _, hd⟩ := h.derives
  exact hd.isBalanced

theorem ReadsAll.isBalanced {ss : List Subtree} (h : ReadsAll n ls ss) :
    IsBalanced (ls.map Lexeme.token) := by
  obtain ⟨_, _, hd⟩ := h.derives
  exact hd.isBalanced

theorem Lexeme.Names.isBalanced {builtin : Builtin} (h : l.Names builtin) :
    IsBalanced [l.token] := by
  rw [h.1]
  exact isBalanced_singleton (by simp) (by simp)

/-- Behind a sign as many parentheses are open as in front of it. -/
theorem Lexeme.Negates.hasOpen (hl : l.Negates n m) (h : HasOpen n.parens (ls.map Lexeme.token)) :
    HasOpen m.parens ((ls ++ [l]).map Lexeme.token) := by
  obtain ⟨_, rfl⟩ := Nesting.deeper_eq_ok_iff.1 hl.2
  have hsign : IsBalanced [l.token] := by
    rw [hl.1]
    exact isBalanced_sign .sub
  simpa using h.append_balanced hsign

/-- Behind a parenthesis one more is open than in front of it. -/
theorem Lexeme.Opens.hasOpen (hl : l.Opens n m) (h : HasOpen n.parens (ls.map Lexeme.token)) :
    HasOpen m.parens ((ls ++ [l]).map Lexeme.token) := by
  obtain ⟨_, rfl⟩ := Nesting.parenthesized_eq_ok_iff.1 hl.2
  simpa [hl.1] using h.concat_leftParen

/-- Behind a name and a parenthesis one more is open than in front of them. -/
theorem Lexeme.Opens.hasOpen_list {l' : Lexeme} {builtin : Builtin} (hl' : l'.Opens n m)
    (hl : l.Names builtin) (h : HasOpen n.parens (ls.map Lexeme.token)) :
    HasOpen m.parens ((ls ++ [l, l']).map Lexeme.token) := by
  have hname : HasOpen n.parens ((ls ++ [l]).map Lexeme.token) := by
    simpa using h.append_balanced hl.isBalanced
  simpa using hl'.hasOpen hname

/-- At every place the parser has counted the parentheses that are open behind what it has
taken. -/
theorem Expects.hasOpen {x : Nonterminal} (h : Expects n ls x) :
    HasOpen n.parens (ls.map Lexeme.token) := by
  induction h with
  | outermost => exact isBalanced_nil
  | first _ _ ih => exact ih
  | next tier _ left hop ih =>
    obtain ⟨hsign, _⟩ := (tier.operator?_eq_some_iff).1 hop
    simpa [hsign] using
      (ih.append_balanced left.isBalanced).append_balanced (isBalanced_sign _)
  | negated _ hl ih => exact hl.hasOpen ih
  | marked _ ih => exact ih
  | primary _ ih => exact ih
  | group _ hl ih => exact hl.hasOpen ih
  | firstArgument _ hl hl' ih => exact hl'.hasOpen_list hl ih
  | nextArgument _ hl hl' hargs hl'' ih =>
    have hcomma : IsBalanced [.comma] := isBalanced_singleton (by simp) (by simp)
    simpa [hl''] using
      ((hl'.hasOpen_list hl ih).append_balanced hargs.isBalanced).append_balanced hcomma

/-- Behind the innermost open parenthesis everything is balanced. -/
theorem Inside.exists_eq_append {list : Bool} {opening : Nat} (h : Inside list ls opening) :
    ∃ before content, ls = before ++ ⟨.leftParen, opening⟩ :: content ∧
      IsBalanced (content.map Lexeme.token) := by
  cases h with
  | @group _ _ before us l _ _ hl content =>
    exact ⟨before, us, by rw [← hl.1], content.isBalanced⟩
  | @list _ _ before us l l' _ _ _ _ hl' hargs =>
    exact ⟨before ++ [l], us, by rw [← hl'.1]; simp, hargs.isBalanced⟩

end

/-! ### What is reported about parentheses -/

/-- The parenthesis at `position` has no partner in the row, and all opening parentheses behind it
have one. -/
def IsLastUnclosed (ls : List Lexeme) (position : Nat) : Prop :=
  ∃ before behind, ls = before ++ ⟨.leftParen, position⟩ :: behind ∧
    ¬HasPartner (behind.map Lexeme.token) ∧
      ∀ between position' rest, behind = between ++ ⟨.leftParen, position'⟩ :: rest →
        HasPartner (rest.map Lexeme.token)

/-- What the cause says about parentheses is true. An unmatched one closes nothing or is the last
that is never closed, and a closing one is unexpected only if there is something to close. -/
def ParseError.AgreesWithParentheses (ls : List Lexeme) : ParseError → Prop
  | unmatchedParenthesis position =>
      (⟨.rightParen, position⟩ ∈ ls ∧ IsBalanced (tokensBefore ls position)) ∨
        IsLastUnclosed ls position
  | unexpectedToken .rightParen position =>
      ⟨.rightParen, position⟩ ∈ ls ∧
        (tokensBefore ls position).count .rightParen < (tokensBefore ls position).count .leftParen
  | _ => True

theorem IsLastUnclosed.mem {ls : List Lexeme} {position : Nat} (h : IsLastUnclosed ls position) :
    ⟨.leftParen, position⟩ ∈ ls := by
  obtain ⟨before, behind, rfl, _⟩ := h
  simp

section

variable {taken rest : List Lexeme} {l : Lexeme} {cause : ParseError}

/-- A lexeme of a row is the last one, or it is in the row without the last one. -/
theorem cases_of_eq_concat {us : List Lexeme} {last : Lexeme}
    (h : taken ++ l :: rest = us ++ [last]) :
    (rest = [] ∧ l = last) ∨ ∃ between, rest = between ++ [last] ∧ us = taken ++ l :: between := by
  rcases List.eq_nil_or_concat' rest with rfl | ⟨between, l', rfl⟩
  · exact .inl ⟨rfl, (List.append_singleton_inj.1 h).2⟩
  · rw [← List.cons_append, ← List.append_assoc] at h
    obtain ⟨rfl, rfl⟩ := List.append_singleton_inj.1 h
    exact .inr ⟨between, rfl, rfl⟩

/-- In front of the end of the input the innermost open parenthesis is the last that is never
closed. -/
theorem Inside.isLastUnclosed {list : Bool} {opening : Nat} (h : Inside list taken opening)
    (hl : l.token = .endOfInput) : IsLastUnclosed (taken ++ [l]) opening := by
  obtain ⟨before, content, rfl, hcontent⟩ := h.exists_eq_append
  refine ⟨before, content ++ [l], by simp, ?_, fun between position' rest hrest => ?_⟩
  · have hnone := hcontent.not_hasPartner (t := l.token) (by simp [hl])
    simpa using hnone
  · -- The last lexeme is no parenthesis, so that this one is in the balanced content.
    rcases cases_of_eq_concat hrest.symm with ⟨_, rfl⟩ | ⟨rest, rfl, rfl⟩
    · cases hl
    · rw [List.map_append, List.map_cons] at hcontent
      simpa using hcontent.hasPartner.append [l.token]

theorem agreesWithParentheses_unexpected (hl : l.token ≠ .rightParen) (ls : List Lexeme) :
    (ParseError.unexpected l).AgreesWithParentheses ls := by
  rw [ParseError.unexpected]
  cases hl' : l.token with
  | rightParen => exact absurd hl' hl
  | _ => trivial

theorem agreesWithParentheses_unmatched
    (hascend : (taken ++ l :: rest).Pairwise fun l l' => l.position < l'.position)
    (h : IsBalanced (taken.map Lexeme.token)) (hl : l.token = .rightParen) :
    (ParseError.unmatchedParenthesis l.position).AgreesWithParentheses (taken ++ l :: rest) := by
  refine .inl ⟨by simp [← hl], ?_⟩
  rwa [(tokensBefore_eq hascend).1]

/-- What is reported about a closing parenthesis agrees with the count of open ones. -/
theorem agreesWithParentheses_stray {n : Nesting}
    (hascend : (taken ++ l :: rest).Pairwise fun l l' => l.position < l'.position)
    (h : HasOpen n.parens (taken.map Lexeme.token)) :
    (stray n.isParenthesized l).AgreesWithParentheses (taken ++ l :: rest) := by
  rw [stray]
  split
  next hl =>
    have hnone : n.parens = 0 := by simpa [Nesting.isParenthesized] using hl.2
    rw [hnone] at h
    exact agreesWithParentheses_unmatched hascend h hl.1
  next hl =>
    by_cases hclose : l.token = .rightParen
    · have hopen : 0 < n.parens := by
        simpa [hclose, Nesting.isParenthesized, Nat.pos_iff_ne_zero] using hl
      have hcount := h.count_eq
      rw [ParseError.unexpected, hclose]
      refine ⟨by simp [← hclose], ?_⟩
      rw [(tokensBefore_eq hascend).1]
      omega
    · exact agreesWithParentheses_unexpected hclose _

/-- Nothing follows the end of the input if it stands in the last place and nowhere else. -/
theorem eq_nil_of_eq_concat {us : List Lexeme} {last : Lexeme} (hl : l.token = .endOfInput)
    (hlast : taken ++ l :: rest = us ++ [last]) (hus : .endOfInput ∉ us.map Lexeme.token) :
    rest = [] := by
  rcases cases_of_eq_concat hlast with ⟨hrest, _⟩ | ⟨between, _, rfl⟩
  · exact hrest
  · exact absurd (by simp [← hl]) hus

/-- A fault in the row of a text says nothing wrong about parentheses. -/
theorem Fault.agreesWithParentheses (h : Fault taken cause rest)
    (hascend : (taken ++ rest).Pairwise fun l l' => l.position < l'.position)
    {us : List Lexeme} {last : Lexeme} (hlast : taken ++ rest = us ++ [last])
    (hus : .endOfInput ∉ us.map Lexeme.token) : cause.AgreesWithParentheses (taken ++ rest) := by
  cases h with
  | strayPrimary h => exact agreesWithParentheses_stray hascend h.hasOpen
  | strayArguments h hl =>
    refine agreesWithParentheses_stray hascend ?_
    simpa using h.hasOpen.append_balanced hl.isBalanced
  | misfit h hmisfit =>
    cases hmisfit with
    | dry => trivial
    | unclosed hl =>
      obtain rfl := eq_nil_of_eq_concat hl hlast hus
      exact .inr (h.isLastUnclosed hl)
    | unexpected hclose => exact agreesWithParentheses_unexpected hclose _
  | _ => trivial

/-- A refusal of the row of a text says nothing wrong about parentheses. -/
theorem Refusal.agreesWithParentheses (h : Refusal taken cause rest)
    (hascend : (taken ++ rest).Pairwise fun l l' => l.position < l'.position)
    {us : List Lexeme} {last : Lexeme} (hlast : taken ++ rest = us ++ [last])
    (hus : .endOfInput ∉ us.map Lexeme.token) : cause.AgreesWithParentheses (taken ++ rest) := by
  cases h with
  | fault h => exact h.agreesWithParentheses hascend hlast hus
  | unopened h hl => exact agreesWithParentheses_unmatched hascend h.isBalanced hl
  | trailing _ hclose => exact agreesWithParentheses_unexpected hclose _

end

/-- If a true cause reports a closing parenthesis, it reports it as unmatched exactly if no
parenthesis is open there. -/
theorem ParseError.AgreesWithParentheses.eq_unmatched_iff {ls : List Lexeme} {cause : ParseError}
    {position : Nat} (h : cause.AgreesWithParentheses ls)
    (hascend : ls.Pairwise fun l l' => l.position < l'.position)
    (hreports : cause.Reports ⟨.rightParen, position⟩) (hmem : ⟨.rightParen, position⟩ ∈ ls) :
    cause = .unmatchedParenthesis position ↔ IsBalanced (tokensBefore ls position) := by
  -- Only two causes report a closing parenthesis.
  cases cause with
  | unmatchedParenthesis position' =>
    obtain rfl : position = position' := hreports.position_eq
    refine iff_of_true rfl ?_
    rcases h with ⟨_, hbalanced⟩ | hunclosed
    · exact hbalanced
    · cases eq_of_position_eq hascend hunclosed.mem hmem rfl
  | unexpectedToken token position' =>
    obtain ⟨rfl, rfl⟩ := Lexeme.mk.inj hreports
    refine iff_of_false (by simp) fun hbalanced => ?_
    have hcount := hbalanced.count_eq
    have hopen := h.2
    omega
  | tooDeep =>
    obtain ⟨hopen | hbang | ⟨op, hsign⟩ | ⟨name, hname⟩, _⟩ := hreports
    · cases hopen
    · cases hbang
    · cases op <;> cases hsign
    · cases hname
  | _ => cases hreports

/-- What is reported about the parentheses of a text is true: an unmatched one is a closing one
where none is open, or the last opening one that has no partner, and a closing one is unexpected
only where one is open. So a closing one that is reported is reported as unmatched exactly if none
is open there. -/
theorem agreesWithParentheses_of_parse {source : String} {ls : List Lexeme} {cause : ParseError}
    (htokens : tokenize source = .ok ls) (hparse : parse source = .error (.grammatical cause)) :
    cause.AgreesWithParentheses ls ∧
      ∀ position, ⟨.rightParen, position⟩ ∈ ls → cause.position = position →
        (cause = .unmatchedParenthesis position ↔ IsBalanced (tokensBefore ls position)) := by
  have hrenders := renders_of_tokenize htokens
  have hascend := hrenders.pairwise_position.2
  obtain ⟨us, last, hlast, hus⟩ := hrenders.exists_eq_concat
  obtain ⟨taken, rest, rfl, hrefusal⟩ :=
    refusal_of_ofLexemes (ofLexemes_eq_error_of_parse htokens hparse)
  have hagrees := hrefusal.agreesWithParentheses hascend hlast hus
  refine ⟨hagrees, fun position hmem hposition => ?_⟩
  obtain ⟨l, hl, hreports⟩ := hrefusal.exists_reports (by simp [hlast])
  have hplace : l.position = position := hreports.position_eq.trans hposition
  obtain rfl := eq_of_position_eq hascend hl hmem hplace
  exact hagrees.eq_unmatched_iff hascend hreports hmem

/-- In `-)` the closing parenthesis is unmatched, since none is open there. -/
theorem agreesWithParentheses_minus :
    tokenize "-)" = .ok [⟨.minus, 0⟩, ⟨.rightParen, 1⟩, ⟨.endOfInput, 2⟩] ∧
      parse "-)" = .error (.grammatical (.unmatchedParenthesis 1)) ∧
        (ParseError.unmatchedParenthesis 1).AgreesWithParentheses
            [⟨.minus, 0⟩, ⟨.rightParen, 1⟩, ⟨.endOfInput, 2⟩] ∧
          IsBalanced (tokensBefore [⟨.minus, 0⟩, ⟨.rightParen, 1⟩, ⟨.endOfInput, 2⟩] 1) := by
  have htokens : tokenize "-)" = .ok [⟨.minus, 0⟩, ⟨.rightParen, 1⟩, ⟨.endOfInput, 2⟩] := by
    show tokenizeFrom ['-', ')'] 0 [] = _
    rw [tokenizeFrom_token rfl rfl, tokenizeFrom_token rfl rfl, tokenizeFrom_nil]
    rfl
  have hclose : (unary ⟨1, 0⟩).run [⟨.rightParen, 1⟩, ⟨.endOfInput, 2⟩] =
      .error (.unmatchedParenthesis 1) [⟨.rightParen, 1⟩, ⟨.endOfInput, 2⟩] := by
    rw [unary_eq]
    rfl
  have hminus : (unary .outermost).run [⟨.minus, 0⟩, ⟨.rightParen, 1⟩, ⟨.endOfInput, 2⟩] =
      .error (.unmatchedParenthesis 1) [⟨.rightParen, 1⟩, ⟨.endOfInput, 2⟩] := by
    rw [unary_eq]
    show ((unary ⟨1, 0⟩).run _).andThen _ = _
    rw [hclose, Outcome.andThen_error]
  have hparse : parse "-)" = .error (.grammatical (.unmatchedParenthesis 1)) := by
    rw [parse_of_tokenize htokens]
    simp only [Expr.ofLexemes, expression, additive, sumOf, termOf, chain, hminus,
      Outcome.andThen_error]
    rfl
  obtain ⟨hagrees, hiff⟩ := agreesWithParentheses_of_parse htokens hparse
  exact ⟨htokens, hparse, hagrees, (hiff 1 (by simp) rfl).1 rfl⟩

end Calculator
