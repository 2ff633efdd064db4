import Mathlib.Data.List.Nodup
import Calculator.Proofs.Parsing.ViablePrefix

/-!
# What a cause reports

A row is refused because an expression cannot be read from it, or because more follows behind the
expression. If the row has an end of input, the cause reports one of its lexemes: the place is that
of the lexeme, and the token or the name is the one that stands there.

## Main definitions

* `Calculator.Refusal`: all ways in which a row is refused.
* `Calculator.ParseError.Reports`: a cause reports a lexeme.

## Main results

* `Calculator.refusal_of_ofLexemes`: a row that is not accepted is refused in one of these ways.
* `Calculator.Refusal.exists_reports`, `Calculator.exists_refusal_of_parse`: the cause reports a
  lexeme of the row.
-/

namespace Calculator

open Calculator.Parser

/-- `Refusal taken cause rest`: a row is refused for `cause` behind the lexemes `taken`, in front of
`rest`. -/
inductive Refusal : List Lexeme → ParseError → List Lexeme → Prop
  /-- An expression cannot be read. -/
  | fault {taken rest : List Lexeme} {cause : ParseError} (h : Fault taken cause rest) :
      Refusal taken cause rest
  /-- Behind the expression stands a parenthesis that closes nothing. -/
  | unopened {taken rest : List Lexeme} {s : Subtree} {l : Lexeme}
      (h : Reads .expression .outermost taken s) (hl : l.token = .rightParen) :
      Refusal taken (.unmatchedParenthesis l.position) (l :: rest)
  /-- Behind the expression stands another lexeme. -/
  | trailing {taken rest : List Lexeme} {s : Subtree} {l : Lexeme}
      (h : Reads .expression .outermost taken s) (hclose : l.token ≠ .rightParen)
      (hend : l.token ≠ .endOfInput) : Refusal taken (.unexpected l) (l :: rest)

/-- A row that is not accepted is refused. -/
theorem refusal_of_ofLexemes {ls : List Lexeme} {cause : ParseError}
    (h : Expr.ofLexemes ls = .error cause) :
    ∃ taken rest, ls = taken ++ rest ∧ Refusal taken cause rest := by
  cases hrun : (expression .outermost).run ls with
  | error cause' rest =>
    rw [Expr.ofLexemes, hrun] at h
    obtain rfl := Except.error.inj h
    obtain ⟨taken, rfl, hfault⟩ := fault_of_run hrun
    exact ⟨taken, rest, rfl, .fault hfault⟩
  | ok s rest =>
    obtain ⟨taken, rfl, hreads⟩ := reads_of_run (x := .expression) hrun
    rw [Expr.ofLexemes, hrun] at h
    cases rest with
    | nil => cases h
    | cons l rest =>
      simp only at h
      split at h
      next => cases h
      next hl =>
        obtain rfl := Except.error.inj h
        exact ⟨taken, l :: rest, rfl, .unopened hreads hl⟩
      next hend hclose =>
        obtain rfl := Except.error.inj h
        exact ⟨taken, l :: rest, rfl, .trailing hreads hclose hend⟩

/-- A text that is not accepted is refused for its row of lexemes. -/
theorem ofLexemes_eq_error_of_parse {source : String} {ls : List Lexeme} {cause : ParseError}
    (htokens : tokenize source = .ok ls) (hparse : parse source = .error (.grammatical cause)) :
    Expr.ofLexemes ls = .error cause := by
  obtain ⟨ls', htokens', hread⟩ := parse_eq_grammatical_iff.1 hparse
  obtain rfl := Except.ok.inj (htokens.symm.trans htokens')
  exact hread

/-! ### The lexeme that is reported -/

/-- A further level begins with the token, or it is the root of a tree of other trees. -/
def Token.BeginsLevelOrTree (token : Token) : Prop :=
  token = .leftParen ∨ token = .bang ∨ (∃ op : BinaryOperator, token = op.sign) ∨
    ∃ name, token = .identifier name

/-- The cause reports the lexeme: its place and, where the cause names it, its token. -/
def ParseError.Reports (l : Lexeme) : ParseError → Prop
  | unexpectedToken token position => l = ⟨token, position⟩
  | unmatchedParenthesis position => l = ⟨.leftParen, position⟩ ∨ l = ⟨.rightParen, position⟩
  | unknownFunction name position => l = ⟨.identifier name, position⟩
  | arityMismatch name _ _ position => l = ⟨.identifier name, position⟩
  | invalidNumber literal position => l = ⟨.number literal, position⟩
  | tooDeep position => l.token.BeginsLevelOrTree ∧ l.position = position

section

variable {taken rest ls : List Lexeme} {l : Lexeme} {cause : ParseError}

/-- The place that is reported is that of the lexeme. -/
theorem ParseError.Reports.position_eq (h : cause.Reports l) : l.position = cause.position := by
  cases cause with
  | unmatchedParenthesis => rcases h with rfl | rfl <;> rfl
  | tooDeep => exact h.2
  | _ =>
    obtain rfl : l = ⟨_, _⟩ := h
    rfl

theorem reports_unexpected (l : Lexeme) : (ParseError.unexpected l).Reports l := rfl

theorem reports_unmatched (hl : l.token = .rightParen) :
    (ParseError.unmatchedParenthesis l.position).Reports l := by
  refine .inr ?_
  rw [← hl]

theorem reports_stray (parenthesized : Bool) (l : Lexeme) : (stray parenthesized l).Reports l := by
  rw [stray]
  split
  next hl => exact reports_unmatched hl.1
  next => exact reports_unexpected l

/-- What leads further in is a sign or a parenthesis of the row. -/
theorem Enters.exists_mem {n : Nesting} {position : Nat} (h : Enters n ls position) :
    ∃ l ∈ ls, l.token.BeginsLevelOrTree ∧ l.position = position := by
  cases h with
  | @negation _ l _ hl => exact ⟨l, by simp, .inr (.inr (.inl ⟨.sub, hl⟩)), rfl⟩
  | @group _ l _ hl => exact ⟨l, by simp, .inl hl, rfl⟩
  | @list _ _ l _ _ _ hl => exact ⟨l, by simp, .inl hl, rfl⟩

/-- The root of a composed tree is in the row. -/
theorem Composes.exists_mem {e : Expr} {position : Nat} (h : Composes ls rest e position) :
    ∃ l ∈ ls ++ rest, l.token.BeginsLevelOrTree ∧ l.position = position := by
  cases h with
  | @join tier _ _ _ _ _ l op _ _ _ _ hop _ =>
    exact ⟨l, by simp, .inr (.inr (.inl ⟨op, ((tier.operator?_eq_some_iff).1 hop).1⟩)), rfl⟩
  | @negation _ _ _ _ _ l _ _ hl _ => exact ⟨l, by simp, .inr (.inr (.inl ⟨.sub, hl.1⟩)), rfl⟩
  | @factorial _ _ _ _ l _ _ _ hl => exact ⟨l, by simp, .inr (.inl hl), rfl⟩
  | @call _ _ _ _ _ l _ _ _ _ _ hl _ _ _ _ =>
    exact ⟨l, by simp, .inr (.inr (.inr ⟨_, hl.1⟩)), rfl⟩

/-- If there is an end of input in the row, a fault reports a lexeme of the row. -/
theorem Fault.exists_reports (h : Fault taken cause rest)
    (hend : .endOfInput ∈ (taken ++ rest).map Lexeme.token) :
    ∃ l ∈ taken ++ rest, cause.Reports l := by
  cases h with
  | noPrimary h => exact absurd rfl (h.isViable.exists_eq_cons hend)
  | noArguments h hl => exact absurd rfl ((h.isViable_name hl).exists_eq_cons hend)
  | @strayPrimary _ _ _ l => exact ⟨l, by simp, reports_stray _ l⟩
  | @strayArguments _ _ _ _ l => exact ⟨l, by simp, reports_stray _ l⟩
  | @invalidNumber _ _ _ l _ _ hl => exact ⟨l, by simp, by rw [ParseError.Reports, ← hl]⟩
  | @unknownFunction _ _ _ l _ _ hl => exact ⟨l, by simp, by rw [ParseError.Reports, ← hl]⟩
  | misfit h hmisfit =>
    cases hmisfit with
    | dry => exact absurd rfl (h.isViable.exists_eq_cons hend)
    | unclosed => exact ⟨_, List.mem_append_left _ h.mem, .inl rfl⟩
    | @unexpected l => exact ⟨l, by simp, reports_unexpected l⟩
  | @arityMismatch _ _ _ _ _ l _ _ _ _ _ hl =>
    exact ⟨l, by simp, by rw [ParseError.Reports, ← hl.1]⟩
  | tooNested h =>
    obtain ⟨l, hmem, hl⟩ := h.exists_mem
    exact ⟨l, List.mem_append_left _ hmem, hl⟩
  | tooHigh h => exact h.exists_mem

/-- If there is an end of input in the row, the cause of a refusal reports a lexeme of the row. -/
theorem Refusal.exists_reports (h : Refusal taken cause rest)
    (hend : .endOfInput ∈ (taken ++ rest).map Lexeme.token) :
    ∃ l ∈ taken ++ rest, cause.Reports l := by
  cases h with
  | fault h => exact h.exists_reports hend
  | @unopened _ _ l _ hl => exact ⟨l, by simp, reports_unmatched hl⟩
  | @trailing _ _ l => exact ⟨l, by simp, reports_unexpected l⟩

/-- If a text is refused for its tokens, its row is refused for the same cause, which reports a
lexeme of the row. -/
theorem exists_refusal_of_parse {source : String}
    (h : parse source = .error (.grammatical cause)) :
    ∃ taken rest, tokenize source = .ok (taken ++ rest) ∧ Refusal taken cause rest ∧
      ∃ l ∈ taken ++ rest, cause.Reports l := by
  obtain ⟨ls, htokens, hread⟩ := parse_eq_grammatical_iff.1 h
  obtain ⟨us, last, hlast, _⟩ := (renders_of_tokenize htokens).exists_eq_concat
  obtain ⟨taken, rest, rfl, hrefusal⟩ := refusal_of_ofLexemes hread
  exact ⟨taken, rest, htokens, hrefusal, hrefusal.exists_reports (by simp [hlast])⟩

/-- In a row whose places ascend, there is one lexeme at a place. -/
theorem eq_of_position_eq (hascend : ls.Pairwise fun l l' => l.position < l'.position)
    {l' : Lexeme} (hl : l ∈ ls) (hl' : l' ∈ ls) (h : l.position = l'.position) : l = l' := by
  have hnodup : (ls.map Lexeme.position).Nodup := List.pairwise_map.2 (hascend.imp Nat.ne_of_lt)
  exact List.inj_on_of_nodup_map hnodup hl hl' h

end

end Calculator
