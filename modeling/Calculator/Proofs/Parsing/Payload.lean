import Calculator.Proofs.Parsing.Parentheses
import Calculator.Proofs.Token.Calls

/-!
# What a cause carries

A cause carries more than its place: the token that did not fit, the name that is unknown, or the
number of arguments that a function takes and the number that was found. All of it is true of the
text. In particular, a call that is reported to have the wrong number of arguments is a call of the
text, with a list of that many expressions between its parentheses, and all calls that have been
closed in front of it or in it have the right number of arguments.

## Main definitions

* `Calculator.IsMiscall`: a call has more or fewer arguments than its function takes, and it is the
  first to be closed of which that is true.
* `Calculator.ParseError.IsJustified`: what a cause says about names, literals and numbers of
  arguments is true of a row.

## Main results

* `Calculator.Expects.hasOnlyValidCalls`: at every place, all calls that have been closed are valid.
* `Calculator.isJustified_of_parse`: the place that is reported is that of one lexeme of the text,
  and what is said about it is true.
-/

namespace Calculator

open Calculator.Parser

/-! ### Calls that have been read -/

section

variable {n m : Nesting} {ls us : List Lexeme} {l l' : Lexeme}

theorem Reads.hasOnlyValidCalls {x : Nonterminal} {s : Subtree} (h : Reads x n ls s) :
    HasOnlyValidCalls (ls.map Lexeme.token) := by
  obtain ⟨_, _, hd⟩ := h.derives
  exact hd.hasOnlyValidCalls h.hasValidCalls

theorem ReadsAll.hasOnlyValidCalls {ss : List Subtree} (h : ReadsAll n ls ss) :
    HasOnlyValidCalls (ls.map Lexeme.token) := by
  obtain ⟨_, _, hd⟩ := h.derives
  refine hd.hasOnlyValidCalls fun e he => ?_
  obtain ⟨s, hs, rfl⟩ := List.mem_map.1 he
  exact h.hasValidCalls s hs

/-- No phrase is expected right behind a name. -/
theorem Expects.getLast?_ne_identifier {x : Nonterminal} (h : Expects n ls x) (name : String) :
    (ls.map Lexeme.token).getLast? ≠ some (.identifier name) := by
  induction h with
  | outermost => simp
  | first _ _ ih => exact ih
  | @next tier _ _ _ _ op _ _ _ hop =>
    obtain ⟨hsign, _⟩ := (tier.operator?_eq_some_iff).1 hop
    simpa [hsign] using op.sign_ne.2.2 name
  | negated _ hl => simp [hl.1]
  | marked _ ih => exact ih
  | primary _ ih => exact ih
  | group _ hl => simp [hl.1]
  | firstArgument _ _ hl' => simp [hl'.1]
  | nextArgument _ _ _ _ hl'' => simp [hl'', List.getLast?_cons]

/-- At every place, all calls that have been closed are valid. -/
theorem Expects.hasOnlyValidCalls {x : Nonterminal} (h : Expects n ls x) :
    HasOnlyValidCalls (ls.map Lexeme.token) := by
  induction h with
  | outermost => exact hasOnlyValidCalls_of_notMem (by simp)
  | first _ _ ih => exact ih
  | @next tier _ _ _ l op _ h left hop ih =>
    obtain ⟨hsign, _⟩ := (tier.operator?_eq_some_iff).1 hop
    obtain ⟨hopen, hclose, _⟩ := op.sign_ne
    have hoperand :=
      ih.append left.hasOnlyValidCalls left.isBalanced (.inl h.getLast?_ne_identifier)
    simpa [hsign] using hoperand.concat hopen hclose
  | negated _ hl ih => simpa [hl.1] using ih.concat (t := .minus) (by simp) (by simp)
  | marked _ ih => exact ih
  | primary _ ih => exact ih
  | group h hl ih =>
    have hopen : HasOpen 1 [.leftParen] := HasOpen.concat_leftParen isBalanced_nil
    simpa [hl.1] using ih.append (hasOnlyValidCalls_of_notMem (by simp)) hopen
      (.inl h.getLast?_ne_identifier)
  | firstArgument _ hl hl' ih =>
    simpa [hl.1, hl'.1] using
      ih.append_call (hasOnlyValidCalls_of_notMem (by simp)) isBalanced_nil _
  | nextArgument _ hl hl' hargs hl'' ih =>
    have hcomma : IsBalanced [.comma] := isBalanced_singleton (by simp) (by simp)
    simpa [hl.1, hl'.1, hl''] using
      ih.append_call (hargs.hasOnlyValidCalls.concat (t := .comma) (by simp) (by simp))
        (hargs.isBalanced.append hcomma) _

end

/-! ### What is true of a cause -/

/-- The call of `name` behind the row `before`, with the row `content` between its parentheses, has
`found` arguments instead of the `expected` ones. They are expressions, and all calls that are
closed before this one are valid. -/
structure IsMiscall (name : String) (expected found : Nat) (before content : List Token) :
    Prop where
  /-- The function takes another number of arguments. -/
  arity_ne : ∃ builtin, Builtin.lookup name = some builtin ∧ builtin.arity = expected ∧
    expected ≠ found
  /-- The parenthesis behind the row is the partner of the one in front of it. -/
  isBalanced : IsBalanced content
  /-- The commas of the row divide it into as many parts as have been found. -/
  length_parts : (parts content).length = found
  /-- The parts are expressions with valid calls. -/
  isSentence : ∀ part ∈ parts content, IsSentence part ∧ HasOnlyValidCalls part
  /-- Every call that has been closed is valid. -/
  hasOnlyValidCalls : HasOnlyValidCalls (before ++ .identifier name :: .leftParen :: content)

/-- What the cause says about names, literals and numbers of arguments is true of the row. -/
def ParseError.IsJustified (ls : List Lexeme) : ParseError → Prop
  | unknownFunction name _ => Builtin.lookup name = none
  | invalidNumber literal _ => Number.read literal = none
  | arityMismatch name expected found position =>
      ∃ before opening content closing rest,
        ls = before ++ ⟨.identifier name, position⟩ :: ⟨.leftParen, opening⟩ ::
          (content ++ ⟨.rightParen, closing⟩ :: rest) ∧
        IsMiscall name expected found (before.map Lexeme.token) (content.map Lexeme.token)
  | _ => True

section

variable {taken rest : List Lexeme} {cause : ParseError}

theorem isJustified_stray (parenthesized : Bool) (l : Lexeme) (ls : List Lexeme) :
    (stray parenthesized l).IsJustified ls := by
  rw [stray]
  split <;> trivial

/-- A list with the wrong number of arguments makes a miscall. -/
theorem ReadsAll.isMiscall {n m : Nesting} {ls us : List Lexeme} {ss : List Subtree}
    {builtin : Builtin} (h : ReadsAll m us ss) (hbefore : Expects n ls .primary)
    (hname : Builtin.lookup builtin.name = some builtin) (hlength : ss.length ≠ builtin.arity) :
    IsMiscall builtin.name builtin.arity ss.length (ls.map Lexeme.token)
      (us.map Lexeme.token) := by
  obtain ⟨d, _, hd⟩ := h.derives
  refine ⟨⟨builtin, hname, rfl, hlength.symm⟩, h.isBalanced, by simpa using hd.length_parts,
    fun part hpart => ?_, hbefore.hasOnlyValidCalls.append_call h.hasOnlyValidCalls h.isBalanced _⟩
  obtain ⟨e, he, d', hderives⟩ := hd.exists_derives_of_mem_parts hpart
  obtain ⟨s, hs, rfl⟩ := List.mem_map.1 he
  exact ⟨⟨d', s.expr, hderives⟩, hderives.hasOnlyValidCalls (h.hasValidCalls s hs)⟩

/-- What a fault is reported for is true of the row. -/
theorem Fault.isJustified (h : Fault taken cause rest) : cause.IsJustified (taken ++ rest) := by
  cases h with
  | strayPrimary => exact isJustified_stray _ _ _
  | strayArguments => exact isJustified_stray _ _ _
  | invalidNumber _ _ hread => exact hread
  | unknownFunction _ _ hname => exact hname
  | misfit _ hmisfit => cases hmisfit <;> trivial
  | @arityMismatch _ _ before content rest l l' l'' _ _ h hl hl' hargs hl'' hlength =>
    refine ⟨before, l'.position, content, l''.position, rest, ?_,
      hargs.isMiscall h hl.2 hlength⟩
    rw [← hl.1, ← hl'.1, ← hl'']
    simp
  | _ => trivial

/-- What a row is refused for is true of it. -/
theorem Refusal.isJustified (h : Refusal taken cause rest) :
    cause.IsJustified (taken ++ rest) := by
  cases h with
  | fault h => exact h.isJustified
  | _ => trivial

end

/-! ### Texts -/

/-- If a text is refused for its tokens, the place that is reported is within the text and is that
of one of its lexemes, which the cause reports; a message about an unexpected token describes that
token. What the cause says about names, literals and numbers of arguments is true of the text. -/
theorem isJustified_of_parse {source : String} {cause : ParseError}
    (h : parse source = .error (.grammatical cause)) :
    ∃ ls, tokenize source = .ok ls ∧ cause.position ≤ source.length ∧ cause.IsJustified ls ∧
      ∃ l ∈ ls, (∀ l' ∈ ls, l'.position = cause.position ↔ l' = l) ∧ cause.Reports l ∧
        ∀ token position, cause = .unexpectedToken token position →
          cause.message = messageAt l.position ("Unexpected token: " ++ l.token.description) := by
  obtain ⟨taken, rest, htokens, hrefusal, l, hl, hreports⟩ := exists_refusal_of_parse h
  have hrenders := renders_of_tokenize htokens
  have hascend := hrenders.pairwise_position.2
  have hplace : cause.position ≤ source.length := by
    have hle := hrenders.position_le hl
    rwa [hreports.position_eq, Nat.zero_add, String.length_toList] at hle
  refine ⟨taken ++ rest, htokens, hplace, hrefusal.isJustified, l, hl, fun l' hl' => ?_, hreports,
    ?_⟩
  · refine ⟨fun hl'' => ?_, fun heq => heq ▸ hreports.position_eq⟩
    exact eq_of_position_eq hascend hl' hl (hl''.trans hreports.position_eq.symm)
  · rintro token position rfl
    obtain rfl : l = ⟨token, position⟩ := hreports
    rfl

/-- In `1+max(pow(1,2),3,4)` there are three expressions between the parentheses of the outer call,
and the inner call, which has been closed, is valid. -/
theorem isJustified_of_parse_max :
    parse "1+max(pow(1,2),3,4)" = .error (.grammatical (.arityMismatch "max" 2 3 2)) ∧
      ∃ ls, tokenize "1+max(pow(1,2),3,4)" = .ok ls ∧
        (ParseError.arityMismatch "max" 2 3 2).IsJustified ls ∧
          ∃ l ∈ ls, (ParseError.arityMismatch "max" 2 3 2).Reports l := by
  have hparse : parse "1+max(pow(1,2),3,4)" =
      .error (.grammatical (.arityMismatch "max" 2 3 2)) :=
    evaluate_eq_error_iff.1 (by decide +kernel)
  obtain ⟨ls, htokens, _, hjustified, l, hl, _, hreports, _⟩ := isJustified_of_parse hparse
  exact ⟨hparse, ls, htokens, hjustified, l, hl, hreports⟩

end Calculator
