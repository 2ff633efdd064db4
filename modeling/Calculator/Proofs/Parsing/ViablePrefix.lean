import Calculator.Proofs.Parsing.Acceptance
import Calculator.Proofs.Parsing.Locality
import Calculator.Proofs.Token.Rendering
import Calculator.Calculation

/-!
# A fault is reported where it shows first

A row of tokens is viable if it can be continued to an expression. Reading from the left, what has
been taken is always viable; what is reported as a fault is the first lexeme with which the row is
viable no more. The end of the input is reported if the row is viable and no expression yet, and so
is a parenthesis that is still open there.

That what has been taken is viable follows from the places at which the parser can be: the open
operands, groups and lists are completed one after the other. That it is viable no more with the
lexeme reported follows from the converse, that every expression is read or refused for a limit:
since reading looks one lexeme ahead, it would stop at the same place in every continuation.

## Main definitions

* `Calculator.tokensBefore`, `Calculator.tokensUpTo`: the tokens of a row in front of a place, and
  with the one at that place.
* `Calculator.IsFirstFault`: a row is viable in front of a lexeme, and no more with it.
* `Calculator.ParseError.PointsInto`: the place that a cause reports is that of the first fault.

## Main results

* `Calculator.Expects.isViable_append`: what is expected can be completed to an expression.
* `Calculator.not_isViable_of_run`: where reading stops, the row is not viable any more.
* `Calculator.pointsInto_of_parse`: a text that is not accepted is reported to be wrong at its
  first fault.
-/

namespace Calculator

open Calculator.Parser

/-! ### What has been taken is viable -/

theorem Derives.isViable {d : Nat} {ts : List Token} {e : Expr} (h : Derives .expression d ts e) :
    IsViable ts :=
  ⟨[], d, e, by rwa [List.append_nil]⟩

/-- The end of the input is in no viable row. -/
theorem IsViable.endOfInput_notMem {ts : List Token} (h : IsViable ts) : .endOfInput ∉ ts := by
  obtain ⟨us, d, e, hd⟩ := h
  exact fun hmem => hd.endOfInput_notMem (List.mem_append_left us hmem)

section

variable {n m : Nesting} {ls us vs : List Lexeme} {l l' l'' : Lexeme}

/-- Where a phrase is expected, everything taken with such a phrase behind it is viable. -/
theorem Expects.isViable_append {x : Nonterminal} (h : Expects n ls x) {d : Nat}
    {ts : List Token} {e : Expr} (hd : Derives x d ts e) :
    IsViable (ls.map Lexeme.token ++ ts) := by
  induction h generalizing d ts e with
  | outermost => exact hd.isViable
  | first tier _ ih => exact ih (.operand tier hd)
  | @next tier _ _ us l op s _ left hop ih =>
    obtain ⟨d', _, hleft⟩ := left.derives
    obtain ⟨hsign, hcontains⟩ := (tier.operator?_eq_some_iff).1 hop
    simpa [hsign] using ih (.join tier op hcontains hleft hd)
  | negated _ hl ih => simpa [hl.1] using ih hd.negation
  | marked _ ih => exact ih hd.unsigned
  | primary _ ih => exact ih hd.unmarked
  | group _ hl ih =>
    refine IsViable.of_append [.rightParen] ?_
    simpa [hl.1] using ih hd.group
  | firstArgument _ hl hl' ih =>
    refine IsViable.of_append [.rightParen] ?_
    simpa [hl.1, hl'.1] using ih (.call hl.isSome_lookup (.one hd))
  | nextArgument _ hl hl' hargs hl'' ih =>
    obtain ⟨d', _, hlist⟩ := hargs.derives
    refine IsViable.of_append [.rightParen] ?_
    simpa [hl.1, hl'.1, hl''] using ih (.call hl.isSome_lookup (hlist.concat hd))

theorem Expects.isViable {x : Nonterminal} (h : Expects n ls x) :
    IsViable (ls.map Lexeme.token) := by
  obtain ⟨d, ts, e, hd⟩ := x.exists_derives
  exact .of_append ts (h.isViable_append hd)

/-- Behind the parenthesis of a group the row is viable. -/
theorem Expects.isViable_group (h : Expects n ls .primary) (hl : l.token = .leftParen) :
    IsViable ((ls ++ [l]).map Lexeme.token) := by
  obtain ⟨d, ts, e, hd⟩ := Nonterminal.expression.exists_derives
  refine IsViable.of_append (ts ++ [.rightParen]) ?_
  simpa [hl] using h.isViable_append hd.group

/-- Behind the name of a function and the parenthesis of its arguments the row is viable. -/
theorem Expects.isViable_list (h : Expects n ls .primary) {builtin : Builtin}
    (hl : l.Names builtin) (hl' : l'.token = .leftParen) :
    IsViable ((ls ++ [l, l']).map Lexeme.token) := by
  obtain ⟨d, ts, e, hd⟩ := Nonterminal.expression.exists_derives
  refine IsViable.of_append (ts ++ [.rightParen]) ?_
  simpa [hl.1, hl'] using h.isViable_append (.call hl.isSome_lookup (.one hd))

/-- Behind the name of a function the row is viable. -/
theorem Expects.isViable_name (h : Expects n ls .primary) {builtin : Builtin}
    (hl : l.Names builtin) : IsViable ((ls ++ [l]).map Lexeme.token) := by
  refine IsViable.of_append [.leftParen] ?_
  have hopening : (⟨.leftParen, 0⟩ : Lexeme).token = .leftParen := rfl
  simpa using h.isViable_list hl hopening

/-- Behind a list of arguments and its closing parenthesis the row is viable. -/
theorem Expects.isViable_call (h : Expects n ls .primary) {builtin : Builtin} {ss : List Subtree}
    (hl : l.Names builtin) (hl' : l'.Opens n m) (hargs : ReadsAll m us ss)
    (hl'' : l''.token = .rightParen) :
    IsViable ((ls ++ l :: l' :: (us ++ [l''])).map Lexeme.token) := by
  obtain ⟨d, _, hlist⟩ := hargs.derives
  simpa [hl.1, hl'.1, hl''] using h.isViable_append (.call hl.isSome_lookup hlist)

/-- Behind a member of a group or list the row is viable. -/
theorem Inside.isViable {list : Bool} {opening : Nat} (h : Inside list ls opening) :
    IsViable (ls.map Lexeme.token) := by
  refine IsViable.of_append [.rightParen] ?_
  cases h with
  | group h hl content =>
    obtain ⟨d, _, hd⟩ := content.derives
    simpa [hl.1] using h.isViable_append hd.group
  | list h hl hl' hargs =>
    obtain ⟨d, _, hlist⟩ := hargs.derives
    simpa [hl.1, hl'.1] using h.isViable_append (.call hl.isSome_lookup hlist)

/-- The parenthesis of a group or list is in the row. -/
theorem Inside.mem {list : Bool} {opening : Nat} (h : Inside list ls opening) :
    ⟨.leftParen, opening⟩ ∈ ls := by
  cases h with
  | group _ hl _ => simp [← hl.1]
  | list _ _ hl' _ => simp [← hl'.1]

/-- Behind a sign or a parenthesis the row is viable, also where no further level is allowed. -/
theorem Enters.isViable {position : Nat} (h : Enters n ls position) :
    IsViable (ls.map Lexeme.token) := by
  cases h with
  | negation h hl =>
    obtain ⟨d, ts, e, hd⟩ := Nonterminal.factor.exists_derives
    refine IsViable.of_append ts ?_
    simpa [hl] using h.isViable_append hd.negation
  | group h hl => exact h.isViable_group hl
  | list h hl hl' => exact h.isViable_list hl hl'

/-- Where all operands of a tree have been read the row is viable, also if the tree is too high. -/
theorem Composes.isViable {rest : List Lexeme} {e : Expr} {position : Nat}
    (h : Composes ls rest e position) : IsViable (ls.map Lexeme.token) := by
  cases h with
  | join tier h left hop right =>
    obtain ⟨d, _, hleft⟩ := left.derives
    obtain ⟨d', _, hright⟩ := right.derives
    obtain ⟨hsign, hcontains⟩ := (tier.operator?_eq_some_iff).1 hop
    simpa [hsign] using h.isViable_append (.join tier _ hcontains hleft hright)
  | negation h hl inner =>
    obtain ⟨d, _, hd⟩ := inner.derives
    simpa [hl.1] using h.isViable_append hd.negation
  | factorial h inner hl =>
    obtain ⟨d, _, hd⟩ := inner.derives
    simpa using h.isViable_append hd.unmarked
  | call h hl hl' hargs hl'' _ => exact h.isViable_call hl hl' hargs hl''

end

/-! ### Where reading stops the row is viable no more -/

/-- An expression is read as a whole, or refused for a limit or for a wrong number of arguments. -/
theorem run_of_isSentence {ls rest : List Lexeme} (h : IsSentence (ls.map Lexeme.token))
    (hrest : Nonterminal.expression.StopsAt rest) :
    (∃ s, Nonterminal.expression.run .outermost (ls ++ rest) = .ok s rest) ∨
      ∃ cause rest', Nonterminal.expression.run .outermost (ls ++ rest) = .error cause rest' ∧
        cause.Refuses False := by
  obtain ⟨d, e, hd⟩ := h
  have hsettles := hd.isSettled.stopsAt .outermost rfl hrest
  by_cases hfits : Fits .outermost d e
  · exact .inl ⟨_, hsettles.1 hfits⟩
  · obtain ⟨cause, rest', hrun, hcause⟩ := hsettles.2 hfits
    exact .inr ⟨cause, rest', hrun, hcause.imp False.elim⟩

/-- An expression can be read from a row, with another lexeme behind it, only up to that lexeme. -/
theorem run_append_of_head? {taken rest rest' : List Lexeme} {o : Outcome Subtree}
    (hrun : Nonterminal.expression.run .outermost (taken ++ rest) = o) (ho : o.rest = rest)
    (hrest : rest'.head? = rest.head?) :
    Nonterminal.expression.run .outermost (taken ++ rest') = o.before rest' := by
  obtain ⟨taken', hls, hlocal⟩ := isLocalAt_expression .outermost (taken ++ rest)
  have hexpression : (expression .outermost).run (taken ++ rest) = o := hrun
  rw [hexpression, ho] at hls
  rw [hexpression, ho] at hlocal
  obtain rfl := List.append_cancel_right hls
  exact hlocal rest' hrest

/-- If reading stops in front of a lexeme, and not for a limit or a wrong number of arguments, the
row is not viable with that lexeme. -/
theorem not_isViable_of_run {taken rest : List Lexeme} {l : Lexeme} {o : Outcome Subtree}
    (hrun : Nonterminal.expression.run .outermost (taken ++ l :: rest) = o)
    (ho : o.rest = l :: rest) (hcause : ∀ cause, o = .error cause (l :: rest) →
      ¬cause.Refuses False) : ¬IsViable ((taken ++ [l]).map Lexeme.token) := by
  rintro ⟨us, hsentence⟩
  let us' : List Lexeme := us.map fun token => ⟨token, 0⟩
  have hhead : (l :: us').head? = (l :: rest).head? := rfl
  have hlocal := run_append_of_head? hrun ho hhead
  have hus : us'.map Lexeme.token = us := by simp [us', Function.comp_def]
  have hwhole : IsSentence ((taken ++ l :: us').map Lexeme.token) := by simpa [hus] using hsentence
  have hread := run_of_isSentence hwhole (Nonterminal.stopsAt_nil _)
  rw [List.append_nil, hlocal] at hread
  rcases hread with ⟨s, hs⟩ | ⟨cause, rest', hrefused, hrefuses⟩
  · cases o <;> cases hs
  · cases o with
    | ok => cases hrefused
    | error cause' _ =>
      cases ho
      cases hrefused
      exact hcause cause rfl hrefuses

/-- If reading stops in front of an end of input, and not for a limit or a wrong number of
arguments, the row is no expression. -/
theorem not_isSentence_of_run {taken rest : List Lexeme} {l : Lexeme} {cause : ParseError}
    (hrun : Nonterminal.expression.run .outermost (taken ++ l :: rest) = .error cause (l :: rest))
    (hl : l.token = .endOfInput) (hcause : ¬cause.Refuses False) :
    ¬IsSentence (taken.map Lexeme.token) := by
  intro hsentence
  have hread := run_of_isSentence hsentence
    (Nonterminal.stopsAt_of_token (.inr (.inr hl)) _ rest)
  rw [hrun] at hread
  rcases hread with ⟨s, hs⟩ | ⟨cause', rest', hrefused, hrefuses⟩
  · cases hs
  · cases hrefused
    exact hcause hrefuses

/-! ### The first fault -/

/-- The tokens of the row in front of `position`. -/
def tokensBefore (ls : List Lexeme) (position : Nat) : List Token :=
  (ls.filter fun l => l.position < position).map Lexeme.token

/-- The tokens of the row in front of `position` and at it. -/
def tokensUpTo (ls : List Lexeme) (position : Nat) : List Token :=
  (ls.filter fun l => l.position ≤ position).map Lexeme.token

/-- The row is viable in front of the lexeme `l`, and no more with it. If `l` is the end of the
input, the row is no expression in front of it. -/
structure IsFirstFault (ls : List Lexeme) (l : Lexeme) : Prop where
  /-- The lexeme is in the row. -/
  mem : l ∈ ls
  /-- In front of the lexeme the row is viable. -/
  viable : IsViable (tokensBefore ls l.position)
  /-- In front of the end of the input the row is no expression. -/
  incomplete : l.token = .endOfInput → ¬IsSentence (tokensBefore ls l.position)
  /-- With another lexeme the row is not viable. -/
  stray : l.token ≠ .endOfInput → ¬IsViable (tokensUpTo ls l.position)

/-- The lexemes taken when the row is refused for `cause` are viable. -/
def IsRefusedBehindViable (ls : List Lexeme) (cause : ParseError) : Prop :=
  ∃ taken rest, ls = taken ++ rest ∧ (expression .outermost).run ls = .error cause rest ∧
    IsViable (taken.map Lexeme.token)

/-- The cause points to the first fault of the row. A parenthesis that is not closed is reported if
the row is viable up to its end and no expression. What is refused for a limit or a wrong number of
arguments is viable as far as it has been taken. -/
def ParseError.PointsInto (ls : List Lexeme) : ParseError → Prop
  | unexpectedToken token position => IsFirstFault ls ⟨token, position⟩
  | unknownFunction name position => IsFirstFault ls ⟨.identifier name, position⟩
  | unmatchedParenthesis position =>
      IsFirstFault ls ⟨.rightParen, position⟩ ∨
        (⟨.leftParen, position⟩ ∈ ls ∧ IsViable ((beforeEnd ls).map Lexeme.token) ∧
          ¬IsSentence ((beforeEnd ls).map Lexeme.token))
  | cause@(arityMismatch _ _ _ _) => IsRefusedBehindViable ls cause
  | cause@(tooDeep _) => IsRefusedBehindViable ls cause
  -- No text has a literal that denotes no number, so that nothing is said of it here.
  | invalidNumber _ _ => True

section

variable {ls taken rest : List Lexeme} {l : Lexeme}

/-- In a row whose places ascend, the lexemes in front of a place are those in front of the lexeme
at that place. -/
theorem tokensBefore_eq (h : (taken ++ l :: rest).Pairwise fun l l' => l.position < l'.position) :
    tokensBefore (taken ++ l :: rest) l.position = taken.map Lexeme.token ∧
      tokensUpTo (taken ++ l :: rest) l.position = (taken ++ [l]).map Lexeme.token := by
  obtain ⟨_, hrest, htaken⟩ := List.pairwise_append.1 h
  obtain ⟨hlater, _⟩ := List.pairwise_cons.1 hrest
  have hearlier : ∀ l' ∈ taken, l'.position < l.position := fun l' hl' =>
    htaken l' hl' l List.mem_cons_self
  have hkeep : taken.filter (fun l' => l'.position < l.position) = taken := by
    simpa [List.filter_eq_self] using hearlier
  have hkeep' : taken.filter (fun l' => l'.position ≤ l.position) = taken := by
    simpa [List.filter_eq_self] using fun l' hl' => Nat.le_of_lt (hearlier l' hl')
  have hdrop : rest.filter (fun l' => l'.position < l.position) = [] := by
    simpa [List.filter_eq_nil_iff] using fun l' hl' => Nat.le_of_lt (hlater l' hl')
  have hdrop' : rest.filter (fun l' => l'.position ≤ l.position) = [] := by
    simpa [List.filter_eq_nil_iff] using hlater
  constructor
  · simp [tokensBefore, hkeep, hdrop]
  · simp [tokensUpTo, hkeep', hdrop']

/-- Where reading stops in front of a lexeme, and not for a limit or a wrong number of arguments,
is the first fault. -/
theorem isFirstFault_of_run
    (hascend : (taken ++ l :: rest).Pairwise fun l l' => l.position < l'.position)
    (hviable : IsViable (taken.map Lexeme.token))
    (hincomplete : l.token = .endOfInput → ¬IsSentence (taken.map Lexeme.token))
    (hstray : l.token ≠ .endOfInput → ¬IsViable ((taken ++ [l]).map Lexeme.token)) :
    IsFirstFault (taken ++ l :: rest) l := by
  obtain ⟨hbefore, hupTo⟩ := tokensBefore_eq hascend
  refine ⟨by simp, ?_, ?_, ?_⟩
  · rwa [hbefore]
  · rwa [hbefore]
  · rwa [hupTo]

theorem isFirstFault_of_error {cause : ParseError}
    (hascend : (taken ++ l :: rest).Pairwise fun l l' => l.position < l'.position)
    (hrun : Nonterminal.expression.run .outermost (taken ++ l :: rest) = .error cause (l :: rest))
    (hviable : IsViable (taken.map Lexeme.token)) (hcause : ¬cause.Refuses False) :
    IsFirstFault (taken ++ l :: rest) l := by
  refine isFirstFault_of_run hascend hviable (fun hl => not_isSentence_of_run hrun hl hcause)
    fun _ => not_isViable_of_run hrun rfl ?_
  rintro _ ⟨⟩
  exact hcause

/-! ### Every cause points to the first fault -/

theorem pointsInto_unexpected (h : IsFirstFault ls l) : (ParseError.unexpected l).PointsInto ls := h

theorem pointsInto_unmatched (h : IsFirstFault ls l) (hl : l.token = .rightParen) :
    (ParseError.unmatchedParenthesis l.position).PointsInto ls := by
  refine .inl ?_
  rwa [← hl]

theorem pointsInto_stray (h : IsFirstFault ls l) (parenthesized : Bool) :
    (stray parenthesized l).PointsInto ls := by
  rw [stray]
  split
  next hl => exact pointsInto_unmatched h hl.1
  next => exact pointsInto_unexpected h

theorem not_refuses_stray (parenthesized : Bool) (l : Lexeme) :
    ¬(stray parenthesized l).Refuses False := by
  rw [stray]
  split <;> exact id

/-- What is viable is not all of a row with an end of input. -/
theorem IsViable.exists_eq_cons (hviable : IsViable (taken.map Lexeme.token))
    (hend : .endOfInput ∈ (taken ++ rest).map Lexeme.token) : rest ≠ [] := by
  rintro rfl
  rw [List.append_nil] at hend
  exact hviable.endOfInput_notMem hend

/-- What stops the reading of an expression from the row of a text is its first fault. -/
theorem Fault.pointsInto {cause : ParseError} (h : Fault taken cause rest)
    (hrun : Nonterminal.expression.run .outermost (taken ++ rest) = .error cause rest)
    (hascend : (taken ++ rest).Pairwise fun l l' => l.position < l'.position)
    (hend : .endOfInput ∈ (taken ++ rest).map Lexeme.token) :
    cause.PointsInto (taken ++ rest) := by
  cases h with
  | noPrimary h => exact absurd rfl (h.isViable.exists_eq_cons hend)
  | noArguments h hl => exact absurd rfl ((h.isViable_name hl).exists_eq_cons hend)
  | strayPrimary h _ _ _ =>
    exact pointsInto_stray
      (isFirstFault_of_error hascend hrun h.isViable (not_refuses_stray _ _)) _
  | strayArguments h hl _ =>
    exact pointsInto_stray
      (isFirstFault_of_error hascend hrun (h.isViable_name hl) (not_refuses_stray _ _)) _
  | invalidNumber => trivial
  | @unknownFunction _ ls _ l name h hl hname =>
    rw [List.append_assoc, List.singleton_append] at hascend ⊢
    have hstray : ¬IsViable ((ls ++ [l]).map Lexeme.token) := by
      rintro ⟨us, d, e, hd⟩
      have hmem : .identifier name ∈ (ls ++ [l]).map Lexeme.token ++ us := by simp [hl]
      have hsome := hd.isSome_lookup hmem
      simp [hname] at hsome
    have hfault := isFirstFault_of_run hascend h.isViable (by simp [hl]) fun _ => hstray
    show IsFirstFault _ ⟨.identifier name, l.position⟩
    rwa [← hl]
  | misfit h hmisfit =>
    cases hmisfit with
    | dry => exact absurd rfl (h.isViable.exists_eq_cons hend)
    | @unclosed l rest hl =>
      have hbefore : beforeEnd (taken ++ l :: rest) = taken := by
        rw [beforeEnd_append h.isViable.endOfInput_notMem, beforeEnd_cons_of_eq hl, List.append_nil]
      refine .inr ⟨List.mem_append_left _ h.mem, ?_, ?_⟩
      · rw [hbefore]
        exact h.isViable
      · rw [hbefore]
        exact not_isSentence_of_run hrun hl id
    | unexpected => exact pointsInto_unexpected (isFirstFault_of_error hascend hrun h.isViable id)
  | arityMismatch h hl hl' hargs hl'' _ =>
    exact ⟨_, rest, rfl, hrun, h.isViable_call hl hl' hargs hl''⟩
  | tooNested h _ => exact ⟨taken, rest, rfl, hrun, h.isViable⟩
  | tooHigh h _ => exact ⟨taken, rest, rfl, hrun, h.isViable⟩

end

/-- Behind an expression that has been read, the lexeme that is not the end of the input is the
first fault of the row of a text. -/
theorem pointsInto_of_trailing {ls rest : List Lexeme} {s : Subtree} {l : Lexeme}
    (hrun : Nonterminal.expression.run .outermost ls = .ok s (l :: rest))
    (hl : l.token ≠ .endOfInput)
    (hascend : ls.Pairwise fun l l' => l.position < l'.position) : IsFirstFault ls l := by
  obtain ⟨taken, rfl, hreads⟩ := reads_of_run hrun
  obtain ⟨d, _, hd⟩ := hreads.derives
  exact isFirstFault_of_run hascend hd.isViable (fun hend => absurd hend hl)
    fun _ => not_isViable_of_run hrun rfl nofun

/-- The cause for which the row of a text is refused points to its first fault. -/
theorem pointsInto_of_ofLexemes {ls : List Lexeme} {cause : ParseError}
    (h : Expr.ofLexemes ls = .error cause)
    (hascend : ls.Pairwise fun l l' => l.position < l'.position)
    (hend : .endOfInput ∈ ls.map Lexeme.token) : cause.PointsInto ls := by
  cases hrun : (expression .outermost).run ls with
  | error cause' rest =>
    rw [Expr.ofLexemes, hrun] at h
    obtain rfl := Except.error.inj h
    obtain ⟨taken, rfl, hfault⟩ := fault_of_run hrun
    exact hfault.pointsInto hrun hascend hend
  | ok s rest =>
    rw [Expr.ofLexemes, hrun] at h
    cases rest with
    | nil => cases h
    | cons l rest =>
      simp only at h
      split at h
      next => cases h
      next hl =>
        obtain rfl := Except.error.inj h
        exact pointsInto_unmatched (pointsInto_of_trailing hrun (by simp [hl]) hascend) hl
      next hl _ =>
        obtain rfl := Except.error.inj h
        exact pointsInto_unexpected (pointsInto_of_trailing hrun hl hascend)

/-- If a text is refused, its row of lexemes is viable in front of the fault that is reported, and
no more with it. -/
theorem pointsInto_of_parse {source : String} {ls : List Lexeme} {cause : ParseError}
    (htokens : tokenize source = .ok ls) (hparse : parse source = .error (.grammatical cause)) :
    cause.PointsInto ls := by
  have hrenders := renders_of_tokenize htokens
  have hrefused : Expr.ofLexemes ls = .error cause := by
    rw [parse_of_tokenize htokens] at hparse
    cases hread : Expr.ofLexemes ls with
    | error cause' =>
      rw [hread] at hparse
      cases hparse
      rfl
    | ok s =>
      rw [hread] at hparse
      cases hparse
  have hend : .endOfInput ∈ ls.map Lexeme.token := by
    obtain ⟨us, last, rfl, _⟩ := hrenders.exists_eq_concat
    simp
  exact pointsInto_of_ofLexemes hrefused hrenders.pairwise_position.2 hend

/-- In `-*` the first fault is the second lexeme. -/
theorem isFirstFault_star :
    tokenize "-*" = .ok [⟨.minus, 0⟩, ⟨.star, 1⟩, ⟨.endOfInput, 2⟩] ∧
      parse "-*" = .error (.grammatical (.unexpectedToken .star 1)) ∧
        IsFirstFault [⟨.minus, 0⟩, ⟨.star, 1⟩, ⟨.endOfInput, 2⟩] ⟨.star, 1⟩ := by
  have htokens : tokenize "-*" = .ok [⟨.minus, 0⟩, ⟨.star, 1⟩, ⟨.endOfInput, 2⟩] := by
    show tokenizeFrom ['-', '*'] 0 [] = _
    rw [tokenizeFrom_token rfl rfl, tokenizeFrom_token rfl rfl, tokenizeFrom_nil]
    rfl
  have hstar : (unary ⟨1, 0⟩).run [⟨.star, 1⟩, ⟨.endOfInput, 2⟩] =
      .error (.unexpectedToken .star 1) [⟨.star, 1⟩, ⟨.endOfInput, 2⟩] := by
    rw [unary_eq]
    rfl
  have hminus : (unary .outermost).run [⟨.minus, 0⟩, ⟨.star, 1⟩, ⟨.endOfInput, 2⟩] =
      .error (.unexpectedToken .star 1) [⟨.star, 1⟩, ⟨.endOfInput, 2⟩] := by
    rw [unary_eq]
    show ((unary ⟨1, 0⟩).run _).andThen _ = _
    rw [hstar, Outcome.andThen_error]
  have hparse : parse "-*" = .error (.grammatical (.unexpectedToken .star 1)) := by
    rw [parse_of_tokenize htokens]
    simp only [Expr.ofLexemes, expression, additive, sumOf, termOf, chain, hminus,
      Outcome.andThen_error]
    rfl
  exact ⟨htokens, hparse, pointsInto_of_parse htokens hparse⟩

end Calculator
