import Calculator.Proofs.Parsing.Limit
import Calculator.Proofs.Parsing.Lookahead

/-!
# Rows with and without an end of input

A row is read up to its first end of input. What follows that makes no difference, and where it
stands is told only by a refusal that happens in front of it. If there is no end of input, the row
is accepted as if there were one; where an end of input would be refused, or the parenthesis that is
still open there, the row runs dry, which is reported at the place zero.

That a row runs dry where it would be refused for its end follows from the faults: behind the same
open operands, groups and lists, and with no lexeme left, the parser asks for one more.

## Main definitions

* `Calculator.IsRefusedAtEnd`: a row is refused for its end of input.
* `Calculator.ParseError.withoutEnd`: what is reported if the row ends where the end of the input
  would stand.

## Main results

* `Calculator.Fault.run_withoutEnd`: a fault in front of the end of the input, without that end.
* `Calculator.ofLexemes_end_of_input`: rows with, without and beyond an end of input.
-/

namespace Calculator

open Calculator.Parser

/-- The row is refused for its end of input: that is unexpected, or it stands where a parenthesis is
still open. -/
def IsRefusedAtEnd (ls : List Lexeme) (cause : ParseError) : Prop :=
  (∃ position, cause = .unexpectedToken .endOfInput position) ∨
    ∃ opening l rest, cause = .unmatchedParenthesis opening ∧ l.token = .endOfInput ∧
      (expression .outermost).run ls = .error cause (l :: rest)

/-- What is reported for a cause that was found in front of the end of the input, if the row ends
there instead. -/
def ParseError.withoutEnd : ParseError → ParseError
  | unexpectedToken .endOfInput _ => .outOfLexemes
  | unmatchedParenthesis _ => .outOfLexemes
  | cause => cause

section

variable {n : Nesting} {ls taken rest : List Lexeme} {l : Lexeme} {cause : ParseError}

/-! ### Rows that run dry -/

/-- What begins no primary is, at the end of the input, the end of the input. -/
theorem withoutEnd_stray (hl : l.token = .endOfInput) (parenthesized : Bool) :
    (stray parenthesized l).withoutEnd = .outOfLexemes := by
  simp [stray, hl, ParseError.unexpected, ParseError.withoutEnd]

/-- A list of arguments runs dry behind an argument. -/
theorem DerivesAll.argumentsFrom_eq_error {d : Nat} {ts : List Token} {es : List Expr}
    (h : DerivesAll d ts es) (hfits : FitsAll n d es) (opening : Nat) (read : List Subtree)
    (us : List Lexeme) (hus : us.map Lexeme.token = ts) :
    argumentsFrom (expression n) opening read us = .error .outOfLexemes [] := by
  induction h using DerivesAll.inductionOn generalizing us read with
  | one h =>
    have hitem : (expression n).run (us ++ []) = .ok _ [] :=
      (h.isSettled.stopsAt n hus (Nonterminal.stopsAt_nil _)).1
        ⟨hfits.1, hfits.2 _ List.mem_cons_self⟩
    rw [List.append_nil] at hitem
    rw [Parser.argumentsFrom_eq, hitem]
    rfl
  | cons h hs ih =>
    obtain ⟨us, vs, l', rfl, hus, hl', hvs⟩ := exists_of_map_token_eq hus
    have hroom := Nat.max_le.1 hfits.1
    have hall := List.forall_mem_cons.1 hfits.2
    rw [argumentsFrom_of_derives h ⟨hroom.1, hall.1⟩ hl' hus opening read]
    exact ih ⟨hroom.2, hall.2⟩ _ vs hvs

/-- Behind a member of an open group or list the row runs dry. -/
theorem Inside.run_eq_error {list : Bool} {opening : Nat} (h : Inside list taken opening) :
    Nonterminal.expression.run .outermost taken = .error .outOfLexemes [] := by
  cases h with
  | @group n m before us l s h hl content =>
    refine h.run_eq_error ?_ ?_
    · rintro _ ⟨⟩
      simp [hl.1]
    · have hcontent := ReadsUpTo.run_eq_ok ⟨content, Nonterminal.endsAt_nil _ _⟩
      rw [List.append_nil] at hcontent
      rw [hl.run_primary, hcontent]
      rfl
  | @list n m before us l l' builtin ss h hl hl' hargs =>
    obtain ⟨_, d, hd, hfits⟩ := hargs.fits
    refine h.run_eq_error ?_ ?_
    · rintro _ ⟨⟩
      simp [hl.1]
    · rw [hl.run_primary hl', hd.argumentsFrom_eq_error hfits l'.position [] us rfl,
        Outcome.andThen_error]

/-- What composes a tree in front of the end of the input does so where the row ends. -/
theorem Composes.withoutEnd {e : Expr} {position : Nat} (h : Composes taken (l :: rest) e position)
    (hl : l.token = .endOfInput) : Composes taken [] e position := by
  cases h with
  | join tier h left hop right _ => exact .join tier h left hop right (Nonterminal.endsAt_nil _ _)
  | negation h hl' inner _ => exact .negation h hl' inner (Nonterminal.endsAt_nil _ _)
  | factorial _ _ hbang => exact Token.noConfusion (hl.symm.trans hbang)
  | call h hl' hl'' hargs hclose hlength => exact .call h hl' hl'' hargs hclose hlength

/-- A fault in front of the end of the input is found as well if the row ends there, but for what is
reported about the end. -/
theorem Fault.run_withoutEnd (h : Fault taken cause (l :: rest)) (hl : l.token = .endOfInput) :
    Nonterminal.expression.run .outermost taken = .error cause.withoutEnd [] := by
  cases h with
  | @strayPrimary n _ _ _ h =>
    have hrun : Nonterminal.expression.run .outermost (taken ++ []) = .error .outOfLexemes [] :=
      h.run_eq_error nofun rfl
    rwa [List.append_nil, ← withoutEnd_stray hl n.isParenthesized] at hrun
  | @invalidNumber n before _ number literal h hnumber hread =>
    refine h.run_eq_error ?_ ?_
    · rintro _ ⟨⟩
      simp [hnumber]
    · simp only [Nonterminal.run, Parser.primary, hnumber, Parser.literal, hread]
      rfl
  | @unknownFunction n before _ name _ h hname hlookup =>
    refine h.run_eq_error ?_ ?_
    · rintro _ ⟨⟩
      simp [hname]
    · simp only [Nonterminal.run, Parser.primary, hname, Parser.call.eq_def, hlookup]
      rfl
  | @strayArguments n before _ name l builtin h hname _ =>
    rw [withoutEnd_stray hl]
    refine h.run_eq_error ?_ ?_
    · rintro _ ⟨⟩
      simp [hname.1]
    · simp only [Nonterminal.run, Parser.primary, hname.1, Parser.call.eq_def, hname.2]
  | misfit h hmisfit =>
    cases hmisfit with
    | unclosed _ => exact h.run_eq_error
    | unexpected _ hend _ => exact absurd hl hend
  | @arityMismatch n m before us _ name opening closing builtin ss h hname hopens hargs hclose
      hlength =>
    obtain ⟨hss, d, hd, hfits⟩ := hargs.fits
    have hlist : argumentsFrom (expression m) opening.position [] (us ++ [closing]) =
        .ok ss [] := by
      have hsettled := (hd.isSettledAll m us [] closing opening.position [] rfl hclose).1 hfits
      rwa [← hss] at hsettled
    refine h.run_eq_error ?_ ?_
    · rintro _ ⟨⟩
      simp [hname.1]
    · rw [hname.run_primary hopens, hlist, Outcome.andThen_ok, if_neg hlength]
      rfl
  | tooNested h hroom =>
    have hrun : Nonterminal.expression.run .outermost (taken ++ []) = _ := h.run_eq_error hroom
    rwa [List.append_nil] at hrun
  | tooHigh h hheight =>
    have hrun := (h.withoutEnd hl).run_eq_error hheight
    rwa [List.append_nil] at hrun

/-! ### Rows of lexemes -/

/-- The end of the input is reported by a fault only in front of it. -/
theorem Fault.token_eq_endOfInput {position : Nat}
    (h : Fault taken (.unexpectedToken .endOfInput position) (l :: rest)) :
    l.token = .endOfInput := by
  have hstray : ∀ (parenthesized : Bool) (l : Lexeme),
      .unexpectedToken .endOfInput position = stray parenthesized l → l.token = .endOfInput := by
    intro parenthesized l heq
    rw [stray] at heq
    split at heq
    · cases heq
    · exact (ParseError.unexpectedToken.inj heq).1.symm
  generalize hcause : ParseError.unexpectedToken .endOfInput position = cause at h
  cases h with
  | strayPrimary => exact hstray _ _ hcause
  | strayArguments => exact hstray _ _ hcause
  | misfit _ hmisfit =>
    cases hmisfit with
    | unclosed => cases hcause
    | unexpected => exact (ParseError.unexpectedToken.inj hcause).1.symm
  | _ => cases hcause

/-- How a row is read depends on what comes of reading an expression and on the head of the rest. -/
theorem ofLexemes_congr {ls' rest' : List Lexeme}
    (hrun : (expression .outermost).run ls' = ((expression .outermost).run ls).before rest')
    (hhead : rest'.head? = ((expression .outermost).run ls).rest.head?) :
    Expr.ofLexemes ls' = Expr.ofLexemes ls := by
  rw [Expr.ofLexemes, Expr.ofLexemes, hrun]
  cases hls : (expression .outermost).run ls with
  | error cause rest => rfl
  | ok s rest =>
    rw [hls] at hhead
    cases rest with
    | nil =>
      obtain rfl := List.head?_eq_none_iff.1 hhead
      rfl
    | cons l rest =>
      obtain ⟨us, rfl⟩ := List.head?_eq_some_iff.1 hhead
      rfl

/-- What is taken of a row in front of its end of input is in front of it. -/
theorem exists_eq_append_end {front : List Lexeme} (hl : l.token = .endOfInput)
    (heq : front ++ l :: rest = taken ++ ls) (htaken : .endOfInput ∉ taken.map Lexeme.token) :
    ∃ us, front = taken ++ us ∧ ls = us ++ l :: rest := by
  rcases List.append_eq_append_iff.1 heq with ⟨_ | ⟨_, us⟩, rfl, hrest⟩ | ⟨us, rfl, rfl⟩
  · exact ⟨[], by simp, hrest.symm⟩
  · obtain ⟨rfl, -⟩ := List.cons.inj hrest
    exact absurd (by simp [hl]) htaken
  · exact ⟨us, rfl, rfl⟩

/-- Reading stops in front of the end of the input at the latest, and goes alike in all rows that
are the same up to where it stops. -/
theorem exists_run_append_end (hl : l.token = .endOfInput) (front : List Lexeme) :
    ∃ taken us, front = taken ++ us ∧
      ((expression .outermost).run (front ++ [l])).rest = us ++ [l] ∧
      ∀ rest, rest.head? = (us ++ [l]).head? → (expression .outermost).run (taken ++ rest) =
        ((expression .outermost).run (front ++ [l])).before rest := by
  obtain ⟨taken, htakes⟩ :=
    exists_takes_ofTier .outermost .additive (List.forall_mem_nil _) (front ++ [l])
  obtain ⟨us, hfront, hrest⟩ :=
    exists_eq_append_end hl htakes.eq_append htakes.endOfInput_notMem
  exact ⟨taken, us, hfront, hrest, fun rest hhead => htakes.congr rest (hhead.trans (hrest ▸ rfl))⟩

/-- What follows the end of the input makes no difference. -/
theorem ofLexemes_append_end (hl : l.token = .endOfInput) (front rest : List Lexeme) :
    Expr.ofLexemes (front ++ l :: rest) = Expr.ofLexemes (front ++ [l]) := by
  obtain ⟨taken, us, rfl, hrest, hrun⟩ := exists_run_append_end hl front
  have hhead : (us ++ l :: rest).head? = (us ++ [l]).head? := head?_append_of_eq us rfl
  rw [List.append_assoc]
  exact ofLexemes_congr (hrun _ hhead) (hhead.trans (hrest ▸ rfl))

/-- A row is not refused for its end if reading stops in front of another lexeme. -/
theorem not_isRefusedAtEnd_of_rest (hrest : ((expression .outermost).run ls).rest = l :: rest)
    (hl : l.token ≠ .endOfInput) (hread : Expr.ofLexemes ls = .error cause) :
    ¬IsRefusedAtEnd ls cause := by
  rintro (⟨position, rfl⟩ | ⟨opening, l', rest', rfl, hl', hrun⟩)
  · cases hrun : (expression .outermost).run ls with
    | error cause rest' =>
      rw [Expr.ofLexemes, hrun] at hread
      rw [hrun] at hrest
      obtain rfl := Except.error.inj hread
      obtain rfl : rest' = l :: rest := hrest
      obtain ⟨taken, _, hfault⟩ := fault_of_run hrun
      exact hl hfault.token_eq_endOfInput
    | ok s rest' =>
      rw [hrun] at hrest
      obtain rfl : rest' = l :: rest := hrest
      rw [Expr.ofLexemes, hrun] at hread
      simp only at hread
      split at hread
      · cases hread
      · cases hread
      · exact hl (ParseError.unexpectedToken.inj (Except.error.inj hread)).1
  · rw [hrun] at hrest
    obtain ⟨rfl, -⟩ := List.cons.inj hrest
    exact hl hl'

/-- Where a row is refused in front of its end, the cause says whether it is refused for it. -/
theorem withoutEnd_eq_self (hl : l.token = .endOfInput)
    (hrun : (expression .outermost).run ls = .error cause (l :: rest))
    (h : ¬IsRefusedAtEnd ls cause) : cause.withoutEnd = cause := by
  cases cause with
  | unexpectedToken token position =>
    cases token with
    | endOfInput => exact absurd (.inl ⟨position, rfl⟩) h
    | _ => rfl
  | unmatchedParenthesis opening => exact absurd (.inr ⟨opening, l, rest, rfl, hl, hrun⟩) h
  | _ => rfl

theorem IsRefusedAtEnd.withoutEnd_eq (h : IsRefusedAtEnd ls cause) :
    cause.withoutEnd = .outOfLexemes := by
  obtain ⟨_, rfl⟩ | ⟨_, _, _, rfl, _⟩ := h <;> rfl

/-- Without its end of input a row runs dry if it is refused for that end, and is read alike
otherwise. -/
theorem ofLexemes_or_of_end (hl : l.token = .endOfInput) {front : List Lexeme}
    (hfront : .endOfInput ∉ front.map Lexeme.token) :
    (Expr.ofLexemes front = Expr.ofLexemes (front ++ [l]) ∧
        ∀ cause, Expr.ofLexemes (front ++ [l]) = .error cause →
          ¬IsRefusedAtEnd (front ++ [l]) cause) ∨
      ∃ cause, Expr.ofLexemes (front ++ [l]) = .error cause ∧
        IsRefusedAtEnd (front ++ [l]) cause ∧ Expr.ofLexemes front = .error .outOfLexemes := by
  obtain ⟨taken, us, hus, hrest, hcongr⟩ := exists_run_append_end hl front
  cases us with
  | cons l' us =>
    -- Reading stops in front of a lexeme that is left as well without the end.
    have hl' : l'.token ≠ .endOfInput := fun h => hfront (by simp [hus, ← h])
    have hrun := hcongr (l' :: us) rfl
    rw [← hus] at hrun
    exact .inl ⟨ofLexemes_congr hrun (hrest ▸ rfl),
      fun cause hread => not_isRefusedAtEnd_of_rest hrest hl' hread⟩
  | nil =>
    rw [List.append_nil] at hus
    cases hrun : (expression .outermost).run (front ++ [l]) with
    | ok s rest =>
      obtain rfl : rest = [l] := by rwa [hrun] at hrest
      obtain ⟨taken', htaken', hreads⟩ := readsUpTo_of_run (x := .expression) hrun
      obtain rfl := List.append_cancel_right htaken'
      have hdry := ReadsUpTo.run_eq_ok ⟨hreads.reads, Nonterminal.endsAt_nil _ _⟩
      rw [List.append_nil] at hdry
      have hread : Expr.ofLexemes (front ++ [l]) = .ok s :=
        ofLexemes_of_run_eq_ok hrun fun _ hmem => Option.some.inj hmem ▸ hl
      refine .inl ⟨?_, fun cause herror => ?_⟩
      · rw [hread, ofLexemes_of_run_eq_ok hdry nofun]
      · rw [hread] at herror
        cases herror
    | error cause rest =>
      obtain rfl : rest = [l] := by rwa [hrun] at hrest
      obtain ⟨taken', htaken', hfault⟩ := fault_of_run hrun
      obtain rfl := List.append_cancel_right htaken'
      have hread := ofLexemes_of_run_eq_error hrun
      have hdry := ofLexemes_of_run_eq_error (hfault.run_withoutEnd hl)
      by_cases hrefused : IsRefusedAtEnd (front ++ [l]) cause
      · rw [hrefused.withoutEnd_eq] at hdry
        exact .inr ⟨cause, hread, hrefused, hdry⟩
      · rw [withoutEnd_eq_self hl hrun hrefused] at hdry
        refine .inl ⟨hdry.trans hread.symm, fun cause' herror => ?_⟩
        obtain rfl := Except.error.inj (hread.symm.trans herror)
        exact hrefused

end

/-- A row with an end of input is read alike whatever follows that end. Without it the row is
accepted with the same tree, and refused for the same cause, but for one exception: where the row is
refused for its end, it runs dry without it, which is reported at the place zero. -/
theorem ofLexemes_end_of_input {front : List Lexeme}
    (hfront : .endOfInput ∉ front.map Lexeme.token) (position : Nat) (behind : List Lexeme) :
    Expr.ofLexemes (front ++ ⟨.endOfInput, position⟩ :: behind) =
        Expr.ofLexemes (front ++ [⟨.endOfInput, position⟩]) ∧
      (∀ s, Expr.ofLexemes front = .ok s ↔
        Expr.ofLexemes (front ++ [⟨.endOfInput, position⟩]) = .ok s) ∧
      ∀ cause, Expr.ofLexemes (front ++ [⟨.endOfInput, position⟩]) = .error cause →
        (IsRefusedAtEnd (front ++ [⟨.endOfInput, position⟩]) cause →
          Expr.ofLexemes front = .error (.unexpectedToken .endOfInput 0)) ∧
        (¬IsRefusedAtEnd (front ++ [⟨.endOfInput, position⟩]) cause →
          Expr.ofLexemes front = .error cause) := by
  refine ⟨ofLexemes_append_end rfl front behind, ?_⟩
  rcases ofLexemes_or_of_end (l := ⟨.endOfInput, position⟩) rfl hfront with
    ⟨heq, hnot⟩ | ⟨cause, hread, hrefused, hdry⟩
  · rw [heq]
    exact ⟨fun s => Iff.rfl, fun cause hread =>
      ⟨fun hrefused => absurd hrefused (hnot cause hread), fun _ => hread⟩⟩
  · refine ⟨fun s => ?_, fun cause' hread' => ?_⟩
    · rw [hread, hdry]
      exact ⟨nofun, nofun⟩
    · obtain rfl := Except.error.inj (hread.symm.trans hread')
      exact ⟨fun _ => hdry, fun hnot => absurd hrefused hnot⟩

/-- The row `(1` is refused for its end, also if a closing parenthesis follows that, and runs dry
without it. -/
theorem ofLexemes_end_of_input_unclosed :
    .endOfInput ∉ [⟨.leftParen, 0⟩, ⟨.number "1", 1⟩].map Lexeme.token ∧
      Expr.ofLexemes [⟨.leftParen, 0⟩, ⟨.number "1", 1⟩, ⟨.endOfInput, 2⟩, ⟨.rightParen, 2⟩] =
        .error (.unmatchedParenthesis 0) ∧
      Expr.ofLexemes [⟨.leftParen, 0⟩, ⟨.number "1", 1⟩, ⟨.endOfInput, 2⟩] =
        .error (.unmatchedParenthesis 0) ∧
      Expr.ofLexemes [⟨.leftParen, 0⟩, ⟨.number "1", 1⟩] =
        .error (.unexpectedToken .endOfInput 0) := by
  have hfront : .endOfInput ∉ [⟨.leftParen, 0⟩, ⟨.number "1", 1⟩].map Lexeme.token := by decide
  have hone : Number.read "1" = some 1 := by decide +kernel
  have hopens : (⟨.leftParen, 0⟩ : Lexeme).Opens .outermost ⟨1, 1⟩ := ⟨rfl, rfl⟩
  have hnumber : Reads .primary ⟨1, 1⟩ [⟨.number "1", 1⟩] (.number 1) := .number rfl hone
  have hcontent : Nonterminal.expression.run ⟨1, 1⟩ ([⟨.number "1", 1⟩] ++ [⟨.endOfInput, 2⟩]) =
      .ok (.number 1) [⟨.endOfInput, 2⟩] := by
    have hterm := hnumber.unmarked.unsigned.operand .multiplicative
    have hstops : Nonterminal.expression.StopsAt [⟨.endOfInput, 2⟩] :=
      Nonterminal.stopsAt_of_token (.inr (.inr rfl)) _ []
    exact ReadsUpTo.run_eq_ok ⟨hterm.operand .additive, hstops.endsAt _⟩
  rw [List.singleton_append] at hcontent
  have hprimary : Expects .outermost [] .primary :=
    ((Expects.outermost.first .additive).first .multiplicative).marked.primary
  have hrun : Nonterminal.expression.run .outermost
      ([] ++ [⟨.leftParen, 0⟩, ⟨.number "1", 1⟩, ⟨.endOfInput, 2⟩]) =
        .error (.unmatchedParenthesis 0) [⟨.endOfInput, 2⟩] := by
    refine hprimary.run_eq_error (by rintro _ ⟨⟩; simp) ?_
    rw [hopens.run_primary, hcontent]
    rfl
  have hread := ofLexemes_of_run_eq_error hrun
  obtain ⟨hbehind, _, hcauses⟩ := ofLexemes_end_of_input hfront 2 [⟨.rightParen, 2⟩]
  have hdry := (hcauses _ hread).1 (.inr ⟨0, _, _, rfl, rfl, hrun⟩)
  exact ⟨hfront, hbehind.trans hread, hread, hdry⟩

end Calculator
