import Calculator.Proofs.Parsing.Locality
import Calculator.Proofs.Parsing.Parentheses

/-!
# Reading takes a part from the front and looks at one lexeme more

Whatever comes of reading, the lexemes that are left are the end of the row, and no end of the input
has been taken: no rule of the grammar asks for one, so that reading stops in front of it. This also
holds of failures, and at every nesting, even if it lies in no expression. Together with what a
success has taken, and with the one lexeme that decides where reading stops, it says how the parsers
of chains treat the row that they read from.

## Main definitions

* `Calculator.Outcome.SparesEnd`: what has been taken from a row holds no end of the input.
* `Calculator.Parser.Takes`: what a parser takes from a row, and on what its outcome depends.

## Main results

* `Calculator.sparesEnd_unary`, `Calculator.sparesEnd_ofTier`: the end of the input is never taken.
* `Calculator.chains_look_one_ahead`: what the parsers of expressions, sums and terms take.
-/

namespace Calculator

open Calculator.Parser

/-! ### The end of the input is not taken -/

/-- The outcome leaves the end of the row `ls`, and what it has taken holds no end of the input. -/
def Outcome.SparesEnd {α : Type} (o : Outcome α) (ls : List Lexeme) : Prop :=
  ∃ taken, ls = taken ++ o.rest ∧ .endOfInput ∉ taken.map Lexeme.token

section

variable {α β : Type} {o : Outcome α} {ls : List Lexeme}

/-- What leaves the whole row has taken nothing. -/
theorem sparesEnd_of_rest (h : o.rest = ls) : o.SparesEnd ls := ⟨[], h.symm, List.not_mem_nil⟩

theorem sparesEnd_ok (value : α) (ls : List Lexeme) : (Outcome.ok value ls).SparesEnd ls :=
  sparesEnd_of_rest rfl

theorem sparesEnd_error (cause : ParseError) (ls : List Lexeme) :
    (Outcome.error cause ls : Outcome α).SparesEnd ls :=
  sparesEnd_of_rest rfl

theorem sparesEnd_ofExcept (result : Except ParseError α) (ls : List Lexeme) :
    (Outcome.ofExcept result ls).SparesEnd ls := by
  cases result with
  | ok value => exact sparesEnd_ok value ls
  | error cause => exact sparesEnd_error cause ls

/-- Any other lexeme may be taken first. -/
theorem Outcome.SparesEnd.cons {l : Lexeme} (h : o.SparesEnd ls) (hl : l.token ≠ .endOfInput) :
    o.SparesEnd (l :: ls) := by
  obtain ⟨taken, hls, htaken⟩ := h
  exact ⟨l :: taken, congrArg (l :: ·) hls, by simp [htaken, hl.symm]⟩

/-- Reading on after a success takes from what is left. -/
theorem Outcome.SparesEnd.andThen {next : α → List Lexeme → Outcome β} (h : o.SparesEnd ls)
    (hnext : ∀ value rest, o = .ok value rest → (next value rest).SparesEnd rest) :
    (o.andThen next).SparesEnd ls := by
  obtain ⟨taken, hls, htaken⟩ := h
  cases o with
  | error cause rest => exact ⟨taken, hls, htaken⟩
  | ok value rest =>
    obtain ⟨taken', hrest, htaken'⟩ := hnext value rest rfl
    refine ⟨taken ++ taken', ?_, by simp [htaken, htaken']⟩
    rw [List.append_assoc, Outcome.andThen_ok, ← hrest]
    exact hls

end

/-! ### Repetitions -/

theorem sparesEnd_chainFrom (tier : Tier) {operand : Parser Subtree}
    (h : ∀ ls, (operand.run ls).SparesEnd ls) (left : Subtree) (ls : List Lexeme) :
    (chainFrom tier.operator? operand left ls).SparesEnd ls := by
  induction hlength : ls.length using Nat.strongRecOn generalizing left ls with
  | ind length ih =>
    cases ls with
    | nil =>
      rw [chainFrom]
      exact sparesEnd_ok left []
    | cons l ls =>
      rw [List.length_cons] at hlength
      cases hop : tier.operator? l.token with
      | none =>
        rw [chainFrom]
        simp only [hop]
        exact sparesEnd_ok left (l :: ls)
      | some op =>
        have hl : l.token ≠ .endOfInput := by
          rw [((tier.operator?_eq_some_iff).1 hop).1]
          cases op <;> exact Token.noConfusion
        rw [chainFrom_cons hop]
        refine ((h ls).andThen fun right rest hrun => ?_).cons hl
        have hshorter := operand.length_rest_lt hrun
        refine (sparesEnd_ofExcept _ rest).andThen fun joined rest' hjoin => ?_
        obtain ⟨_, rfl⟩ := Outcome.ofExcept_eq_ok_iff.1 hjoin
        exact ih rest'.length (by omega) joined rest' rfl

theorem sparesEnd_chain (tier : Tier) {operand : Parser Subtree}
    (h : ∀ ls, (operand.run ls).SparesEnd ls) (ls : List Lexeme) :
    ((chain tier.operator? operand).run ls).SparesEnd ls :=
  (h ls).andThen fun left rest _ => sparesEnd_chainFrom tier h left rest

theorem sparesEnd_argumentsFrom {item : Parser Subtree}
    (h : ∀ ls, (item.run ls).SparesEnd ls) (opening : Nat) (read : List Subtree)
    (ls : List Lexeme) : (argumentsFrom item opening read ls).SparesEnd ls := by
  induction hlength : ls.length using Nat.strongRecOn generalizing read ls with
  | ind length ih =>
    rw [argumentsFrom_eq]
    refine (h ls).andThen fun value rest hrun => ?_
    have hshorter := item.length_rest_lt hrun
    cases rest with
    | nil => exact sparesEnd_error _ []
    | cons l rest =>
      rw [List.length_cons] at hshorter
      have hrest := ih rest.length (by omega) (value :: read) rest rfl
      cases hl : l.token with
      | comma =>
        simp only [argumentsBehind, hl]
        exact hrest.cons (by simp [hl])
      | rightParen =>
        simp only [argumentsBehind, hl]
        exact (sparesEnd_ok _ rest).cons (by simp [hl])
      | _ =>
        simp only [argumentsBehind, hl]
        exact sparesEnd_error _ (l :: rest)

/-! ### Primaries and factors -/

theorem sparesEnd_closing {α : Type} (opening : Nat) (value : α) (ls : List Lexeme) :
    (closing opening value ls).SparesEnd ls := by
  cases ls with
  | nil => exact sparesEnd_error _ []
  | cons l ls =>
    cases hl : l.token with
    | rightParen =>
      simp only [closing, hl]
      exact (sparesEnd_ok value ls).cons (by simp [hl])
    | _ =>
      simp only [closing, hl]
      exact sparesEnd_error _ (l :: ls)

theorem sparesEnd_literal (text : String) (position : Nat) (ls : List Lexeme) :
    (literal text position ls).SparesEnd ls := by
  rw [literal]
  split
  · exact sparesEnd_error _ ls
  · exact sparesEnd_ok _ ls

theorem sparesEnd_group {inner : Except ParseError (Parser Subtree)}
    (h : ∀ content, inner = .ok content → ∀ ls, (content.run ls).SparesEnd ls) (opening : Nat)
    (ls : List Lexeme) : (group inner opening ls).SparesEnd ls := by
  cases inner with
  | error cause => exact sparesEnd_error cause ls
  | ok content => exact (h content rfl ls).andThen fun s rest _ => sparesEnd_closing opening s rest

theorem sparesEnd_call {enclosed : Nat → Except ParseError (Parser Subtree)}
    (h : ∀ position item, enclosed position = .ok item → ∀ ls, (item.run ls).SparesEnd ls)
    (parenthesized : Bool) (name : String) (position : Nat) (ls : List Lexeme) :
    (call enclosed parenthesized name position ls).SparesEnd ls := by
  rw [call]
  split
  · exact sparesEnd_error _ ls
  next builtin _ =>
  cases ls with
  | nil => exact sparesEnd_error _ []
  | cons l ls =>
    dsimp only
    split
    next hl =>
      refine Outcome.SparesEnd.cons ?_ (by simp [hl])
      split
      · exact sparesEnd_error _ ls
      next item henclosed =>
        have hargs := sparesEnd_argumentsFrom (h l.position item henclosed) l.position [] ls
        refine hargs.andThen fun args rest _ => ?_
        split
        · exact sparesEnd_ofExcept _ rest
        · exact sparesEnd_error _ rest
    · exact sparesEnd_error _ (l :: ls)

theorem sparesEnd_primary {enclosed : Nat → Except ParseError (Parser Subtree)}
    (h : ∀ position content, enclosed position = .ok content →
      ∀ ls, (content.run ls).SparesEnd ls) (parenthesized : Bool) (ls : List Lexeme) :
    (Parser.primary enclosed parenthesized ls).SparesEnd ls := by
  cases ls with
  | nil => exact sparesEnd_error _ []
  | cons l ls =>
    cases hl : l.token with
    | number text =>
      simp only [Parser.primary, hl]
      exact (sparesEnd_literal text l.position ls).cons (by simp [hl])
    | identifier name =>
      simp only [Parser.primary, hl]
      exact (sparesEnd_call h parenthesized name l.position ls).cons (by simp [hl])
    | leftParen =>
      simp only [Parser.primary, hl]
      exact (sparesEnd_group (h l.position) l.position ls).cons (by simp [hl])
    | _ =>
      simp only [Parser.primary, hl]
      exact sparesEnd_error _ (l :: ls)

theorem sparesEnd_factorialMark (operand : Subtree) (ls : List Lexeme) :
    (factorialMark operand ls).SparesEnd ls := by
  cases ls with
  | nil => exact sparesEnd_ok operand []
  | cons l ls =>
    rw [factorialMark]
    split
    next hl =>
      cases operand.factorial l.position with
      | error cause => exact sparesEnd_error cause (l :: ls)
      | ok subtree => exact (sparesEnd_ok subtree ls).cons (by simp [hl])
    · exact sparesEnd_ok operand (l :: ls)

theorem sparesEnd_negation {inner : Except ParseError (Parser Subtree)}
    (h : ∀ operand, inner = .ok operand → ∀ ls, (operand.run ls).SparesEnd ls) (position : Nat)
    (ls : List Lexeme) : (negation inner position ls).SparesEnd ls := by
  cases inner with
  | error cause => exact sparesEnd_error cause ls
  | ok operand => exact (h operand rfl ls).andThen fun _ rest _ => sparesEnd_ofExcept _ rest

/-- No factor takes the end of the input. Behind a sign and behind a parenthesis there is less room,
so that what they enclose does not take it already. -/
theorem sparesEnd_unary (n : Nesting) (ls : List Lexeme) : ((unary n).run ls).SparesEnd ls := by
  induction hroom : n.room using Nat.strongRecOn generalizing n ls with
  | ind room ih =>
    have hnegated : ∀ position operand, negated n position = .ok operand →
        ∀ ls, (operand.run ls).SparesEnd ls := by
      intro position operand hoperand ls
      obtain ⟨m, hm, rfl⟩ := negated_eq_ok_iff.1 hoperand
      have hroom' := Nesting.room_of_deeper hm
      exact ih m.room (by omega) m ls rfl
    have henclosed : ∀ position content, enclosed n position = .ok content →
        ∀ ls, (content.run ls).SparesEnd ls := by
      intro position content hcontent ls
      obtain ⟨m, hm, rfl⟩ := enclosed_eq_ok_iff.1 hcontent
      have hroom' := Nesting.room_of_parenthesized hm
      exact sparesEnd_chain .additive
        (sparesEnd_chain .multiplicative fun us => ih m.room (by omega) m us rfl) ls
    rw [run_unary]
    cases ls with
    | nil => exact sparesEnd_error _ []
    | cons l ls =>
      rw [readFactor]
      split
      next hl => exact (sparesEnd_negation (hnegated l.position) l.position ls).cons (by simp [hl])
      next =>
        exact (sparesEnd_primary henclosed n.isParenthesized (l :: ls)).andThen
          fun s rest _ => sparesEnd_factorialMark s rest

theorem sparesEnd_ofTier (n : Nesting) (tier : Tier) (ls : List Lexeme) :
    ((ofTier n tier).run ls).SparesEnd ls := by
  have hterm : ∀ us, ((multiplicative n).run us).SparesEnd us :=
    sparesEnd_chain .multiplicative (sparesEnd_unary n)
  cases tier with
  | additive => exact sparesEnd_chain .additive hterm ls
  | multiplicative => exact hterm ls

/-! ### One lexeme of lookahead -/

/-- From the row `ls` the parser takes the part `taken`. It stops behind a balanced part, at which
it does not go on with one of the `signs`, or somewhere else with a failure; and the lexemes behind
the one at which it stops have no part in that. -/
structure Parser.Takes (p : Parser Subtree) (signs : List Token) (ls taken : List Lexeme) :
    Prop where
  /-- What is left is the end of the row. -/
  eq_append : ls = taken ++ (p.run ls).rest
  /-- The end of the input is not taken. -/
  endOfInput_notMem : .endOfInput ∉ taken.map Lexeme.token
  /-- A success takes something. -/
  ne_nil : ∀ s rest, p.run ls = .ok s rest → taken ≠ []
  /-- A success closes as many parentheses as it opens, and none in front of it. -/
  isBalanced : ∀ s rest, p.run ls = .ok s rest → IsBalanced (taken.map Lexeme.token)
  /-- A success stops in front of none of the signs. -/
  stops : ∀ s l rest, p.run ls = .ok s (l :: rest) → l.token ∉ signs
  /-- A success stops in front of a factorial mark only behind another one. -/
  stops_bang : ∀ s l rest, p.run ls = .ok s (l :: rest) → l.token = .bang →
    (taken.map Lexeme.token).getLast? = some .bang
  /-- In front of another rest with the same head, or in front of none if there is none, what comes
  of reading is the same. -/
  congr : ∀ rest, rest.head? = (p.run ls).rest.head? →
    p.run (taken ++ rest) = (p.run ls).before rest

theorem isLocalAt_ofTier (n : Nesting) (tier : Tier) (ls : List Lexeme) :
    IsLocalAt (ofTier n tier).run ls := by
  have hterm : ∀ us, IsLocalAt (multiplicative n).run us := isLocalAt_chain _ (isLocalAt_unary n)
  cases tier with
  | additive => exact isLocalAt_chain _ hterm ls
  | multiplicative => exact hterm ls

/-- What the parser of the chains of a tier takes, which does not stop in front of the signs with
which such a chain goes on. -/
theorem exists_takes_ofTier (n : Nesting) (tier : Tier) {signs : List Token}
    (hsigns : ∀ token ∈ signs, (Nonterminal.chain tier).GoesOnWith token ∧ token ≠ .bang)
    (ls : List Lexeme) : ∃ taken, (ofTier n tier).Takes signs ls taken := by
  obtain ⟨taken, hls, hcongr⟩ := isLocalAt_ofTier n tier ls
  obtain ⟨taken', hls', hend⟩ := sparesEnd_ofTier n tier ls
  obtain rfl := List.append_cancel_right (hls.symm.trans hls')
  -- What a success has taken is a phrase up to its end.
  have hreads : ∀ s rest, (ofTier n tier).run ls = .ok s rest →
      ReadsUpTo (.chain tier) n taken s rest := by
    intro s rest hrun
    obtain ⟨taken', hls', htaken⟩ := readsUpTo_of_run (x := .chain tier) hrun
    rw [hrun] at hls
    obtain rfl := List.append_cancel_right (hls.symm.trans hls')
    exact htaken
  refine ⟨taken, hls, hend, fun s rest hrun => ?_, fun s rest hrun => ?_,
    fun s l rest hrun hmem => ?_, fun s l rest hrun hl => ?_, hcongr⟩
  · rintro rfl
    have hshorter := (ofTier n tier).length_rest_lt hrun
    rw [hrun] at hls
    exact Nat.lt_irrefl _ (hls ▸ hshorter)
  · exact (hreads s rest hrun).reads.isBalanced
  · obtain ⟨hgo, hbang⟩ := hsigns _ hmem
    exact hbang (Nonterminal.endsAt_cons_iff.1 (hreads s (l :: rest) hrun).ends hgo).1
  · have hgo : (Nonterminal.chain tier).GoesOnWith l.token := by
      rw [hl]
      cases tier <;> exact .inl rfl
    exact (Nonterminal.endsAt_cons_iff.1 (hreads s (l :: rest) hrun).ends hgo).2

/-- Expressions, sums and terms are read from the front of the row, at every nesting and with one
lexeme of lookahead. -/
theorem chains_look_one_ahead (n : Nesting) (ls : List Lexeme) :
    (∃ taken, (expression n).Takes [.star, .slash, .plus, .minus] ls taken) ∧
      (∃ taken, (additive n).Takes [.star, .slash, .plus, .minus] ls taken) ∧
        ∃ taken, (multiplicative n).Takes [.star, .slash] ls taken := by
  have hsum : ∃ taken, (additive n).Takes [.star, .slash, .plus, .minus] ls taken := by
    refine exists_takes_ofTier n .additive (fun token hmem => ?_) ls
    simp only [List.mem_cons, List.not_mem_nil, or_false] at hmem
    rcases hmem with rfl | rfl | rfl | rfl
    · exact ⟨.inr ⟨.mul, rfl⟩, Token.noConfusion⟩
    · exact ⟨.inr ⟨.div, rfl⟩, Token.noConfusion⟩
    · exact ⟨.inr ⟨.add, rfl⟩, Token.noConfusion⟩
    · exact ⟨.inr ⟨.sub, rfl⟩, Token.noConfusion⟩
  refine ⟨hsum, hsum, exists_takes_ofTier n .multiplicative (fun token hmem => ?_) ls⟩
  simp only [List.mem_cons, List.not_mem_nil, or_false] at hmem
  rcases hmem with rfl | rfl
  · exact ⟨.inr (.inl rfl), Token.noConfusion⟩
  · exact ⟨.inr (.inr rfl), Token.noConfusion⟩

end Calculator
