import Calculator.Proofs.Parsing.Phrase

/-!
# What encloses a row has little to do with how it is read

A row is read at a nesting, which counts what encloses the row. The count of levels only decides how
many more are allowed: with fewer levels to go, reading fails as too deep or comes to the same. The
count of parentheses only decides how a closing one is reported that stands where a phrase should
begin, and for that it matters only whether any is open. Behind a further parenthesis some is open
in any case, so that a difference is never made inside of one.

## Main definitions

* `Calculator.Outcome.Compares`: how what comes of reading may differ between two nestings.
* `Calculator.Outcome.DifferInClosing`: two failures at a closing parenthesis, one of which says
  that none is open.

## Main results

* `Calculator.compares_unary`, `Calculator.compares_ofTier`: factors and chains are compared at two
  nestings.
* `Calculator.reading_at_two_nestings`: at one depth, and at one count of parentheses, a row is read
  alike but for such failures.
-/

namespace Calculator

open Calculator.Parser

/-- `Outcome.Compares n n' o o'`: at the nesting `n` the outcome of reading is `o`, and at the
nesting `n'`, which is at least as deep, it is `o'`. -/
inductive Outcome.Compares {α : Type} (n n' : Nesting) : Outcome α → Outcome α → Prop
  /-- The nestings make no difference. -/
  | same (o : Outcome α) : Compares n n' o o
  /-- At the deeper nesting a limit is not kept. -/
  | tooDeep (o : Outcome α) (position : Nat) (rest : List Lexeme) (h : n.depth < n'.depth) :
      Compares n n' o (.error (.tooDeep position) rest)
  /-- A closing parenthesis begins no phrase, and at one of the nestings only some is open. -/
  | closing (l : Lexeme) (rest : List Lexeme) (hl : l.token = .rightParen)
      (h : n.isParenthesized ≠ n'.isParenthesized) :
      Compares n n' (.error (stray n.isParenthesized l) (l :: rest))
        (.error (stray n'.isParenthesized l) (l :: rest))

/-- `Leads n n' inner inner'`: what `inner` reads one level further in than `n` compares with what
`inner'` reads one level further in than `n'`. -/
inductive Leads (n n' : Nesting) :
    Except ParseError (Parser Subtree) → Except ParseError (Parser Subtree) → Prop
  /-- Both levels are allowed. -/
  | ok (p p' : Parser Subtree) (h : ∀ ls, (p.run ls).Compares n n' (p'.run ls)) :
      Leads n n' (.ok p) (.ok p')
  /-- Neither level is allowed. -/
  | error (cause : ParseError) : Leads n n' (.error cause) (.error cause)
  /-- The deeper level is not allowed. -/
  | tooDeep (inner : Except ParseError (Parser Subtree)) (position : Nat)
      (h : n.depth < n'.depth) : Leads n n' inner (.error (.tooDeep position))

section

variable {α β : Type} {n n' m m' : Nesting} {o o' : Outcome α}

/-- Reading on after a success does not add to the differences. -/
theorem Outcome.Compares.andThen {next next' : α → List Lexeme → Outcome β}
    (h : o.Compares n n' o')
    (hnext : ∀ value rest, o = .ok value rest →
      (next value rest).Compares n n' (next' value rest)) :
    (o.andThen next).Compares n n' (o'.andThen next') := by
  cases h with
  | same =>
    cases o with
    | ok value rest => exact hnext value rest rfl
    | error cause rest => exact .same _
  | tooDeep _ position rest h => exact .tooDeep _ position rest h
  | closing l rest hl h => exact .closing l rest hl h

/-- What begins no phrase is refused with respect to the parentheses that are open. -/
theorem compares_stray (l : Lexeme) (rest : List Lexeme) :
    (Outcome.error (stray n.isParenthesized l) (l :: rest) : Outcome α).Compares n n'
      (.error (stray n'.isParenthesized l) (l :: rest)) := by
  by_cases h : n.isParenthesized = n'.isParenthesized
  · rw [h]
    exact .same _
  · by_cases hl : l.token = .rightParen
    · exact .closing l rest hl h
    · simp only [stray, hl, false_and, if_false]
      exact .same _

/-! ### Repetitions -/

theorem compares_chainFrom (operator? : Token → Option BinaryOperator)
    {operand operand' : Parser Subtree}
    (h : ∀ ls, (operand.run ls).Compares n n' (operand'.run ls)) (left : Subtree)
    (ls : List Lexeme) :
    (chainFrom operator? operand left ls).Compares n n' (chainFrom operator? operand' left ls) := by
  induction hlength : ls.length using Nat.strongRecOn generalizing left ls with
  | ind length ih =>
    cases ls with
    | nil =>
      rw [chainFrom, chainFrom]
      exact .same _
    | cons l ls =>
      rw [List.length_cons] at hlength
      cases hop : operator? l.token with
      | none =>
        rw [chainFrom, chainFrom]
        simp only [hop]
        exact .same _
      | some op =>
        rw [chainFrom_cons hop, chainFrom_cons hop]
        refine (h ls).andThen fun right rest hrun => ?_
        have hshorter := operand.length_rest_lt hrun
        refine (Outcome.Compares.same _).andThen fun joined rest' hjoin => ?_
        obtain ⟨_, rfl⟩ := Outcome.ofExcept_eq_ok_iff.1 hjoin
        exact ih rest'.length (by omega) joined rest' rfl

theorem compares_chain (operator? : Token → Option BinaryOperator)
    {operand operand' : Parser Subtree}
    (h : ∀ ls, (operand.run ls).Compares n n' (operand'.run ls)) (ls : List Lexeme) :
    ((chain operator? operand).run ls).Compares n n' ((chain operator? operand').run ls) :=
  (h ls).andThen fun left rest _ => compares_chainFrom operator? h left rest

theorem compares_argumentsFrom {item item' : Parser Subtree}
    (h : ∀ ls, (item.run ls).Compares n n' (item'.run ls)) (opening : Nat) (read : List Subtree)
    (ls : List Lexeme) :
    (argumentsFrom item opening read ls).Compares n n' (argumentsFrom item' opening read ls) := by
  induction hlength : ls.length using Nat.strongRecOn generalizing read ls with
  | ind length ih =>
    rw [argumentsFrom_eq, argumentsFrom_eq]
    refine (h ls).andThen fun value rest hrun => ?_
    have hshorter := item.length_rest_lt hrun
    cases rest with
    | nil => exact .same _
    | cons l rest =>
      rw [List.length_cons] at hshorter
      rw [argumentsBehind, argumentsBehind]
      split
      · exact ih rest.length (by omega) (value :: read) rest rfl
      · exact .same _
      · exact .same _
      · exact .same _

/-! ### Primaries and factors -/

theorem compares_group {inner inner' : Except ParseError (Parser Subtree)}
    (h : Leads n n' inner inner') (opening : Nat) (ls : List Lexeme) :
    (group inner opening ls).Compares n n' (group inner' opening ls) := by
  cases h with
  | ok content content' h => exact (h ls).andThen fun _ _ _ => .same _
  | error cause => exact .same _
  | tooDeep _ position h => exact .tooDeep _ position ls h

theorem compares_negation {inner inner' : Except ParseError (Parser Subtree)}
    (h : Leads n n' inner inner') (position : Nat) (ls : List Lexeme) :
    (negation inner position ls).Compares n n' (negation inner' position ls) := by
  cases h with
  | ok operand operand' h => exact (h ls).andThen fun _ _ _ => .same _
  | error cause => exact .same _
  | tooDeep _ position h => exact .tooDeep _ position ls h

theorem compares_call {inner inner' : Nat → Except ParseError (Parser Subtree)}
    (h : ∀ position, Leads n n' (inner position) (inner' position)) (name : String)
    (position : Nat) (ls : List Lexeme) :
    (call inner n.isParenthesized name position ls).Compares n n'
      (call inner' n'.isParenthesized name position ls) := by
  rw [call, call]
  split
  · exact .same _
  next builtin _ =>
  cases ls with
  | nil => exact .same _
  | cons l ls =>
    dsimp only
    split
    next hl =>
      have hinner := h l.position
      generalize inner l.position = list, inner' l.position = list' at hinner ⊢
      cases hinner with
      | ok item item' hitem =>
        have hargs := compares_argumentsFrom hitem l.position [] ls
        exact hargs.andThen fun _ _ _ => .same _
      | error cause => exact .same _
      | tooDeep _ position h => exact .tooDeep _ position ls h
    · exact compares_stray l ls

theorem compares_primary {inner inner' : Nat → Except ParseError (Parser Subtree)}
    (h : ∀ position, Leads n n' (inner position) (inner' position)) (ls : List Lexeme) :
    (Parser.primary inner n.isParenthesized ls).Compares n n'
      (Parser.primary inner' n'.isParenthesized ls) := by
  cases ls with
  | nil => exact .same _
  | cons l ls =>
    rw [Parser.primary, Parser.primary]
    split
    · exact .same _
    · exact compares_call h _ l.position ls
    · exact compares_group (h l.position) l.position ls
    · exact compares_stray l ls

theorem compares_readFactor {negated negated' enclosed enclosed' :
      Nat → Except ParseError (Parser Subtree)}
    (hnegated : ∀ position, Leads n n' (negated position) (negated' position))
    (henclosed : ∀ position, Leads n n' (enclosed position) (enclosed' position))
    (ls : List Lexeme) :
    (readFactor negated enclosed n.isParenthesized ls).Compares n n'
      (readFactor negated' enclosed' n'.isParenthesized ls) := by
  cases ls with
  | nil => exact .same _
  | cons l ls =>
    rw [readFactor, readFactor]
    split
    · exact compares_negation (hnegated l.position) l.position ls
    · exact (compares_primary henclosed (l :: ls)).andThen fun _ _ _ => .same _

/-! ### One level further in -/

theorem Nesting.depth_le_of_deeper (hle : n.depth ≤ n'.depth) {position : Nat}
    (hm : n.deeper position = .ok m) (hm' : n'.deeper position = .ok m') : m.depth ≤ m'.depth := by
  obtain ⟨_, rfl⟩ := deeper_eq_ok_iff.1 hm
  obtain ⟨_, rfl⟩ := deeper_eq_ok_iff.1 hm'
  exact Nat.succ_le_succ hle

theorem Nesting.depth_le_of_parenthesized (hle : n.depth ≤ n'.depth) {position : Nat}
    (hm : n.parenthesized position = .ok m) (hm' : n'.parenthesized position = .ok m') :
    m.depth ≤ m'.depth := by
  obtain ⟨_, rfl⟩ := parenthesized_eq_ok_iff.1 hm
  obtain ⟨_, rfl⟩ := parenthesized_eq_ok_iff.1 hm'
  exact Nat.succ_le_succ hle

/-- Behind a minus sign the differences are those in front of it. -/
theorem Outcome.Compares.of_deeper {position : Nat} (hm : n.deeper position = .ok m)
    (hm' : n'.deeper position = .ok m') (h : o.Compares m m' o') : o.Compares n n' o' := by
  obtain ⟨_, rfl⟩ := Nesting.deeper_eq_ok_iff.1 hm
  obtain ⟨_, rfl⟩ := Nesting.deeper_eq_ok_iff.1 hm'
  cases h with
  | same => exact .same o
  | tooDeep _ position rest h => exact .tooDeep o position rest (Nat.lt_of_succ_lt_succ h)
  | closing l rest hl h => exact .closing l rest hl h

/-- Behind a parenthesis one is open at both nestings. -/
theorem Outcome.Compares.of_parenthesized {position : Nat} (hm : n.parenthesized position = .ok m)
    (hm' : n'.parenthesized position = .ok m') (h : o.Compares m m' o') : o.Compares n n' o' := by
  obtain ⟨_, rfl⟩ := Nesting.parenthesized_eq_ok_iff.1 hm
  obtain ⟨_, rfl⟩ := Nesting.parenthesized_eq_ok_iff.1 hm'
  cases h with
  | same => exact .same o
  | tooDeep _ position rest h => exact .tooDeep o position rest (Nat.lt_of_succ_lt_succ h)
  | closing l rest hl h =>
    refine absurd ?_ h
    simp [Nesting.isParenthesized]

/-- With fewer levels to go, a further level is refused, or allowed as it is with more of them. -/
theorem leads_map (hle : n.depth ≤ n'.depth) {position : Nat} {r r' : Except ParseError Nesting}
    (hr : ∀ cause, r = .error cause ↔ n.room = 0 ∧ cause = .tooDeep position)
    (hr' : ∀ cause, r' = .error cause ↔ n'.room = 0 ∧ cause = .tooDeep position)
    (f : Nesting → Parser Subtree)
    (h : ∀ m m', r = .ok m → r' = .ok m' → ∀ ls, ((f m).run ls).Compares n n' ((f m').run ls)) :
    Leads n n' (r.map f) (r'.map f) := by
  cases r' with
  | error cause =>
    obtain ⟨hroom', rfl⟩ := (hr' cause).1 rfl
    rcases Nat.eq_or_lt_of_le hle with heq | hlt
    · have hroom : n.room = 0 := by rwa [Nesting.room, heq]
      rw [(hr _).2 ⟨hroom, rfl⟩]
      exact .error _
    · exact .tooDeep _ position hlt
  | ok m' =>
    cases r with
    | error cause =>
      obtain ⟨hroom, _⟩ := (hr cause).1 rfl
      have hroom' : n'.room = 0 :=
        Nat.sub_eq_zero_of_le (Nat.le_trans (Nat.sub_eq_zero_iff_le.1 hroom) hle)
      cases (hr' _).2 ⟨hroom', rfl⟩
    | ok m => exact .ok _ _ (h m m' rfl rfl)

/-- Factors are compared at two nestings. Behind a sign and behind a parenthesis there is less room,
so that what they enclose is compared already. -/
theorem compares_unary (hle : n.depth ≤ n'.depth) (ls : List Lexeme) :
    ((unary n).run ls).Compares n n' ((unary n').run ls) := by
  induction hroom : n'.room using Nat.strongRecOn generalizing n n' ls with
  | ind room ih =>
    have hnegated (position : Nat) : Leads n n' (negated n position) (negated n' position) := by
      refine leads_map hle (fun _ => Nesting.deeper_eq_error_iff)
        (fun _ => Nesting.deeper_eq_error_iff) unary fun m m' hm hm' ls => ?_
      have hroom' := Nesting.room_of_deeper hm'
      have hdepth := Nesting.depth_le_of_deeper hle hm hm'
      exact (ih m'.room (by omega) hdepth ls rfl).of_deeper hm hm'
    have henclosed (position : Nat) : Leads n n' (enclosed n position) (enclosed n' position) := by
      refine leads_map hle (fun _ => Nesting.parenthesized_eq_error_iff)
        (fun _ => Nesting.parenthesized_eq_error_iff) expression fun m m' hm hm' ls => ?_
      have hroom' := Nesting.room_of_parenthesized hm'
      have hdepth := Nesting.depth_le_of_parenthesized hle hm hm'
      have hinner (us : List Lexeme) := ih m'.room (by omega) hdepth us rfl
      exact (compares_chain _ (compares_chain _ hinner) ls).of_parenthesized hm hm'
    rw [run_unary, run_unary]
    exact compares_readFactor hnegated henclosed ls

/-- Chains are compared at two nestings. -/
theorem compares_ofTier (hle : n.depth ≤ n'.depth) (tier : Tier) (ls : List Lexeme) :
    ((ofTier n tier).run ls).Compares n n' ((ofTier n' tier).run ls) := by
  have hterm := compares_chain Token.multiplicative? (compares_unary hle)
  cases tier with
  | additive => exact compares_chain _ hterm ls
  | multiplicative => exact hterm ls

end

/-! ### Two nestings -/

/-- The outcomes are failures at the same closing parenthesis, which has no partner according to the
first and is unexpected according to the second. -/
def Outcome.DifferInClosing {α : Type} (o o' : Outcome α) : Prop :=
  ∃ position rest,
    o = .error (.unmatchedParenthesis position) (⟨.rightParen, position⟩ :: rest) ∧
      o' = .error (.unexpectedToken .rightParen position) (⟨.rightParen, position⟩ :: rest)

theorem differInClosing_stray {α : Type} {l : Lexeme} (hl : l.token = .rightParen)
    (rest : List Lexeme) :
    (Outcome.error (stray false l) (l :: rest) : Outcome α).DifferInClosing
      (.error (stray true l) (l :: rest)) := by
  obtain ⟨token, position⟩ := l
  obtain rfl : token = .rightParen := hl
  exact ⟨position, rest, rfl, rfl⟩

/-- At one depth, what comes of reading differs only if parentheses are open at one of the nestings
and none at the other. -/
theorem Outcome.Compares.of_depth_eq {α : Type} {n n' : Nesting} {o o' : Outcome α}
    (h : o.Compares n n' o') (hdepth : n.depth = n'.depth) :
    o = o' ∨ n.parens = 0 ∧ 0 < n'.parens ∧ o.DifferInClosing o' ∨
      0 < n.parens ∧ n'.parens = 0 ∧ o'.DifferInClosing o := by
  cases h with
  | same => exact .inl rfl
  | tooDeep _ position rest h => exact absurd hdepth (Nat.ne_of_lt h)
  | closing l rest hl h =>
    rcases Nat.eq_zero_or_pos n.parens with hn | hn
    · have hnone : n.isParenthesized = false := decide_eq_false (Nat.not_lt.2 (Nat.le_of_eq hn))
      have hsome : n'.isParenthesized = true := by simpa [hnone] using h
      rw [hnone, hsome]
      exact .inr (.inl ⟨hn, of_decide_eq_true hsome, differInClosing_stray hl rest⟩)
    · have hsome : n.isParenthesized = true := decide_eq_true hn
      have hnone : n'.isParenthesized = false := by simpa [hsome] using h
      rw [hnone, hsome]
      have hn' : n'.parens = 0 := Nat.eq_zero_of_not_pos (of_decide_eq_false hnone)
      exact .inr (.inr ⟨hn, hn', differInClosing_stray hl rest⟩)

/-- With the same number of open parentheses, the deeper nesting makes a difference only if a limit
is not kept there. -/
theorem Outcome.Compares.of_parens_eq {α : Type} {n n' : Nesting} {o o' : Outcome α}
    (h : o.Compares n n' o') (hparens : n.parens = n'.parens) :
    (∃ position rest, o' = .error (.tooDeep position) rest) ∨ o = o' := by
  cases h with
  | same => exact .inr rfl
  | tooDeep _ position rest _ => exact .inl ⟨position, rest, rfl⟩
  | closing l rest _ h => exact absurd (by rw [Nesting.isParenthesized, hparens]; rfl) h

/-- An expression, a sum or a term is read from a row alike at two nestings of one depth, and leaves
the same lexemes, except that a closing parenthesis that begins no phrase has no partner if no
parenthesis is open, and is unexpected otherwise. At two nestings with the same number of open
parentheses it is read alike, unless a limit is not kept at the deeper one. -/
theorem reading_at_two_nestings (read : Nesting → Parser Subtree)
    (hread : read ∈ [expression, additive, multiplicative]) (n n' : Nesting) (ls : List Lexeme) :
    (n.depth = n'.depth →
      (read n).run ls = (read n').run ls ∨
        n.parens = 0 ∧ 0 < n'.parens ∧ ((read n).run ls).DifferInClosing ((read n').run ls) ∨
        0 < n.parens ∧ n'.parens = 0 ∧ ((read n').run ls).DifferInClosing ((read n).run ls)) ∧
    (n.parens = n'.parens → n.depth ≤ n'.depth →
      (∃ position rest, (read n').run ls = .error (.tooDeep position) rest) ∨
        (read n).run ls = (read n').run ls) := by
  have hcompares (hle : n.depth ≤ n'.depth) :
      ((read n).run ls).Compares n n' ((read n').run ls) := by
    obtain ⟨tier, htier⟩ := exists_eq_ofTier hread
    rw [htier, htier]
    exact compares_ofTier hle tier ls
  exact ⟨fun hdepth => (hcompares (Nat.le_of_eq hdepth)).of_depth_eq hdepth,
    fun hparens hle => (hcompares hle).of_parens_eq hparens⟩

/-- Where no parenthesis is open, a closing one has no partner, and where two are open it is
unexpected. In `-)` the sign is too deep at the greatest depth, and one level further out it is read
on to the closing parenthesis. -/
theorem reading_at_two_nestings_closing :
    multiplicative ∈ [expression, additive, multiplicative] ∧
      (⟨3, 0⟩ : Nesting).depth = (⟨3, 2⟩ : Nesting).depth ∧
      ((multiplicative ⟨3, 0⟩).run [⟨.rightParen, 7⟩]).DifferInClosing
        ((multiplicative ⟨3, 2⟩).run [⟨.rightParen, 7⟩]) ∧
      (⟨127, 1⟩ : Nesting).parens = (⟨128, 1⟩ : Nesting).parens ∧
      ∃ position rest, (multiplicative ⟨128, 1⟩).run [⟨.minus, 0⟩, ⟨.rightParen, 1⟩] =
        .error (.tooDeep position) rest := by
  have hmem : multiplicative ∈ [expression, additive, multiplicative] := by simp
  have hclosing (n : Nesting) (position : Nat) :
      (multiplicative n).run [⟨.rightParen, position⟩] =
        .error (stray n.isParenthesized ⟨.rightParen, position⟩) [⟨.rightParen, position⟩] := by
    rw [multiplicative, unary_eq]
    rfl
  have hminus : (multiplicative ⟨127, 1⟩).run [⟨.minus, 0⟩, ⟨.rightParen, 1⟩] =
      .error (.unexpectedToken .rightParen 1) [⟨.rightParen, 1⟩] := by
    have hinner : (unary ⟨128, 1⟩).run [⟨.rightParen, 1⟩] =
        .error (.unexpectedToken .rightParen 1) [⟨.rightParen, 1⟩] := by
      rw [unary_eq]
      rfl
    rw [multiplicative, unary_eq]
    show (((unary ⟨128, 1⟩).run _).andThen _).andThen _ = _
    rw [hinner, Outcome.andThen_error, Outcome.andThen_error]
  refine ⟨hmem, rfl, ?_, rfl, ?_⟩
  · rcases (reading_at_two_nestings multiplicative hmem ⟨3, 0⟩ ⟨3, 2⟩ [⟨.rightParen, 7⟩]).1 rfl with
      heq | ⟨_, _, hdiffer⟩ | ⟨hopen, _, _⟩
    · rw [hclosing, hclosing] at heq
      cases heq
    · exact hdiffer
    · cases hopen
  · rcases (reading_at_two_nestings multiplicative hmem ⟨127, 1⟩ ⟨128, 1⟩ _).2 rfl (by decide) with
      hdeep | heq
    · exact hdeep
    · rw [hminus, multiplicative, unary_eq] at heq
      cases heq

end Calculator
