import Calculator.Proofs.Parsing.Report

/-!
# Reading copies places and looks at none

No decision of the parser depends on where a lexeme stands, and every place that it reports is the
place of a lexeme. So if the lexemes of a row are moved, what comes of reading the row is the same
but for the places, which are moved alike. A row is a row of numbered tokens that are moved to their
places; two texts with the same tokens, which differ in their blanks only, are thus read alike, and
refused at the same token.

A row that runs dry is reported at the place zero, at which no lexeme stands that the parser has
seen. Therefore tokens are numbered from one, and only moves that keep the place zero are looked at.

## Main definitions

* `Calculator.Lexeme.move`, `Calculator.ParseError.move`, `Calculator.Outcome.move`: the same with
  its places moved.
* `Calculator.Moves`: two ways of reading, of which one reads the moved row as the other one reads
  the row.
* `Calculator.numbered`, `Calculator.placesOf`: tokens in numbered places, and the places of a row
  by the numbers of its lexemes.

## Main results

* `Calculator.moves_unary`: factors are read alike in all places.
* `Calculator.ofLexemes_eq_mapError_numbered`: a row is read as its numbered tokens are.
* `Calculator.parse_of_map_token_eq`: two texts with the same tokens have the same tree, or are
  refused for the same cause at the same token.
-/

namespace Calculator

open Calculator.Parser

variable {α β : Type}

/-- The lexeme in another place. -/
def Lexeme.move (f : Nat → Nat) (l : Lexeme) : Lexeme := ⟨l.token, f l.position⟩

@[simp] theorem Lexeme.token_move (f : Nat → Nat) (l : Lexeme) : (l.move f).token = l.token := rfl

@[simp] theorem Lexeme.position_move (f : Nat → Nat) (l : Lexeme) :
    (l.move f).position = f l.position := rfl

/-- The same cause in another place. -/
def ParseError.move (f : Nat → Nat) : ParseError → ParseError
  | unexpectedToken token position => unexpectedToken token (f position)
  | unmatchedParenthesis position => unmatchedParenthesis (f position)
  | unknownFunction name position => unknownFunction name (f position)
  | arityMismatch name expected found position => arityMismatch name expected found (f position)
  | invalidNumber literal position => invalidNumber literal (f position)
  | tooDeep position => tooDeep (f position)

@[simp] theorem ParseError.position_move (f : Nat → Nat) (cause : ParseError) :
    (cause.move f).position = f cause.position := by
  cases cause <;> rfl

/-- A cause holds one place, so that it matters only where that is moved to. -/
theorem ParseError.move_congr {f g : Nat → Nat} {cause : ParseError}
    (h : f cause.position = g cause.position) : cause.move f = cause.move g := by
  cases cause <;> exact congrArg _ h

theorem ParseError.move_move (f g : Nat → Nat) (cause : ParseError) :
    (cause.move f).move g = cause.move fun position => g (f position) := by
  cases cause <;> rfl

namespace Outcome

/-- The same outcome with the places of its cause and of its rest moved. -/
def move (f : Nat → Nat) : Outcome α → Outcome α
  | ok value rest => ok value (rest.map (Lexeme.move f))
  | error cause rest => error (cause.move f) (rest.map (Lexeme.move f))

variable {f : Nat → Nat}

@[simp] theorem move_ok (value : α) (rest : List Lexeme) :
    (ok value rest).move f = ok value (rest.map (Lexeme.move f)) := rfl

@[simp] theorem move_error (cause : ParseError) (rest : List Lexeme) :
    (error cause rest : Outcome α).move f = error (cause.move f) (rest.map (Lexeme.move f)) := rfl

/-- Reading on after a success moves with its two steps. -/
theorem move_andThen (o : Outcome α) {next next' : α → List Lexeme → Outcome β}
    (h : ∀ value rest, o = ok value rest →
      next' value (rest.map (Lexeme.move f)) = (next value rest).move f) :
    (o.move f).andThen next' = (o.andThen next).move f := by
  cases o with
  | ok value rest => exact h value rest rfl
  | error cause rest => rfl

end Outcome

/-- From a row whose lexemes are moved by `f`, `g` reads what `h` reads from the row. -/
def Moves (f : Nat → Nat) (g h : List Lexeme → Outcome α) : Prop :=
  ∀ ls, g (ls.map (Lexeme.move f)) = (h ls).move f

section

variable {f : Nat → Nat}

theorem Moves.andThen {g h : List Lexeme → Outcome α} {next next' : α → List Lexeme → Outcome β}
    (hfirst : Moves f g h) (hnext : ∀ value, Moves f (next' value) (next value)) :
    Moves f (fun ls => (g ls).andThen next') fun ls => (h ls).andThen next := by
  intro ls
  show (g (ls.map (Lexeme.move f))).andThen next' = _
  rw [hfirst ls]
  exact Outcome.move_andThen _ fun value rest _ => hnext value rest

theorem moves_error (cause : ParseError) :
    Moves f (Outcome.error (cause.move f) : List Lexeme → Outcome α) (Outcome.error cause) :=
  fun _ => rfl

theorem moves_ofExcept (result : Except ParseError α) :
    Moves f (Outcome.ofExcept (result.mapError (ParseError.move f)))
      (Outcome.ofExcept result) := by
  intro ls
  cases result <;> rfl

/-! ### Levels and trees -/

theorem map_boundedHeight_move (height position : Nat) (g : Nat → Subtree) :
    (boundedHeight height (f position)).map g =
      ((boundedHeight height position).map g).mapError (ParseError.move f) := by
  rw [boundedHeight, boundedHeight]
  split <;> rfl

theorem negated_move (n : Nesting) (position : Nat) :
    negated n (f position) = (negated n position).mapError (ParseError.move f) := by
  rw [negated, negated, Nesting.deeper, Nesting.deeper]
  split <;> rfl

theorem enclosed_move (n : Nesting) (position : Nat) :
    enclosed n (f position) = (enclosed n position).mapError (ParseError.move f) := by
  rw [enclosed, enclosed, Nesting.parenthesized, Nesting.parenthesized, Nesting.deeper,
    Nesting.deeper]
  split <;> rfl

theorem stray_move (parenthesized : Bool) (l : Lexeme) :
    stray parenthesized (l.move f) = (stray parenthesized l).move f := by
  by_cases h : l.token = .rightParen ∧ parenthesized = false
  · rw [stray, stray, if_pos h, if_pos (by exact h)]
    rfl
  · rw [stray, stray, if_neg h, if_neg (by exact h)]
    rfl

/-- A row that runs dry is refused at the place zero, which is kept. -/
theorem move_outOfLexemes (hf : f 0 = 0) :
    ParseError.outOfLexemes.move f = ParseError.outOfLexemes := by
  rw [ParseError.outOfLexemes, ParseError.move, hf]

/-! ### Repetitions -/

theorem moves_chainFrom (operator? : Token → Option BinaryOperator) {operand : Parser Subtree}
    (h : Moves f operand.run operand.run) (left : Subtree) :
    Moves f (chainFrom operator? operand left) (chainFrom operator? operand left) := by
  intro ls
  induction hlength : ls.length using Nat.strongRecOn generalizing left ls with
  | ind length ih =>
    cases ls with
    | nil => simp [chainFrom]
    | cons l ls =>
      rw [List.length_cons] at hlength
      rw [List.map_cons]
      cases hop : operator? l.token with
      | none => simp [chainFrom, hop]
      | some op =>
        rw [chainFrom_cons (l := l.move f) hop, chainFrom_cons hop, h ls]
        refine Outcome.move_andThen _ fun right rest hrun => ?_
        have hshorter := operand.length_rest_lt hrun
        rw [Subtree.binary, Lexeme.position_move, map_boundedHeight_move, moves_ofExcept]
        refine Outcome.move_andThen _ fun joined rest' hjoin => ?_
        obtain ⟨_, rfl⟩ := Outcome.ofExcept_eq_ok_iff.1 hjoin
        exact ih rest'.length (by omega) joined rest' rfl

theorem moves_chain (operator? : Token → Option BinaryOperator) {operand : Parser Subtree}
    (h : Moves f operand.run operand.run) :
    Moves f (chain operator? operand).run (chain operator? operand).run :=
  h.andThen (moves_chainFrom operator? h)

theorem moves_closing (hf : f 0 = 0) (opening : Nat) (value : α) :
    Moves f (closing (f opening) value) (closing opening value) := by
  intro ls
  cases ls with
  | nil => simp [closing, move_outOfLexemes hf]
  | cons l ls => cases hl : l.token <;> simp [closing, hl] <;> rfl

theorem moves_argumentsFrom (hf : f 0 = 0) {item : Parser α} (h : Moves f item.run item.run)
    (opening : Nat) (read : List α) :
    Moves f (argumentsFrom item (f opening) read) (argumentsFrom item opening read) := by
  intro ls
  induction hlength : ls.length using Nat.strongRecOn generalizing read ls with
  | ind length ih =>
    rw [argumentsFrom_eq, argumentsFrom_eq, h ls]
    refine Outcome.move_andThen _ fun value rest hrun => ?_
    have hshorter := item.length_rest_lt hrun
    cases rest with
    | nil => simp [argumentsBehind, move_outOfLexemes hf]
    | cons l rest =>
      rw [List.length_cons] at hshorter
      have hrest := ih rest.length (by omega) (value :: read) rest rfl
      cases hl : l.token <;> simp [argumentsBehind, hl, hrest] <;> rfl

/-! ### Primaries and factors -/

theorem moves_literal (text : String) (position : Nat) :
    Moves f (literal text (f position)) (literal text position) := by
  intro ls
  rw [literal, literal]
  cases Number.read text <;> rfl

theorem moves_factorialMark (operand : Subtree) :
    Moves f (factorialMark operand) (factorialMark operand) := by
  intro ls
  cases ls with
  | nil => rfl
  | cons l ls =>
    by_cases hl : l.token = .bang
    · simp only [List.map_cons, factorialMark, Lexeme.token_move, hl, if_true, Subtree.factorial,
        Lexeme.position_move, map_boundedHeight_move]
      cases boundedHeight (operand.height + 1) l.position <;> rfl
    · simp [factorialMark, hl]

/-- A group moves with its content. -/
theorem moves_group (hf : f 0 = 0) {inner : Except ParseError (Parser Subtree)}
    (h : ∀ content, inner = .ok content → Moves f content.run content.run) (opening : Nat) :
    Moves f (group (inner.mapError (ParseError.move f)) (f opening)) (group inner opening) := by
  cases inner with
  | error cause => exact moves_error cause
  | ok content => exact (h content rfl).andThen (moves_closing hf opening)

/-- A negation moves with its operand. -/
theorem moves_negation {inner : Except ParseError (Parser Subtree)}
    (h : ∀ operand, inner = .ok operand → Moves f operand.run operand.run) (position : Nat) :
    Moves f (negation (inner.mapError (ParseError.move f)) (f position))
      (negation inner position) := by
  cases inner with
  | error cause => exact moves_error cause
  | ok operand =>
    refine (h operand rfl).andThen fun subtree => ?_
    rw [Subtree.negate, map_boundedHeight_move]
    exact moves_ofExcept _

/-- A call moves with its arguments. -/
theorem moves_call (hf : f 0 = 0) {n : Nesting}
    (h : ∀ position item, enclosed n position = .ok item → Moves f item.run item.run)
    (parenthesized : Bool) (name : String) (position : Nat) :
    Moves f (call (enclosed n) parenthesized name (f position))
      (call (enclosed n) parenthesized name position) := by
  intro ls
  cases hlookup : Builtin.lookup name with
  | none => simp only [call, hlookup]; rfl
  | some builtin =>
    cases ls with
    | nil => simp [call, hlookup, move_outOfLexemes hf]
    | cons l ls =>
      by_cases hl : l.token = .leftParen
      · simp only [List.map_cons, call, hlookup, Lexeme.token_move, hl, if_true,
          Lexeme.position_move, enclosed_move]
        cases henclosed : enclosed n l.position with
        | error cause => rfl
        | ok item =>
          have hitem := moves_argumentsFrom hf (h l.position item henclosed) l.position []
          refine hitem.andThen (fun args => ?_) ls
          split
          · rw [Subtree.call, map_boundedHeight_move]
            exact moves_ofExcept _
          · exact moves_error (.arityMismatch name builtin.arity args.length position)
      · simp [call, hlookup, hl, stray_move]

/-- A primary moves with what its parentheses enclose. -/
theorem moves_primary (hf : f 0 = 0) {n : Nesting}
    (h : ∀ position content, enclosed n position = .ok content →
      Moves f content.run content.run) (parenthesized : Bool) :
    Moves f (Parser.primary (enclosed n) parenthesized)
      (Parser.primary (enclosed n) parenthesized) := by
  intro ls
  cases ls with
  | nil => simp [Parser.primary, move_outOfLexemes hf]
  | cons l ls =>
    cases hl : l.token with
    | number text => simpa [Parser.primary, hl] using moves_literal text l.position ls
    | identifier name =>
      simpa [Parser.primary, hl] using moves_call hf h parenthesized name l.position ls
    | leftParen =>
      simpa [Parser.primary, hl, enclosed_move] using
        moves_group hf (h l.position) l.position ls
    | _ => simp [Parser.primary, hl, stray_move]

/-- A factor is read alike in all places. Behind a sign and behind a parenthesis there is less room,
so that what they enclose is read so already. -/
theorem moves_unary (hf : f 0 = 0) (n : Nesting) : Moves f (unary n).run (unary n).run := by
  induction hroom : n.room using Nat.strongRecOn generalizing n with
  | ind room ih =>
    have hnegated : ∀ position operand, negated n position = .ok operand →
        Moves f operand.run operand.run := by
      intro position operand hoperand
      obtain ⟨m, hm, rfl⟩ := negated_eq_ok_iff.1 hoperand
      have hroom' := Nesting.room_of_deeper hm
      exact ih m.room (by omega) m rfl
    have henclosed : ∀ position content, enclosed n position = .ok content →
        Moves f content.run content.run := by
      intro position content hcontent
      obtain ⟨m, hm, rfl⟩ := enclosed_eq_ok_iff.1 hcontent
      have hroom' := Nesting.room_of_parenthesized hm
      exact moves_chain _ (moves_chain _ (ih m.room (by omega) m rfl))
    intro ls
    rw [run_unary, run_unary]
    cases ls with
    | nil => simp [readFactor, move_outOfLexemes hf]
    | cons l ls =>
      by_cases hl : l.token = .minus
      · simpa [readFactor, hl, negated_move] using
          moves_negation (hnegated l.position) l.position ls
      · have hl' : ¬(l.move f).token = .minus := hl
        rw [List.map_cons, readFactor, readFactor, if_neg hl', if_neg hl]
        exact (moves_primary hf henclosed n.isParenthesized).andThen moves_factorialMark (l :: ls)

/-- An expression is read alike in all places. -/
theorem moves_expression (hf : f 0 = 0) (n : Nesting) :
    Moves f (expression n).run (expression n).run :=
  moves_chain _ (moves_chain _ (moves_unary hf n))

/-- A whole row is read alike in all places. -/
theorem ofLexemes_map_move (hf : f 0 = 0) (ls : List Lexeme) :
    Expr.ofLexemes (ls.map (Lexeme.move f)) =
      (Expr.ofLexemes ls).mapError (ParseError.move f) := by
  rw [Expr.ofLexemes, Expr.ofLexemes, moves_expression hf .outermost ls]
  cases (expression .outermost).run ls with
  | error cause rest => rfl
  | ok s rest =>
    cases rest with
    | nil => rfl
    | cons l rest => cases hl : l.token <;> simp [hl] <;> rfl

end

/-! ### Numbered tokens -/

/-- The tokens in the places one, two, three and so on. -/
def numbered (ts : List Token) : List Lexeme := ts.mapIdx fun i token => ⟨token, i + 1⟩

/-- The place of the lexeme with a given number, counted from one. -/
def placesOf (ls : List Lexeme) : Nat → Nat
  | 0 => 0
  | i + 1 => (ls[i]?.map Lexeme.position).getD 0

theorem placesOf_succ {ls : List Lexeme} {i : Nat} {l : Lexeme} (h : ls[i]? = some l) :
    placesOf ls (i + 1) = l.position := by
  rw [placesOf, h, Option.map_some, Option.getD_some]

theorem map_token_numbered (ts : List Token) : (numbered ts).map Lexeme.token = ts :=
  List.ext_getElem (by simp [numbered]) fun i _ _ => by simp [numbered]

/-- A row is the row of its numbered tokens, moved to its places. -/
theorem map_move_numbered (ls : List Lexeme) :
    (numbered (ls.map Lexeme.token)).map (Lexeme.move (placesOf ls)) = ls := by
  refine List.ext_getElem (by simp [numbered]) fun i hi hi' => ?_
  simp [numbered, Lexeme.move, placesOf, hi']

/-- A row is read as its numbered tokens are, with the places of the row in the causes. -/
theorem ofLexemes_eq_mapError_numbered (ls : List Lexeme) :
    Expr.ofLexemes ls =
      (Expr.ofLexemes (numbered (ls.map Lexeme.token))).mapError
        (ParseError.move (placesOf ls)) := by
  rw [← ofLexemes_map_move rfl, map_move_numbered]

/-- If there is an end of input among the tokens, the place that is reported for the numbered tokens
is the number of one of them. -/
theorem exists_position_eq_of_numbered {ts : List Token} {cause : ParseError}
    (h : Expr.ofLexemes (numbered ts) = .error cause) (hend : .endOfInput ∈ ts) :
    ∃ i < ts.length, cause.position = i + 1 := by
  obtain ⟨taken, rest, hls, hrefusal⟩ := refusal_of_ofLexemes h
  obtain ⟨l, hl, hreports⟩ := hrefusal.exists_reports (by rwa [← hls, map_token_numbered])
  rw [← hls, numbered, List.mem_mapIdx] at hl
  obtain ⟨i, hi, rfl⟩ := hl
  exact ⟨i, hi, hreports.position_eq.symm⟩

/-! ### Texts with the same tokens -/

/-- The two causes are alike but for their places, which are those of the lexemes with one number in
the two rows. -/
def ParseError.Corresponds (ls ls' : List Lexeme) (cause cause' : ParseError) : Prop :=
  ∃ (i : Nat) (l l' : Lexeme), ls[i]? = some l ∧ ls'[i]? = some l' ∧
    cause.position = l.position ∧ cause' = cause.move fun _ => l'.position

theorem ParseError.corresponds_move {ls ls' : List Lexeme} {cause : ParseError} {i : Nat}
    (hcause : cause.position = i + 1) (hi : i < ls.length) (hi' : i < ls'.length) :
    (cause.move (placesOf ls)).Corresponds ls ls' (cause.move (placesOf ls')) := by
  have hl := List.getElem?_eq_getElem hi
  have hl' := List.getElem?_eq_getElem hi'
  refine ⟨i, ls[i], ls'[i], hl, hl', ?_, ?_⟩
  · rw [position_move, hcause, placesOf_succ hl]
  · rw [move_move]
    refine move_congr ?_
    rw [hcause, placesOf_succ hl']

/-- Two texts with the same tokens, in which any blanks stand before, between and behind the tokens,
have the same tree and thus the same value, or they are refused for the same cause at the same
token. -/
theorem parse_of_map_token_eq {source source' : String} {ls ls' : List Lexeme}
    (h : Renders none 0 source.toList ls) (h' : Renders none 0 source'.toList ls')
    (htokens : ls.map Lexeme.token = ls'.map Lexeme.token) :
    (∃ e, parse source = .ok e ∧ parse source' = .ok e ∧
        evaluate source = .ok e.value ∧ evaluate source' = .ok e.value) ∨
      ∃ cause cause', parse source = .error (.grammatical cause) ∧
        parse source' = .error (.grammatical cause') ∧ cause.Corresponds ls ls' cause' := by
  have hparse := parse_of_tokenize (h.tokenizeFrom_eq_ok [])
  have hparse' := parse_of_tokenize (h'.tokenizeFrom_eq_ok [])
  rw [List.reverse_nil, List.nil_append, ofLexemes_eq_mapError_numbered] at hparse hparse'
  rw [← htokens] at hparse'
  -- Both rows are read as the same numbered tokens.
  cases hread : Expr.ofLexemes (numbered (ls.map Lexeme.token)) with
  | ok s =>
    rw [hread] at hparse hparse'
    exact .inl ⟨s.expr, hparse, hparse', evaluate_of_parse hparse, evaluate_of_parse hparse'⟩
  | error cause =>
    rw [hread] at hparse hparse'
    obtain ⟨us, last, rfl, _⟩ := h.exists_eq_concat
    obtain ⟨i, hi, hcause⟩ := exists_position_eq_of_numbered hread (by simp)
    have hi' := hi
    rw [htokens, List.length_map] at hi'
    rw [List.length_map] at hi
    exact .inr ⟨_, _, hparse, hparse', ParseError.corresponds_move hcause hi hi'⟩

/-- In `-*` and in `- *` with a no-break space, the second token is unexpected. -/
theorem parse_of_map_token_eq_star :
    parse "-*" = .error (.grammatical (.unexpectedToken .star 1)) ∧
      parse "-\u00a0*" = .error (.grammatical (.unexpectedToken .star 2)) := by
  have htight : tokenize "-*" = .ok [⟨.minus, 0⟩, ⟨.star, 1⟩, ⟨.endOfInput, 2⟩] := by
    decide +kernel
  have hwide : tokenize "-\u00a0*" = .ok [⟨.minus, 0⟩, ⟨.star, 2⟩, ⟨.endOfInput, 3⟩] := by
    decide +kernel
  have hparse : parse "-*" = .error (.grammatical (.unexpectedToken .star 1)) :=
    evaluate_eq_error_iff.1 (by decide +kernel)
  refine ⟨hparse, ?_⟩
  have hboth := parse_of_map_token_eq (renders_of_tokenize htight) (renders_of_tokenize hwide) rfl
  rw [hparse] at hboth
  rcases hboth with ⟨e, he, _⟩ | ⟨cause, cause', hcause, hcause', i, l, l', hl, hl', hplace, hmove⟩
  · cases he
  · cases hcause
    rw [hcause', hmove]
    rcases i with _ | _ | _ | i
    · cases hl
      cases hplace
    · cases hl'
      rfl
    · cases hl
      cases hplace
    · cases hl

end Calculator
