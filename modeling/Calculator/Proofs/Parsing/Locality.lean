import Calculator.Proofs.Parsing.Phrase

/-!
# Reading looks one lexeme ahead

What comes of reading is decided by the lexemes that are taken and by the one behind them. If the
row is changed from there on, but for that one lexeme, the outcome is the same in front of the
changed rest.

## Main definitions

* `Calculator.Outcome.before`: the same outcome in front of another rest.
* `Calculator.IsLocalAt`: how a way of reading takes a row is decided by what it takes and by one
  lexeme more.

## Main results

* `Calculator.isLocalAt_unary`, `Calculator.isLocalAt_expression`: factors and expressions are
  read so.
-/

namespace Calculator

open Calculator.Parser

/-- The same outcome in front of another rest. -/
def Outcome.before {α : Type} (rest : List Lexeme) : Outcome α → Outcome α
  | ok value _ => ok value rest
  | error cause _ => error cause rest

/-- How `f` reads from `ls` is decided by what it takes and by the lexeme behind that. -/
def IsLocalAt {α : Type} (f : List Lexeme → Outcome α) (ls : List Lexeme) : Prop :=
  ∃ taken, ls = taken ++ (f ls).rest ∧
    ∀ rest, rest.head? = (f ls).rest.head? → f (taken ++ rest) = (f ls).before rest

/-- Rows that differ only behind their heads still do so behind a common part. -/
theorem head?_append_of_eq {α : Type} (taken : List α) {rest rest' : List α}
    (h : rest.head? = rest'.head?) : (taken ++ rest).head? = (taken ++ rest').head? := by
  cases taken with
  | nil => exact h
  | cons l us => rfl

section

variable {α β : Type} {f g : List Lexeme → Outcome α} {ls : List Lexeme}

/-- What takes nothing, as decided by the head of the row, is local. -/
theorem isLocalAt_of_head? (o : Outcome α)
    (hf : ∀ rest, rest.head? = ls.head? → f rest = o.before rest) : IsLocalAt f ls := by
  have hrest : (f ls).rest = ls := by
    rw [hf ls rfl]
    cases o <;> rfl
  refine ⟨[], by rw [hrest, List.nil_append], fun rest hhead => ?_⟩
  rw [hrest] at hhead
  rw [List.nil_append, hf rest hhead, hf ls rfl]
  cases o <;> rfl

theorem isLocalAt_nil (hf : (f []).rest = []) : IsLocalAt f [] := by
  refine ⟨[], hf.symm, fun rest hrest => ?_⟩
  rw [hf, List.head?_nil, List.head?_eq_none_iff] at hrest
  rw [hrest, List.nil_append]
  cases hrun : f [] <;> rw [hrun] at hf <;> cases hf <;> rfl

theorem isLocalAt_ok (value : α) (ls : List Lexeme) : IsLocalAt (Outcome.ok value) ls :=
  isLocalAt_of_head? (.ok value []) fun _ _ => rfl

theorem isLocalAt_error (cause : ParseError) (ls : List Lexeme) :
    IsLocalAt (Outcome.error cause : List Lexeme → Outcome α) ls :=
  isLocalAt_of_head? (.error cause []) fun _ _ => rfl

/-- What takes nothing, as decided by the first lexeme, is local. -/
theorem isLocalAt_cons_of_eq {l : Lexeme} (o : Outcome α)
    (hf : ∀ us, f (l :: us) = o.before (l :: us)) : IsLocalAt f (l :: ls) := by
  refine isLocalAt_of_head? o fun rest hrest => ?_
  obtain ⟨us, rfl⟩ := List.head?_eq_some_iff.1 hrest
  exact hf us

/-- Taking the first lexeme and reading on as decided by it. -/
theorem IsLocalAt.cons {l : Lexeme} (h : IsLocalAt g ls) (hf : ∀ us, f (l :: us) = g us) :
    IsLocalAt f (l :: ls) := by
  obtain ⟨taken, hls, hlocal⟩ := h
  refine ⟨l :: taken, ?_, fun rest hrest => ?_⟩
  · rw [hf, List.cons_append, ← hls]
  · rw [hf] at hrest ⊢
    rw [List.cons_append, hf, hlocal rest hrest]

theorem IsLocalAt.congr (h : IsLocalAt g ls)
    (hf : ∀ us, us.head? = ls.head? → f us = g us) : IsLocalAt f ls := by
  obtain ⟨taken, hls, hlocal⟩ := h
  refine ⟨taken, by rwa [hf ls rfl], fun rest hrest => ?_⟩
  rw [hf ls rfl] at hrest ⊢
  have hhead : (taken ++ rest).head? = ls.head? := by
    rw [head?_append_of_eq taken hrest, ← hls]
  rw [hf _ hhead, hlocal rest hrest]

/-- Reading on after a success. -/
theorem IsLocalAt.andThen {next : α → List Lexeme → Outcome β} (h : IsLocalAt f ls)
    (hnext : ∀ value rest, f ls = .ok value rest → IsLocalAt (next value) rest) :
    IsLocalAt (fun us => (f us).andThen next) ls := by
  obtain ⟨taken, hls, hlocal⟩ := h
  cases hrun : f ls with
  | error cause rest =>
    rw [hrun] at hls hlocal
    refine ⟨taken, ?_, fun rest' hrest' => ?_⟩
    · simp only [hrun]
      exact hls
    · simp only [hrun] at hrest' ⊢
      rw [hlocal rest' hrest']
      rfl
  | ok value rest =>
    rw [hrun] at hls hlocal
    obtain ⟨taken', hrest, hlocal'⟩ := hnext value rest hrun
    refine ⟨taken ++ taken', ?_, fun rest' hrest' => ?_⟩
    · simp only [hrun, Outcome.andThen_ok]
      rw [List.append_assoc, ← hrest]
      exact hls
    · simp only [hrun, Outcome.andThen_ok] at hrest' ⊢
      have hhead : (taken' ++ rest').head? = rest.head? := by
        rw [head?_append_of_eq taken' hrest', ← hrest]
      rw [List.append_assoc, hlocal _ hhead, Outcome.before, Outcome.andThen_ok, hlocal' _ hrest']

end

/-! ### Repetitions -/

theorem isLocalAt_ofExcept {α : Type} (result : Except ParseError α) (ls : List Lexeme) :
    IsLocalAt (Outcome.ofExcept result) ls := by
  cases result with
  | ok value => exact isLocalAt_ok value ls
  | error cause => exact isLocalAt_error cause ls

theorem isLocalAt_chainFrom (operator? : Token → Option BinaryOperator) {operand : Parser Subtree}
    (h : ∀ ls, IsLocalAt operand.run ls) (left : Subtree) (ls : List Lexeme) :
    IsLocalAt (chainFrom operator? operand left) ls := by
  induction hlength : ls.length using Nat.strongRecOn generalizing left ls with
  | ind length ih =>
    cases ls with
    | nil => exact isLocalAt_nil (by rw [chainFrom]; rfl)
    | cons l ls =>
      rw [List.length_cons] at hlength
      cases hop : operator? l.token with
      | none =>
        refine isLocalAt_cons_of_eq (.ok left []) fun us => ?_
        rw [chainFrom]
        simp only [hop]
        rfl
      | some op =>
        refine IsLocalAt.cons ?_ (chainFrom_cons hop operand left)
        refine (h ls).andThen fun right rest hrun => ?_
        have hshorter := operand.length_rest_lt hrun
        refine (isLocalAt_ofExcept _ rest).andThen fun joined rest' hjoin => ?_
        obtain ⟨_, rfl⟩ := Outcome.ofExcept_eq_ok_iff.1 hjoin
        exact ih rest'.length (by omega) joined rest' rfl

theorem isLocalAt_chain (operator? : Token → Option BinaryOperator) {operand : Parser Subtree}
    (h : ∀ ls, IsLocalAt operand.run ls) (ls : List Lexeme) :
    IsLocalAt (chain operator? operand).run ls :=
  (h ls).andThen fun left rest _ => isLocalAt_chainFrom operator? h left rest

theorem isLocalAt_argumentsFrom {item : Parser Subtree} (h : ∀ ls, IsLocalAt item.run ls)
    (opening : Nat) (read : List Subtree) (ls : List Lexeme) :
    IsLocalAt (argumentsFrom item opening read) ls := by
  induction hlength : ls.length using Nat.strongRecOn generalizing read ls with
  | ind length ih =>
    refine IsLocalAt.congr ?_ fun us _ => argumentsFrom_eq item opening read us
    refine (h ls).andThen fun value rest hrun => ?_
    have hshorter := item.length_rest_lt hrun
    cases rest with
    | nil => exact isLocalAt_nil rfl
    | cons l rest =>
      rw [List.length_cons] at hshorter
      cases hl : l.token with
      | comma =>
        have hrest := ih rest.length (by omega) (value :: read) rest rfl
        exact hrest.cons fun us => by simp only [argumentsBehind, hl]
      | rightParen =>
        exact (isLocalAt_ok (value :: read).reverse rest).cons fun us => by
          simp only [argumentsBehind, hl]
      | endOfInput =>
        refine isLocalAt_cons_of_eq (.error (.unmatchedParenthesis opening) []) fun us => ?_
        simp only [argumentsBehind, hl, Outcome.before]
      | _ =>
        refine isLocalAt_cons_of_eq (.error (.unexpected l) []) fun us => ?_
        simp only [argumentsBehind, hl, Outcome.before]

/-! ### Primaries and factors -/

theorem isLocalAt_closing {α : Type} (opening : Nat) (value : α) (ls : List Lexeme) :
    IsLocalAt (closing opening value) ls := by
  cases ls with
  | nil => exact isLocalAt_nil rfl
  | cons l ls =>
    cases hl : l.token with
    | rightParen =>
      exact (isLocalAt_ok value ls).cons fun us => by simp only [closing, hl]
    | endOfInput =>
      refine isLocalAt_cons_of_eq (.error (.unmatchedParenthesis opening) []) fun us => ?_
      simp only [closing, hl, Outcome.before]
    | _ =>
      refine isLocalAt_cons_of_eq (.error (.unexpected l) []) fun us => ?_
      simp only [closing, hl, Outcome.before]

theorem isLocalAt_literal (text : String) (position : Nat) (ls : List Lexeme) :
    IsLocalAt (literal text position) ls := by
  refine isLocalAt_of_head? (literal text position []) fun rest _ => ?_
  unfold literal
  split <;> rfl

theorem isLocalAt_group {inner : Except ParseError (Parser Subtree)}
    (h : ∀ content, inner = .ok content → ∀ ls, IsLocalAt content.run ls) (opening : Nat)
    (ls : List Lexeme) : IsLocalAt (group inner opening) ls := by
  cases inner with
  | error cause => exact isLocalAt_error cause ls
  | ok content =>
    exact (h content rfl ls).andThen fun value rest _ => isLocalAt_closing opening value rest

theorem isLocalAt_call {enclosed : Nat → Except ParseError (Parser Subtree)}
    (h : ∀ position item, enclosed position = .ok item → ∀ ls, IsLocalAt item.run ls)
    (parenthesized : Bool) (name : String) (position : Nat) (ls : List Lexeme) :
    IsLocalAt (call enclosed parenthesized name position) ls := by
  cases hlookup : Builtin.lookup name with
  | none =>
    refine isLocalAt_of_head? (.error (.unknownFunction name position) []) fun rest _ => ?_
    simp only [call, hlookup, Outcome.before]
  | some builtin =>
    cases ls with
    | nil => exact isLocalAt_nil (by simp only [call, hlookup, Outcome.rest])
    | cons l ls =>
      by_cases hl : l.token = .leftParen
      · cases henclosed : enclosed l.position with
        | error cause =>
          exact (isLocalAt_error cause ls).cons fun us => by
            simp only [call, hlookup, if_pos hl, henclosed]
        | ok item =>
          have hargs := isLocalAt_argumentsFrom (h l.position item henclosed) l.position [] ls
          refine IsLocalAt.cons (hargs.andThen fun args rest _ => ?_) fun us => by
            simp only [call, hlookup, if_pos hl, henclosed, arguments]
            rfl
          by_cases hlength : args.length = builtin.arity
          · exact (isLocalAt_ofExcept _ rest).congr fun us _ => if_pos hlength
          · exact (isLocalAt_error _ rest).congr fun us _ => if_neg hlength
      · refine isLocalAt_cons_of_eq (.error (stray parenthesized l) []) fun us => ?_
        simp only [call, hlookup, if_neg hl, Outcome.before]

theorem isLocalAt_primary {enclosed : Nat → Except ParseError (Parser Subtree)}
    (h : ∀ position content, enclosed position = .ok content → ∀ ls, IsLocalAt content.run ls)
    (parenthesized : Bool) (ls : List Lexeme) :
    IsLocalAt (Parser.primary enclosed parenthesized) ls := by
  cases ls with
  | nil => exact isLocalAt_nil rfl
  | cons l ls =>
    cases hl : l.token with
    | number text =>
      exact (isLocalAt_literal text l.position ls).cons fun us => by simp only [Parser.primary, hl]
    | identifier name =>
      exact (isLocalAt_call h parenthesized name l.position ls).cons fun us => by
        simp only [Parser.primary, hl]
    | leftParen =>
      exact (isLocalAt_group (h l.position) l.position ls).cons fun us => by
        simp only [Parser.primary, hl]
    | _ =>
      refine isLocalAt_cons_of_eq (.error (stray parenthesized l) []) fun us => ?_
      simp only [Parser.primary, hl, Outcome.before]

theorem isLocalAt_factorialMark (operand : Subtree) (ls : List Lexeme) :
    IsLocalAt (factorialMark operand) ls := by
  cases ls with
  | nil => exact isLocalAt_nil rfl
  | cons l ls =>
    by_cases hl : l.token = .bang
    · cases hfactorial : operand.factorial l.position with
      | error cause =>
        refine isLocalAt_cons_of_eq (.error cause []) fun us => ?_
        simp only [factorialMark, if_pos hl, hfactorial, Outcome.before]
      | ok subtree =>
        exact (isLocalAt_ok subtree ls).cons fun us => by
          simp only [factorialMark, if_pos hl, hfactorial]
    · refine isLocalAt_cons_of_eq (.ok operand []) fun us => ?_
      simp only [factorialMark, if_neg hl, Outcome.before]

theorem isLocalAt_negation {inner : Except ParseError (Parser Subtree)}
    (h : ∀ operand, inner = .ok operand → ∀ ls, IsLocalAt operand.run ls) (position : Nat)
    (ls : List Lexeme) : IsLocalAt (negation inner position) ls := by
  cases inner with
  | error cause => exact isLocalAt_error cause ls
  | ok operand => exact (h operand rfl ls).andThen fun _ rest _ => isLocalAt_ofExcept _ rest

/-- A factor is read locally. Behind a sign and behind a parenthesis there is less room, so that
what they enclose is read locally already. -/
theorem isLocalAt_unary (n : Nesting) (ls : List Lexeme) : IsLocalAt (unary n).run ls := by
  induction hroom : n.room using Nat.strongRecOn generalizing n ls with
  | ind room ih =>
    have hnegated : ∀ position operand, negated n position = .ok operand →
        ∀ ls, IsLocalAt operand.run ls := by
      intro position operand hoperand ls
      obtain ⟨m, hm, rfl⟩ := negated_eq_ok_iff.1 hoperand
      have hroom' := Nesting.room_of_deeper hm
      exact ih m.room (by omega) m ls rfl
    have henclosed : ∀ position content, enclosed n position = .ok content →
        ∀ ls, IsLocalAt content.run ls := by
      intro position content hcontent ls
      obtain ⟨m, hm, rfl⟩ := enclosed_eq_ok_iff.1 hcontent
      have hroom' := Nesting.room_of_parenthesized hm
      exact isLocalAt_chain _ (isLocalAt_chain _ fun us => ih m.room (by omega) m us rfl) ls
    refine IsLocalAt.congr ?_ fun us _ => run_unary n us
    have hmarked (us : List Lexeme) :=
      (isLocalAt_primary henclosed n.isParenthesized us).andThen fun s rest _ =>
        isLocalAt_factorialMark s rest
    cases ls with
    | nil => exact isLocalAt_nil rfl
    | cons l ls =>
      by_cases hl : l.token = .minus
      · exact (isLocalAt_negation (hnegated l.position) l.position ls).cons fun us => by
          simp only [readFactor, if_pos hl]
      · refine (hmarked (l :: ls)).congr fun us hus => ?_
        obtain ⟨vs, rfl⟩ := List.head?_eq_some_iff.1 hus
        rw [readFactor, if_neg hl]

/-- An expression is read locally. -/
theorem isLocalAt_expression (n : Nesting) (ls : List Lexeme) :
    IsLocalAt (expression n).run ls :=
  isLocalAt_chain _ (isLocalAt_chain _ (isLocalAt_unary n)) ls

end Calculator
