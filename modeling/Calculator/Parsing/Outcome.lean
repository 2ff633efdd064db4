import Calculator.Nesting

/-!
# Outcomes of reading a row of lexemes

Reading takes lexemes from the front of a row. Its outcome is a value or the cause of a failure,
and in either case the lexemes that were not taken. A parser is a way of reading whose success
takes at least one lexeme; this is what makes a repetition end.

## Main definitions

* `Calculator.Outcome`: outcomes, with `Calculator.Outcome.andThen` to read on after a success.
* `Calculator.Outcome.Shortens`: the outcome is a failure or leaves fewer lexemes than a bound.
* `Calculator.Parser`: ways of reading that take at least one lexeme when they succeed.
-/

namespace Calculator

/-- What comes of reading from a row of lexemes. -/
inductive Outcome (α : Type)
  /-- A value was read, and the rest was not taken. -/
  | ok (value : α) (rest : List Lexeme)
  /-- Nothing could be read, and reading stopped in front of the rest. -/
  | error (cause : ParseError) (rest : List Lexeme)

namespace Outcome

variable {α β : Type}

/-- The lexemes that were not taken. -/
def rest : Outcome α → List Lexeme
  | ok _ rest => rest
  | error _ rest => rest

/-- The value or the cause of the failure. -/
def result : Outcome α → Except ParseError α
  | ok value _ => .ok value
  | error cause _ => .error cause

/-- An outcome that takes no lexeme. -/
def ofExcept (result : Except ParseError α) (rest : List Lexeme) : Outcome α :=
  match result with
  | .ok value => ok value rest
  | .error cause => error cause rest

/-- Reads on after a success. -/
def andThen (o : Outcome α) (next : α → List Lexeme → Outcome β) : Outcome β :=
  match o with
  | ok value rest => next value rest
  | error cause rest => error cause rest

@[simp] theorem andThen_ok (value : α) (rest : List Lexeme) (next : α → List Lexeme → Outcome β) :
    (ok value rest).andThen next = next value rest := rfl

@[simp] theorem andThen_error (cause : ParseError) (rest : List Lexeme)
    (next : α → List Lexeme → Outcome β) :
    (error cause rest).andThen next = error cause rest := rfl

theorem ofExcept_eq_ok_iff {result : Except ParseError α} {value : α} {rest rest' : List Lexeme} :
    ofExcept result rest = ok value rest' ↔ result = .ok value ∧ rest' = rest := by
  cases result <;> simp [ofExcept, eq_comm]

/-- A success leaves fewer than `bound` lexemes. -/
def Shortens (bound : Nat) : Outcome α → Prop
  | ok _ rest => rest.length < bound
  | error _ _ => True

@[simp] theorem shortens_ok {bound : Nat} {value : α} {rest : List Lexeme} :
    (ok value rest).Shortens bound ↔ rest.length < bound := Iff.rfl

@[simp] theorem shortens_error {bound : Nat} {cause : ParseError} {rest : List Lexeme} :
    (error cause rest : Outcome α).Shortens bound := trivial

theorem Shortens.mono {o : Outcome α} {bound bound' : Nat} (h : o.Shortens bound)
    (hle : bound ≤ bound') : o.Shortens bound' := by
  cases o with
  | ok _ _ => exact Nat.lt_of_lt_of_le h hle
  | error _ _ => trivial

theorem shortens_ofExcept {result : Except ParseError α} {bound : Nat} {rest : List Lexeme}
    (h : rest.length < bound) : (ofExcept result rest).Shortens bound := by
  cases result with
  | ok _ => exact h
  | error _ => trivial

/-- Reading on after an outcome that shortens, by steps that keep it so, shortens. -/
theorem Shortens.andThen {o : Outcome α} {bound : Nat} (h : o.Shortens bound)
    {next : α → List Lexeme → Outcome β}
    (hnext : ∀ value rest, rest.length < bound → (next value rest).Shortens bound) :
    (o.andThen next).Shortens bound := by
  cases o with
  | ok value rest => exact hnext value rest h
  | error _ _ => trivial

end Outcome

/-- A way of reading that takes at least one lexeme when it succeeds. -/
structure Parser (α : Type) where
  /-- Reads from a row of lexemes. -/
  run : List Lexeme → Outcome α
  /-- A success leaves fewer lexemes than there were. -/
  shortens : ∀ ls, (run ls).Shortens ls.length

namespace Parser

variable {α : Type}

/-- Two parsers are the same if they read alike. -/
@[ext] theorem ext {p q : Parser α} (h : ∀ ls, p.run ls = q.run ls) : p = q := by
  obtain ⟨_, _⟩ := p
  obtain ⟨_, _⟩ := q
  congr
  exact funext h

/-- A success leaves fewer lexemes than there were. -/
theorem length_rest_lt (p : Parser α) {ls rest : List Lexeme} {value : α}
    (h : p.run ls = .ok value rest) : rest.length < ls.length := by
  have hs := p.shortens ls
  rwa [h] at hs

end Parser

/-- The failure of a row that ends where a lexeme is needed. A row without an end of input has no
position for its end, which is reported at the beginning. -/
def ParseError.outOfLexemes : ParseError := .unexpectedToken .endOfInput 0

/-- The failure at a lexeme with which nothing goes on. -/
def ParseError.unexpected (l : Lexeme) : ParseError := .unexpectedToken l.token l.position

end Calculator
