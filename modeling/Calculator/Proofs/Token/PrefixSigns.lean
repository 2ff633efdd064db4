import Calculator.Proofs.Token.Balance

/-!
# Prefix signs whose operand is unfinished

A minus sign at the beginning of an operand is a prefix sign. Its operand is the factor behind it,
and as long as the row ends before that factor does, the operand is unfinished. In a phrase every
prefix sign has its operand inside the phrase. So a row of phrases, signs and open parentheses has
as many unfinished operands as prefix signs stand outside its phrases.

## Main definitions

* `Calculator.expectsOperand`: an operand begins behind a token, or at the beginning.
* `Calculator.BeginsWithFactor`: some beginning of a row is a factor.
* `Calculator.unfinished`: how many prefix signs of a row have an operand that is unfinished.

## Main results

* `Calculator.Derives.unfinishedFrom_append`: in a phrase no operand is unfinished.
* `Calculator.not_beginsWithFactor_group`, `Calculator.not_beginsWithFactor_call`: no factor ends
  behind a parenthesis that stays open.
-/

namespace Calculator

/-- An operand begins behind the token. -/
def Token.leadsOperand : Token → Bool
  | plus | minus | star | slash | leftParen | comma => true
  | _ => false

/-- An operand begins behind the token, or at the beginning of a row if there is none. -/
def expectsOperand (previous : Option Token) : Bool := previous.all Token.leadsOperand

/-- Some beginning of the row is a factor. -/
def BeginsWithFactor (ts : List Token) : Prop :=
  ∃ us d e, us <+: ts ∧ Derives .factor d us e

open Classical in
/-- How many prefix signs of a row, which stands behind the token `previous`, have an operand that
is unfinished. -/
noncomputable def unfinishedFrom : (previous : Option Token) → List Token → Nat
  | _, [] => 0
  | previous, t :: ts =>
      (if t = .minus ∧ expectsOperand previous = true ∧ ¬BeginsWithFactor ts then 1 else 0) +
        unfinishedFrom (some t) ts

/-- How many prefix signs of a row that is read from its beginning have an operand that is
unfinished. -/
noncomputable def unfinished (ts : List Token) : Nat := unfinishedFrom none ts

section

variable {previous : Option Token} {t : Token} {ts : List Token}

theorem unfinishedFrom_cons_of_ne (ht : t ≠ .minus) :
    unfinishedFrom previous (t :: ts) = unfinishedFrom (some t) ts := by
  rw [unfinishedFrom, if_neg fun h => ht h.1, Nat.zero_add]

theorem unfinishedFrom_cons_of_expectsOperand (hprevious : expectsOperand previous = false) :
    unfinishedFrom previous (t :: ts) = unfinishedFrom (some t) ts := by
  rw [unfinishedFrom, if_neg fun h => Bool.false_ne_true (hprevious.symm.trans h.2.1), Nat.zero_add]

theorem unfinishedFrom_minus_of_beginsWithFactor (hts : BeginsWithFactor ts) :
    unfinishedFrom previous (.minus :: ts) = unfinishedFrom (some .minus) ts := by
  rw [unfinishedFrom, if_neg fun h => h.2.2 hts, Nat.zero_add]

theorem unfinishedFrom_minus_of_not_beginsWithFactor (hprevious : expectsOperand previous = true)
    (hts : ¬BeginsWithFactor ts) :
    unfinishedFrom previous (.minus :: ts) = unfinishedFrom (some .minus) ts + 1 := by
  rw [unfinishedFrom, if_pos ⟨rfl, hprevious, hts⟩, Nat.add_comm]

end

/-! ### Phrases -/

theorem Derives.beginsWithFactor {d : Nat} {ts : List Token} {e : Expr} (h : Derives .factor d ts e)
    (us : List Token) : BeginsWithFactor (ts ++ us) :=
  ⟨ts, d, e, List.prefix_append ts us, h⟩

mutual

/-- In a phrase no operand is unfinished, and the token behind a phrase is no prefix sign. -/
theorem Derives.unfinishedFrom_append {x : Nonterminal} {d : Nat} {ts : List Token} {e : Expr} :
    Derives x d ts e → ∀ (previous : Option Token) (t : Token) (us : List Token),
      unfinishedFrom previous (ts ++ t :: us) = unfinishedFrom (some t) us
  | .operand _ h, previous, t, us => h.unfinishedFrom_append previous t us
  | .join _ op _ left right, previous, t, us => by
      rw [List.append_assoc, List.cons_append, left.unfinishedFrom_append,
        right.unfinishedFrom_append]
  | .negation h, previous, t, us => by
      rw [List.cons_append, unfinishedFrom_minus_of_beginsWithFactor (h.beginsWithFactor _),
        h.unfinishedFrom_append]
  | .unsigned h, previous, t, us => h.unfinishedFrom_append previous t us
  | .factorial h, previous, t, us => by
      rw [List.append_assoc, List.singleton_append, h.unfinishedFrom_append,
        unfinishedFrom_cons_of_expectsOperand rfl]
  | .unmarked h, previous, t, us => h.unfinishedFrom_append previous t us
  | .number _, previous, t, us => by
      rw [List.singleton_append, unfinishedFrom_cons_of_ne (t := .number _) nofun,
        unfinishedFrom_cons_of_expectsOperand rfl]
  | .call _ h, previous, t, us => by
      rw [List.cons_append, List.cons_append, List.append_assoc, List.singleton_append,
        unfinishedFrom_cons_of_ne (t := .identifier _) nofun,
        unfinishedFrom_cons_of_ne (t := .leftParen) nofun, h.unfinishedFrom_append,
        unfinishedFrom_cons_of_expectsOperand rfl]
  | .group h, previous, t, us => by
      rw [List.cons_append, List.append_assoc, List.singleton_append,
        unfinishedFrom_cons_of_ne (t := .leftParen) nofun, h.unfinishedFrom_append,
        unfinishedFrom_cons_of_expectsOperand rfl]

/-- In a list of arguments no operand is unfinished, and the token behind it is no prefix sign. -/
theorem DerivesAll.unfinishedFrom_append {d : Nat} {ts : List Token} {es : List Expr} :
    DerivesAll d ts es → ∀ (previous : Option Token) (t : Token) (us : List Token),
      unfinishedFrom previous (ts ++ t :: us) = unfinishedFrom (some t) us
  | .one h, previous, t, us => h.unfinishedFrom_append previous t us
  | .cons h hs, previous, t, us => by
      rw [List.append_assoc, List.cons_append, h.unfinishedFrom_append, hs.unfinishedFrom_append]

end

/-! ### Rows that begin with no factor -/

section

variable {k : Nat} {ts : List Token}

/-- A factor is a negation, or it begins with a primary. -/
theorem BeginsWithFactor.cases (h : BeginsWithFactor ts) :
    (∃ us, ts = .minus :: us ∧ BeginsWithFactor us) ∨
      ∃ us d e, us <+: ts ∧ Derives .primary d us e := by
  obtain ⟨us, d, e, hprefix, h⟩ := h
  cases h with
  | @negation d us _ h =>
    obtain ⟨vs, rfl⟩ := hprefix
    exact .inl ⟨us ++ vs, rfl, h.beginsWithFactor vs⟩
  | unsigned h =>
    cases h with
    | factorial h => exact .inr ⟨_, _, _, (List.prefix_append _ _).trans hprefix, h⟩
    | unmarked h => exact .inr ⟨_, _, _, hprefix, h⟩

theorem not_beginsWithFactor_nil : ¬BeginsWithFactor [] := by
  intro h
  rcases h.cases with ⟨us, hus, _⟩ | ⟨us, d, e, hprefix, h⟩
  · cases hus
  · rw [List.prefix_nil] at hprefix
    cases h <;> cases hprefix

/-- Behind a sign there is the factor that it negates. -/
theorem BeginsWithFactor.of_minus (h : BeginsWithFactor (.minus :: ts)) : BeginsWithFactor ts := by
  rcases h.cases with ⟨us, hus, h⟩ | ⟨us, d, e, hprefix, h⟩
  · cases hus
    exact h
  · cases h with
    | number | call | group => cases (List.cons_prefix_cons.1 hprefix).1

/-- Nothing in a row with open parentheses closes a parenthesis in front of it. -/
theorem HasOpen.not_prefix {us : List Token} (h : HasOpen k ts) (hus : IsBalanced us) :
    ¬us ++ [.rightParen] <+: ts := by
  rintro ⟨vs, rfl⟩
  rw [List.append_assoc] at h
  exact h.not_isBalanced_append [] hus

/-- A parenthesis in front of a row in which nothing closes it stays open. -/
theorem HasOpen.leftParen_cons (h : HasOpen k ts) : HasOpen (1 + k) (.leftParen :: ts) :=
  HasOpen.append (HasOpen.concat_leftParen isBalanced_nil) h

/-- No factor ends behind a parenthesis that stays open. -/
theorem not_beginsWithFactor_group (h : HasOpen k ts) : ¬BeginsWithFactor (.leftParen :: ts) := by
  intro hfactor
  rcases hfactor.cases with ⟨us, hus, _⟩ | ⟨us, d, e, hprefix, hprimary⟩
  · cases hus
  · cases hprimary with
    | number | call => cases (List.cons_prefix_cons.1 hprefix).1
    | group hcontent => exact h.not_prefix hcontent.isBalanced (List.cons_prefix_cons.1 hprefix).2

/-- No factor ends behind the parenthesis of a call that stays open. -/
theorem not_beginsWithFactor_call {name : String} (h : HasOpen k ts) :
    ¬BeginsWithFactor (.identifier name :: .leftParen :: ts) := by
  intro hfactor
  rcases hfactor.cases with ⟨us, hus, _⟩ | ⟨us, d, e, hprefix, hprimary⟩
  · cases hus
  · cases hprimary with
    | number | group => cases (List.cons_prefix_cons.1 hprefix).1
    | call _ hargs =>
      have hrest := (List.cons_prefix_cons.1 hprefix).2
      exact h.not_prefix hargs.isBalanced (List.cons_prefix_cons.1 hrest).2

end

theorem BinaryOperator.leadsOperand_sign (op : BinaryOperator) : op.sign.leadsOperand = true := by
  cases op <;> rfl

end Calculator
