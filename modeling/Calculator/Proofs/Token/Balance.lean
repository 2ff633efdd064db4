import Mathlib.Data.List.Infix
import Calculator.Proofs.Grammar

/-!
# Balanced parentheses

A parenthesis is open behind a row of tokens if it has been opened in the row and not been closed
since. A row with `k` open parentheses has `k` more opening than closing ones, and nowhere in it are
there more closing than opening ones; it is balanced if none is open. The partner of an opening
parenthesis is the closing one that stands behind it with a balanced row in between.

## Main definitions

* `Calculator.HasOpen`: how many parentheses are open behind a row.
* `Calculator.IsBalanced`: the row has as many opening as closing parentheses, and no beginning of
  it has more closing than opening ones.
* `Calculator.HasPartner`: what follows an opening parenthesis holds its partner.

## Main results

* `Calculator.IsBalanced.hasPartner`: in a balanced row every opening parenthesis has a partner.
* `Calculator.IsBalanced.not_hasPartner`: in front of a balanced row a parenthesis stays open.
* `Calculator.Derives.isBalanced`: phrases are balanced.
-/

namespace Calculator

/-- Behind the row `ts` there are `k` open parentheses. -/
structure HasOpen (k : Nat) (ts : List Token) : Prop where
  /-- There are `k` more opening than closing parentheses. -/
  count_eq : ts.count .leftParen = ts.count .rightParen + k
  /-- No beginning of the row has more closing than opening parentheses. -/
  count_le : ∀ us, us <+: ts → us.count .rightParen ≤ us.count .leftParen

/-- The row has as many opening as closing parentheses, and no beginning of it has more closing than
opening ones. -/
def IsBalanced (ts : List Token) : Prop := HasOpen 0 ts

section

variable {j k : Nat} {ts us vs : List Token}

/-! ### Open parentheses -/

theorem HasOpen.append (h : HasOpen k ts) (h' : HasOpen j us) : HasOpen (k + j) (ts ++ us) where
  count_eq := by
    have hcount := h.count_eq
    have hcount' := h'.count_eq
    rw [List.count_append, List.count_append]
    omega
  count_le vs hvs := by
    rcases List.prefix_or_prefix_of_prefix hvs (List.prefix_append ts us) with hfront | ⟨ws, rfl⟩
    · exact h.count_le vs hfront
    · have hcount := h.count_eq
      have hle := h'.count_le ws ((List.prefix_append_right_inj ts).1 hvs)
      rw [List.count_append, List.count_append]
      omega

/-- A balanced row does not change what is open. -/
theorem HasOpen.append_balanced (h : HasOpen k ts) (h' : IsBalanced us) : HasOpen k (ts ++ us) :=
  h.append h'

theorem IsBalanced.append (h : IsBalanced ts) (h' : IsBalanced us) : IsBalanced (ts ++ us) :=
  HasOpen.append h h'

/-- A row without parentheses is balanced. -/
theorem isBalanced_of_notMem (hopen : .leftParen ∉ ts) (hclose : .rightParen ∉ ts) :
    IsBalanced ts where
  count_eq := by rw [List.count_eq_zero.2 hopen, List.count_eq_zero.2 hclose]
  count_le us hus := by
    rw [List.count_eq_zero.2 fun hmem => hclose (hus.subset hmem)]
    exact Nat.zero_le _

theorem isBalanced_nil : IsBalanced [] := isBalanced_of_notMem nofun nofun

theorem isBalanced_singleton {t : Token} (hopen : t ≠ .leftParen) (hclose : t ≠ .rightParen) :
    IsBalanced [t] :=
  isBalanced_of_notMem (by simpa using hopen.symm) (by simpa using hclose.symm)

theorem IsBalanced.cons {t : Token} (hopen : t ≠ .leftParen) (hclose : t ≠ .rightParen)
    (h : IsBalanced ts) : IsBalanced (t :: ts) :=
  (isBalanced_singleton hopen hclose).append h

theorem isBalanced_sign (op : BinaryOperator) : IsBalanced [op.sign] := by
  cases op <;> exact isBalanced_singleton nofun nofun

/-- An opening parenthesis is open behind the row that it ends. -/
theorem HasOpen.concat_leftParen (h : HasOpen k ts) : HasOpen (k + 1) (ts ++ [.leftParen]) := by
  refine h.append ⟨rfl, fun us hus => ?_⟩
  rcases List.prefix_cons_iff.1 hus with rfl | ⟨us, rfl, hnil⟩
  · exact Nat.le_refl 0
  · rw [List.prefix_nil.1 hnil]
    decide

/-- A closing parenthesis closes one that is open. -/
theorem HasOpen.concat_rightParen (h : HasOpen (k + 1) ts) : HasOpen k (ts ++ [.rightParen]) := by
  have hcount := h.count_eq
  have hwhole : (ts ++ [Token.rightParen]).count .leftParen =
      (ts ++ [Token.rightParen]).count .rightParen + k := by
    simp only [List.count_append, List.count_singleton, beq_iff_eq, reduceCtorEq, if_false, if_true]
    omega
  refine ⟨hwhole, fun us hus => ?_⟩
  rcases List.prefix_concat_iff.1 hus with rfl | hfront
  · omega
  · exact h.count_le us hfront

/-- A balanced row in parentheses is balanced. -/
theorem IsBalanced.parenthesized (h : IsBalanced ts) :
    IsBalanced (.leftParen :: (ts ++ [.rightParen])) := by
  have hopen : HasOpen 1 (.leftParen :: ts) :=
    HasOpen.append_balanced (HasOpen.concat_leftParen isBalanced_nil) h
  exact hopen.concat_rightParen

/-! ### Partners -/

/-- The row, which stands behind an opening parenthesis, holds the partner of that parenthesis. -/
def HasPartner (ts : List Token) : Prop :=
  ∃ between rest, ts = between ++ .rightParen :: rest ∧ IsBalanced between

theorem HasPartner.append (h : HasPartner ts) (us : List Token) : HasPartner (ts ++ us) := by
  obtain ⟨between, rest, rfl, hbetween⟩ := h
  exact ⟨between, rest ++ us, by simp, hbetween⟩

/-- In a row without a partner, no beginning has more closing than opening parentheses. -/
theorem count_le_of_not_hasPartner (hts : ¬HasPartner ts) (hvs : vs <+: ts) :
    ∀ us, us <+: vs → us.count .rightParen ≤ us.count .leftParen := by
  -- Token by token from the left: the first token with which the closing ones prevail closes the
  -- parenthesis, since the row in front of it is balanced.
  induction vs using List.reverseRecOn with
  | nil =>
    intro us hus
    rw [List.prefix_nil.1 hus]
    exact Nat.le_refl 0
  | append_singleton ws t ih =>
    have hws := ih ((List.prefix_append ws [t]).trans hvs)
    intro us hus
    rcases List.prefix_concat_iff.1 hus with rfl | hfront
    · refine Nat.le_of_not_lt fun hlt => hts ?_
      obtain ⟨rest, rfl⟩ := hvs
      have hle := hws ws (List.prefix_refl ws)
      simp only [List.count_append, List.count_singleton, beq_iff_eq] at hlt
      have ht : t = .rightParen := by
        by_contra ht
        rw [if_neg ht] at hlt
        omega
      subst ht
      simp only [reduceCtorEq, if_false, if_true] at hlt
      have hbalanced : IsBalanced ws := ⟨by omega, hws⟩
      exact ⟨ws, rest, by simp, hbalanced⟩
    · exact hws us hfront

/-- A row with more closing than opening parentheses holds a partner. -/
theorem hasPartner_of_count_lt (hlt : ts.count .leftParen < ts.count .rightParen) :
    HasPartner ts := by
  by_contra hts
  have hle := count_le_of_not_hasPartner hts (List.prefix_refl ts) ts (List.prefix_refl ts)
  omega

/-- In a balanced row every opening parenthesis has a partner. -/
theorem IsBalanced.hasPartner (h : IsBalanced (ts ++ .leftParen :: us)) : HasPartner us := by
  refine hasPartner_of_count_lt ?_
  have hcount := h.count_eq
  have hle := h.count_le ts (List.prefix_append ts _)
  simp only [List.count_append, List.count_cons_self, ne_eq, reduceCtorEq, not_false_eq_true,
    List.count_cons_of_ne] at hcount
  omega

/-- What follows an opening parenthesis holds no partner of it if it is balanced up to its last
token, which closes nothing. -/
theorem IsBalanced.not_hasPartner {t : Token} (h : IsBalanced ts) (ht : t ≠ .rightParen) :
    ¬HasPartner (ts ++ [t]) := by
  rintro ⟨between, rest, hts, hbetween⟩
  have hfront : between ++ [.rightParen] <+: ts ++ [t] := ⟨rest, by simp [hts]⟩
  rcases List.prefix_concat_iff.1 hfront with hwhole | hfront
  · exact ht (List.singleton_inj.1 (List.append_inj_right' hwhole rfl)).symm
  · have hle := h.count_le _ hfront
    have hcount := hbetween.count_eq
    simp only [List.count_append, List.count_singleton, beq_iff_eq, reduceCtorEq, if_false,
      if_true] at hle
    omega

/-- Parentheses that are closed in the second of two rows make the two balanced only if the second
closes more than it opens. -/
theorem HasOpen.not_isBalanced_append (h : HasOpen k (us ++ .rightParen :: vs)) (ts : List Token) :
    ¬IsBalanced (ts ++ us) := by
  intro hbalanced
  have hclosed := h.count_le (us ++ [.rightParen]) ⟨vs, by simp⟩
  have hcount := hbalanced.count_eq
  have hfront := hbalanced.count_le ts (List.prefix_append ts us)
  simp only [List.count_append, List.count_singleton, beq_iff_eq, reduceCtorEq, if_false,
    if_true] at hclosed hcount
  omega

/-- A partner in two rows is in the first if nothing in the second closes what is open in front of
it. -/
theorem HasOpen.exists_eq_append (h : HasOpen k us) {between rest : List Token}
    (hbetween : IsBalanced between) (heq : ts ++ us = between ++ .rightParen :: rest) :
    ∃ behind, ts = between ++ .rightParen :: behind := by
  rcases List.append_eq_append_iff.1 heq with ⟨inner, rfl, rfl⟩ | ⟨_ | ⟨_, behind⟩, rfl, hclose⟩
  · exact absurd hbetween (h.not_isBalanced_append ts)
  · have hfront : HasOpen k ([] ++ .rightParen :: rest) := by rwa [List.nil_append, hclose]
    exact absurd hbetween (by simpa using hfront.not_isBalanced_append between)
  · obtain ⟨rfl, -⟩ := List.cons.inj hclose
    exact ⟨behind, rfl⟩

/-- Nothing in a balanced row closes a parenthesis in front of it. -/
theorem IsBalanced.not_hasPartner_self (h : IsBalanced ts) : ¬HasPartner ts := by
  rintro ⟨between, rest, rfl, hbetween⟩
  exact HasOpen.not_isBalanced_append h [] hbetween

/-- A parenthesis has no other partner than the first that a balanced row leads to. -/
theorem IsBalanced.eq_of_append_rightParen (h : IsBalanced ts) (h' : IsBalanced us)
    {ws : List Token} (heq : ts ++ .rightParen :: vs = us ++ .rightParen :: ws) : ts = us := by
  rcases List.append_eq_append_iff.1 heq with ⟨_ | ⟨_, front⟩, rfl, hrest⟩ |
    ⟨_ | ⟨_, front⟩, rfl, hrest⟩
  · exact (List.append_nil ts).symm
  · obtain ⟨rfl, -⟩ := List.cons.inj hrest
    exact absurd ⟨ts, front, rfl, h⟩ h'.not_hasPartner_self
  · exact List.append_nil us
  · obtain ⟨rfl, -⟩ := List.cons.inj hrest
    exact absurd ⟨us, front, rfl, h'⟩ h.not_hasPartner_self

end

/-! ### Phrases -/

mutual

/-- Phrases are balanced. -/
theorem Derives.isBalanced {x : Nonterminal} {d : Nat} {ts : List Token} {e : Expr} :
    Derives x d ts e → IsBalanced ts
  | .operand _ h => h.isBalanced
  | .join _ op _ left right =>
      left.isBalanced.append ((isBalanced_sign op).append right.isBalanced)
  | .negation h => h.isBalanced.cons nofun nofun
  | .unsigned h => h.isBalanced
  | .factorial h => h.isBalanced.append (isBalanced_singleton nofun nofun)
  | .unmarked h => h.isBalanced
  | .number _ => isBalanced_singleton nofun nofun
  | .call _ h => h.isBalanced.parenthesized.cons nofun nofun
  | .group h => h.isBalanced.parenthesized

/-- Lists of arguments are balanced. -/
theorem DerivesAll.isBalanced {d : Nat} {ts : List Token} {es : List Expr} :
    DerivesAll d ts es → IsBalanced ts
  | .one h => h.isBalanced
  | .cons h hs => h.isBalanced.append (hs.isBalanced.cons nofun nofun)

end

end Calculator
