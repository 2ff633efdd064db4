import Calculator.Proofs.Expr.PrintedTokens

/-!
# The text of a tree determines the tree

No two trees have the same text, however deeply they are nested, so that a text can be told which
tree it is of even where it is nested too deeply to be read. The argument is about the tokens of the
texts. The tokens of a tree can be told from what follows them, as long as neither a factorial mark
nor an opening parenthesis follows: a mark would turn a negation into a factorial, and a parenthesis
would turn the name of an infinity into that of a function.

## Main definitions

* `Calculator.Token.IsWord`: number literals and names.
* `Calculator.EndsTree`: what may follow the tokens of a tree.
* `Calculator.Expr.IsDetermined`: a tree and what follows it are determined by their tokens.

## Main results

* `Calculator.Number.tokens_injective`: a number is determined by its tokens.
* `Calculator.Expr.isDetermined`: every tree and what follows it are determined by their tokens.
* `Calculator.Expr.eq_of_text_eq`: a tree is determined by its text.
-/

namespace Calculator

/-- The token is a number literal or a name. -/
def Token.IsWord : Token → Prop
  | number _ => True
  | identifier _ => True
  | _ => False

/-- The row begins neither with a factorial mark nor with an opening parenthesis. -/
def EndsTree (us : List Token) : Prop := ∀ t ∈ us.head?, t ≠ .bang ∧ t ≠ .leftParen

@[simp] theorem endsTree_cons_iff {t : Token} {us : List Token} :
    EndsTree (t :: us) ↔ t ≠ .bang ∧ t ≠ .leftParen := by
  simp [EndsTree]

theorem endsTree_rightParen (us : List Token) : EndsTree (.rightParen :: us) := by simp

theorem endsTree_comma (us : List Token) : EndsTree (.comma :: us) := by simp

theorem endsTree_sign (op : BinaryOperator) (us : List Token) : EndsTree (op.sign :: us) := by
  cases op <;> simp [BinaryOperator.sign]

/-! ### Numbers -/

namespace Number

/-- The token of the absolute value of a number. -/
def word (x : Float) : Token :=
  if x.isNaN then .identifier "NaN"
  else if x.isInf then .identifier "inf"
  else .number (shortest (Binary64.rank x)).text

theorem isWord_word (x : Float) : (word x).IsWord := by
  unfold word
  split
  · trivial
  · split <;> trivial

/-- The tokens of a number are one word, behind a minus sign if the sign bit is set. -/
theorem tokens_eq (x : Float) :
    tokens x = if Binary64.isNegative x then [.minus, word x] else [word x] := by
  rw [tokens, word]
  by_cases hnan : x.isNaN = true
  · rw [if_pos hnan, if_pos hnan, Binary64.isNegative_of_isNaN hnan]
    rfl
  · simp only [if_neg hnan]

/-- A number is not-a-number, infinite or finite, and its word tells which. -/
theorem word_cases (x : Float) :
    (x.isNaN = true ∧ word x = .identifier "NaN") ∨
      (x.isInf = true ∧ word x = .identifier "inf") ∨
        (x.isFinite = true ∧ word x = .number (shortest (Binary64.rank x)).text) := by
  rw [word]
  by_cases hnan : x.isNaN = true
  · exact .inl ⟨hnan, if_pos hnan⟩
  · by_cases hinf : x.isInf = true
    · exact .inr (.inl ⟨hinf, by rw [if_neg hnan, if_pos hinf]⟩)
    · have hfinite := Decidable.not_not.1 fun h => hinf ((Binary64.isInf_iff_not_isFinite hnan).2 h)
      exact .inr (.inr ⟨hfinite, by rw [if_neg hnan, if_neg hinf]⟩)

/-- The rank of a finite number can be read off its text. -/
theorem rank_eq_of_text_eq {x y : Float} (hx : x.isFinite = true) (hy : y.isFinite = true)
    (h : (shortest (Binary64.rank x)).text = (shortest (Binary64.rank y)).text) :
    Binary64.rank x = Binary64.rank y := by
  have hx' := Nat.le_of_lt (Binary64.isFinite_iff.1 hx)
  have hy' := Nat.le_of_lt (Binary64.isFinite_iff.1 hy)
  have hread := congrArg read h
  rw [Decimal.read_text, Decimal.read_text, nearestRank_shortest hx', nearestRank_shortest hy']
    at hread
  have hrank := congrArg Binary64.rank (Option.some.inj hread)
  rwa [Binary64.rank_ofRank _ hx', Binary64.rank_ofRank _ hy'] at hrank

/-- The rank of a number can be read off its word. -/
theorem rank_eq_of_word_eq {x y : Float} (h : word x = word y) :
    Binary64.rank x = Binary64.rank y := by
  -- Two numbers of different kinds have different words.
  rcases word_cases x with ⟨hx, hwx⟩ | ⟨hx, hwx⟩ | ⟨hx, hwx⟩ <;>
    rcases word_cases y with ⟨hy, hwy⟩ | ⟨hy, hwy⟩ | ⟨hy, hwy⟩ <;>
      simp [hwx, hwy] at h
  · rw [Binary64.eq_of_isNaN hx hy]
  · rw [Binary64.isInf_iff.1 hx, Binary64.isInf_iff.1 hy]
  · exact rank_eq_of_text_eq hx hy h

/-- A number is determined by its tokens. -/
theorem tokens_injective {x y : Float} (h : tokens x = tokens y) : x = y := by
  have hparts : Binary64.isNegative x = Binary64.isNegative y ∧ word x = word y := by
    rw [tokens_eq, tokens_eq] at h
    split at h <;> split at h <;> simp_all
  rw [← Binary64.ofRank_rank x, ← Binary64.ofRank_rank y, hparts.1, rank_eq_of_word_eq hparts.2]

end Number

namespace Expr

variable {e e' inner : Expr} {us us' ts : List Token} {t word : Token}

/-- Only a number begins with a word behind which no parenthesis opens. -/
theorem number_of_word (hword : word.IsWord) (hus : EndsTree us)
    (h : e.tokens ++ us' = word :: us) : us' = us ∧ ∃ x, e = number x := by
  cases e with
  | number x =>
    rw [tokens, Number.tokens_eq] at h
    split at h
    · cases h
      cases hword
    · exact ⟨(List.cons.inj h).2, x, rfl⟩
  | call name args =>
    cases h
    exact absurd rfl (endsTree_cons_iff.1 hus).2
  | _ =>
    cases h
    cases hword

/-- Only a number begins with a minus sign. -/
theorem number_of_minus (h : e.tokens ++ us = .minus :: ts) :
    ∃ x, e = number x ∧ Binary64.isNegative x = true ∧ ts = Number.word x :: us := by
  cases e with
  | number x =>
    rw [tokens, Number.tokens_eq] at h
    split at h
    next hsign => exact ⟨x, rfl, hsign, (List.cons.inj h).2.symm⟩
    next =>
      have hword := Number.isWord_word x
      rw [(List.cons.inj h).1] at hword
      cases hword
  | _ => cases h

/-- A number and what follows it are determined by their tokens. -/
theorem number_append_inj {x : Float} (hus : EndsTree us)
    (h : (number x).tokens ++ us = e.tokens ++ us') : number x = e ∧ us = us' := by
  have hrest : us = us' ∧ ∃ y, e = number y := by
    rw [tokens, Number.tokens_eq] at h
    split at h
    · obtain ⟨y, rfl, _, hword⟩ := number_of_minus h.symm
      exact ⟨(List.cons.inj hword).2, y, rfl⟩
    · obtain ⟨hrest, hnumber⟩ := number_of_word (Number.isWord_word x) hus h.symm
      exact ⟨hrest.symm, hnumber⟩
  obtain ⟨rfl, y, rfl⟩ := hrest
  have htokens : Number.tokens x = Number.tokens y := List.append_cancel_right h
  exact ⟨by rw [Number.tokens_injective htokens], rfl⟩

/-! ### Trees -/

theorem tokens_binary_append (op : BinaryOperator) (left right : Expr) (us : List Token) :
    (binary op left right).tokens ++ us =
      .leftParen :: (left.tokens ++ op.sign :: (right.tokens ++ .rightParen :: us)) := by
  simp

theorem tokens_negate_append (inner : Expr) (us : List Token) :
    (negate inner).tokens ++ us =
      .leftParen :: .minus :: (inner.tokens ++ .rightParen :: us) := by
  simp

theorem tokens_factorial_append (inner : Expr) (us : List Token) :
    (factorial inner).tokens ++ us =
      .leftParen :: (inner.tokens ++ .rightParen :: .bang :: us) := by
  simp

theorem tokens_call_append (name : String) (args : List Expr) (us : List Token) :
    (call name args).tokens ++ us =
      .identifier name :: .leftParen :: (argumentTokens args ++ .rightParen :: us) := by
  simp

/-- Behind its parenthesis, a negation looks like a tree only if a closing parenthesis follows the
tree as it follows the negation. -/
theorem negation_append_inj (hus : EndsTree (t :: us'))
    (h : .minus :: (inner.tokens ++ .rightParen :: us) = e.tokens ++ t :: us') :
    t = .rightParen ∧ us = us' := by
  obtain ⟨x, -, -, hinner⟩ := number_of_minus h.symm
  obtain ⟨hrest, -⟩ := number_of_word (Number.isWord_word x) hus hinner
  exact ⟨(List.cons.inj hrest).1.symm, (List.cons.inj hrest).2⟩

/-- A negation is no operation, whose left operand could be a number with a minus sign. -/
theorem negate_append_ne_binary {op : BinaryOperator} :
    (negate inner).tokens ++ us ≠ (binary op e e').tokens ++ us' := by
  rw [tokens_negate_append, tokens_binary_append]
  intro h
  have hsign := negation_append_inj (endsTree_sign op _) (List.cons.inj h).2
  cases op <;> cases hsign.1

/-- A negation is no factorial, whose operand could be a number with a minus sign. -/
theorem negate_append_ne_factorial (hus : EndsTree us) :
    (negate inner).tokens ++ us ≠ (factorial e).tokens ++ us' := by
  rw [tokens_negate_append, tokens_factorial_append]
  intro h
  obtain ⟨-, rfl⟩ := negation_append_inj (endsTree_rightParen _) (List.cons.inj h).2
  exact (endsTree_cons_iff.1 hus).1 rfl

/-- The tree and what follows it are determined by their tokens. -/
def IsDetermined (e : Expr) : Prop :=
  ∀ (e' : Expr) (us us' : List Token), EndsTree us → EndsTree us' →
    e.tokens ++ us = e'.tokens ++ us' → e = e' ∧ us = us'

theorem isDetermined_number (x : Float) : IsDetermined (number x) :=
  fun _ _ _ hus _ => number_append_inj hus

theorem isDetermined_binary {op : BinaryOperator} {left right : Expr} (hleft : IsDetermined left)
    (hright : IsDetermined right) : IsDetermined (binary op left right) := by
  intro e' us us' hus hus' h
  cases e' with
  | number x => exact (number_append_inj hus' h.symm).imp Eq.symm Eq.symm
  | binary op' left' right' =>
    rw [tokens_binary_append, tokens_binary_append] at h
    obtain ⟨rfl, hrest⟩ :=
      hleft _ _ _ (endsTree_sign _ _) (endsTree_sign _ _) (List.cons.inj h).2
    obtain ⟨hsign, hrest⟩ := List.cons.inj hrest
    obtain ⟨rfl, hclose⟩ := hright _ _ _ (endsTree_rightParen _) (endsTree_rightParen _) hrest
    have hop : op = op' := by
      cases op <;> cases op' <;> first | rfl | cases hsign
    exact ⟨by rw [hop], (List.cons.inj hclose).2⟩
  | negate inner => exact absurd h.symm negate_append_ne_binary
  | factorial inner =>
    rw [tokens_binary_append, tokens_factorial_append] at h
    obtain ⟨-, hrest⟩ :=
      hleft _ _ _ (endsTree_sign _ _) (endsTree_rightParen _) (List.cons.inj h).2
    cases op <;> cases hrest
  | call name args => cases h

theorem isDetermined_negate (hinner : IsDetermined inner) : IsDetermined (negate inner) := by
  intro e' us us' hus hus' h
  cases e' with
  | number x => exact (number_append_inj hus' h.symm).imp Eq.symm Eq.symm
  | binary op left right => exact absurd h negate_append_ne_binary
  | negate inner' =>
    rw [tokens_negate_append, tokens_negate_append] at h
    obtain ⟨rfl, hrest⟩ := hinner _ _ _ (endsTree_rightParen _) (endsTree_rightParen _)
      (List.cons.inj (List.cons.inj h).2).2
    exact ⟨rfl, (List.cons.inj hrest).2⟩
  | factorial inner' => exact absurd h (negate_append_ne_factorial hus)
  | call name args => cases h

theorem isDetermined_factorial (hinner : IsDetermined inner) : IsDetermined (factorial inner) := by
  intro e' us us' hus hus' h
  cases e' with
  | number x => exact (number_append_inj hus' h.symm).imp Eq.symm Eq.symm
  | binary op left right =>
    rw [tokens_binary_append, tokens_factorial_append] at h
    obtain ⟨-, hrest⟩ :=
      hinner _ _ _ (endsTree_rightParen _) (endsTree_sign _ _) (List.cons.inj h).2
    cases op <;> cases hrest
  | negate inner' => exact absurd h.symm (negate_append_ne_factorial hus')
  | factorial inner' =>
    rw [tokens_factorial_append, tokens_factorial_append] at h
    obtain ⟨rfl, hrest⟩ :=
      hinner _ _ _ (endsTree_rightParen _) (endsTree_rightParen _) (List.cons.inj h).2
    exact ⟨rfl, (List.cons.inj (List.cons.inj hrest).2).2⟩
  | call name args => cases h

/-- The tokens of a tree do not begin with a closing parenthesis. -/
theorem tokens_append_ne (e : Expr) (us us' : List Token) :
    e.tokens ++ us ≠ .rightParen :: us' := by
  intro h
  cases e with
  | number x =>
    have hword := Number.isWord_word x
    rw [tokens, Number.tokens_eq] at h
    split at h
    · cases h
    · rw [(List.cons.inj h).1] at hword
      cases hword
  | _ => cases h

/-- The tokens of a list of trees behind the first one. -/
def furtherTokens : List Expr → List Token
  | [] => []
  | e :: es => .comma :: argumentTokens (e :: es)

theorem argumentTokens_cons (e : Expr) (es : List Expr) :
    argumentTokens (e :: es) = e.tokens ++ furtherTokens es := by
  cases es <;> simp [furtherTokens]

theorem endsTree_furtherTokens (es : List Expr) (us : List Token) :
    EndsTree (furtherTokens es ++ .rightParen :: us) := by
  cases es with
  | nil => exact endsTree_rightParen us
  | cons e es => exact endsTree_comma _

/-- A list of arguments and what follows its closing parenthesis are determined by their tokens. -/
theorem arguments_append_inj : {args args' : List Expr} → {us us' : List Token} →
    (∀ e ∈ args, IsDetermined e) →
      argumentTokens args ++ .rightParen :: us = argumentTokens args' ++ .rightParen :: us' →
        args = args' ∧ us = us'
  | [], [], _, _, _, h => ⟨rfl, (List.cons.inj h).2⟩
  | [], e' :: es', _, _, _, h => by
      rw [argumentTokens_cons, List.append_assoc] at h
      exact absurd h.symm (tokens_append_ne e' _ _)
  | e :: es, [], _, _, _, h => by
      rw [argumentTokens_cons, List.append_assoc] at h
      exact absurd h (tokens_append_ne e _ _)
  | e :: es, e' :: es', us, us', hdetermined, h => by
      rw [argumentTokens_cons, argumentTokens_cons, List.append_assoc, List.append_assoc] at h
      rw [List.forall_mem_cons] at hdetermined
      obtain ⟨rfl, hfurther⟩ :=
        hdetermined.1 _ _ _ (endsTree_furtherTokens es us) (endsTree_furtherTokens es' us') h
      cases es with
      | nil =>
        cases es' with
        | nil => exact ⟨rfl, (List.cons.inj hfurther).2⟩
        | cons => cases hfurther
      | cons =>
        cases es' with
        | nil => cases hfurther
        | cons =>
          obtain ⟨hargs, hrest⟩ :=
            arguments_append_inj hdetermined.2 (List.cons.inj hfurther).2
          exact ⟨by rw [hargs], hrest⟩

theorem isDetermined_call {name : String} {args : List Expr}
    (hargs : ∀ e ∈ args, IsDetermined e) : IsDetermined (call name args) := by
  intro e' us us' hus hus' h
  cases e' with
  | number x => exact (number_append_inj hus' h.symm).imp Eq.symm Eq.symm
  | call name' args' =>
    rw [tokens_call_append, tokens_call_append] at h
    obtain ⟨hname, hlist⟩ := List.cons.inj h
    obtain ⟨rfl, hrest⟩ := arguments_append_inj hargs (List.cons.inj hlist).2
    cases hname
    exact ⟨rfl, hrest⟩
  | _ => cases h

/-- A tree and what follows it are determined by their tokens, unless a factorial mark or an opening
parenthesis follows. -/
theorem isDetermined (e : Expr) : IsDetermined e := by
  induction e using inductionOn with
  | number x => exact isDetermined_number x
  | binary op left right hleft hright => exact isDetermined_binary hleft hright
  | negate inner hinner => exact isDetermined_negate hinner
  | factorial inner hinner => exact isDetermined_factorial hinner
  | call name args hargs => exact isDetermined_call hargs

/-! ### Texts -/

/-- Trees with the same text have the same tokens. -/
theorem tokens_eq_of_text_eq {e e' : Expr} (h : e.HasProperNames) (h' : e'.HasProperNames)
    (htext : e.text = e'.text) : e.tokens = e'.tokens := by
  obtain ⟨ls, hrenders, hls⟩ := (e.isPart_text h).hasTokens 0
  obtain ⟨ls', hrenders', hls'⟩ := (e'.isPart_text h').hasTokens 0
  have hread := hrenders.tokenizeFrom_eq_ok []
  rw [htext, hrenders'.tokenizeFrom_eq_ok []] at hread
  obtain rfl := Except.ok.inj hread
  simpa using hls.symm.trans hls'

/-- Trees with the same tokens are the same. -/
theorem eq_of_tokens_eq {e e' : Expr} (h : e.tokens = e'.tokens) : e = e' :=
  (e.isDetermined e' [] [] (by simp [EndsTree]) (by simp [EndsTree]) (by rw [h])).1

/-- Two trees whose names can be read as names are the same if they have the same text. Their
numbers are the same up to their bits; there is one not-a-number. -/
theorem eq_of_text_eq {e e' : Expr} (h : e.HasProperNames) (h' : e'.HasProperNames)
    (htext : e.text = e'.text) : e = e' := by
  have htokens := tokens_eq_of_text_eq h h' htext
  exact eq_of_tokens_eq htokens

/-- Not-a-number is written without a sign, and has none. -/
theorem eq_of_text_eq_nan :
    (binary .add (number (0 / 0)) (call "f" [])).text = "(NaN + f())" ∧
      (binary .add (number (-(0 / 0))) (call "f" [])).text = "(NaN + f())" ∧
        binary .add (number (0 / 0)) (call "f" []) =
          binary .add (number (-(0 / 0))) (call "f" []) := by
  have hnames (x : Float) : (binary .add (number x) (call "f" [])).HasProperNames := by
    rw [hasProperNames_binary_iff, hasProperNames_call_iff]
    exact ⟨hasProperNames_number x, .letter rfl nofun, nofun⟩
  have htext : (binary .add (number (0 / 0)) (call "f" [])).text = "(NaN + f())" := by
    decide +kernel
  have htext' : (binary .add (number (-(0 / 0))) (call "f" [])).text = "(NaN + f())" := by
    decide +kernel
  exact ⟨htext, htext', eq_of_text_eq (hnames _) (hnames _) (htext.trans htext'.symm)⟩

end Expr

end Calculator
