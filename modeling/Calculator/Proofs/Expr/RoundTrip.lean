import Calculator.Proofs.Parsing.Texts

/-!
# Reading the text of a tree

The text of a tree can be read back if all its numbers are finite and it is not nested too deeply.
What comes back is the tree itself, but that a number whose sign bit is set comes back as a
negation: the minus sign in its text is read as an operation. The value stays the same.

## Main definitions

* `Calculator.Expr.printedDepth`: how deeply the text of a tree is nested.
* `Calculator.Expr.withoutSignBits`: the tree with negations in the place of sign bits.

## Main results

* `Calculator.Expr.derives_tokens`: the text of a tree is a factor of the grammar.
* `Calculator.Expr.evaluate_withoutSignBits`: negations have the same values as sign bits.
* `Calculator.Expr.parse_text`: which texts of trees can be read, and what they are read as.
-/

namespace Calculator.Expr

mutual

/-- How many groups, argument lists and negations enclose the most deeply nested place of the text
of a tree. The text of a negation has a parenthesis in front of its sign. -/
def printedDepth : Expr → Nat
  | number value => if Binary64.isNegative value then 1 else 0
  | binary _ left right => max left.printedDepth right.printedDepth + 1
  | negate inner => inner.printedDepth + 2
  | factorial inner => inner.printedDepth + 1
  | call _ args => deepest args + 1

/-- The nesting of the text of the most deeply nested tree of a list, zero if there is none. -/
def deepest : List Expr → Nat
  | [] => 0
  | e :: es => max e.printedDepth (deepest es)

end

mutual

/-- The tree with the negation of a number in the place of every number whose sign bit is set. -/
def withoutSignBits : Expr → Expr
  | number value =>
      if Binary64.isNegative value then negate (number (-value)) else number value
  | binary op left right => binary op left.withoutSignBits right.withoutSignBits
  | negate inner => negate inner.withoutSignBits
  | factorial inner => factorial inner.withoutSignBits
  | call name args => call name (allWithoutSignBits args)

/-- The same for the trees of a list. -/
def allWithoutSignBits : List Expr → List Expr
  | [] => []
  | e :: es => e.withoutSignBits :: allWithoutSignBits es

end

theorem allWithoutSignBits_eq_map (es : List Expr) :
    allWithoutSignBits es = es.map withoutSignBits := by
  induction es with
  | nil => rfl
  | cons e es ih => rw [allWithoutSignBits, ih, List.map_cons]

/-! ### The tree that is read back -/

theorem hasValidCalls_withoutSignBits (e : Expr) :
    e.HasValidCalls → e.withoutSignBits.HasValidCalls := by
  induction e using inductionOn with
  | number value =>
    intro _
    rw [withoutSignBits]
    split <;> simp
  | binary op left right hleft hright =>
    intro h
    rw [hasValidCalls_binary_iff] at h
    exact hasValidCalls_binary_iff.2 ⟨hleft h.1, hright h.2⟩
  | negate inner hinner =>
    exact fun h => hasValidCalls_negate_iff.2 (hinner (hasValidCalls_negate_iff.1 h))
  | factorial inner hinner =>
    exact fun h => hasValidCalls_factorial_iff.2 (hinner (hasValidCalls_factorial_iff.1 h))
  | call name args hargs =>
    intro h
    obtain ⟨⟨builtin, hlookup, harity⟩, hcalls⟩ := hasValidCalls_call_iff.1 h
    rw [withoutSignBits, allWithoutSignBits_eq_map]
    refine hasValidCalls_call_iff.2 ⟨⟨builtin, hlookup, by rwa [List.length_map]⟩, ?_⟩
    rw [List.forall_mem_map]
    exact fun e he => hargs e he (hcalls e he)

theorem printedDepth_le_deepest {e : Expr} : {es : List Expr} → e ∈ es →
    e.printedDepth ≤ deepest es
  | _ :: _, .head _ => Nat.le_max_left _ _
  | _ :: _, .tail _ h => Nat.le_trans (printedDepth_le_deepest h) (Nat.le_max_right _ _)

/-- The height of the tree that is read back is bounded by the nesting of the text. -/
theorem height_withoutSignBits_le (e : Expr) :
    e.withoutSignBits.height ≤ e.printedDepth + 1 := by
  induction e using inductionOn with
  | number value =>
    rw [withoutSignBits, printedDepth]
    split <;> simp [height]
  | binary op left right hleft hright =>
    simp only [withoutSignBits, height, printedDepth]
    omega
  | negate inner hinner =>
    simp only [withoutSignBits, height, printedDepth]
    omega
  | factorial inner hinner =>
    simp only [withoutSignBits, height, printedDepth]
    omega
  | call name args hargs =>
    have htallest : tallest (args.map withoutSignBits) ≤ deepest args + 1 := by
      rw [tallest_le_iff, List.forall_mem_map]
      exact fun e he => Nat.le_trans (hargs e he) (Nat.succ_le_succ (printedDepth_le_deepest he))
    simp only [withoutSignBits, allWithoutSignBits_eq_map, height, printedDepth]
    omega

/-- The tree that is read back has the value of the tree that was written. -/
theorem evaluate_withoutSignBits (e : Expr) :
    e.HasFiniteNumbers → e.withoutSignBits.evaluate = e.evaluate := by
  induction e using inductionOn with
  | number value =>
    intro h
    rw [withoutSignBits]
    split
    · simp [evaluate, Binary64.neg_neg_of_isFinite (hasFiniteNumbers_number_iff.1 h)]
    · rfl
  | binary op left right hleft hright =>
    intro h
    rw [hasFiniteNumbers_binary_iff] at h
    rw [withoutSignBits, evaluate, evaluate, hleft h.1, hright h.2]
  | negate inner hinner =>
    intro h
    rw [hasFiniteNumbers_negate_iff] at h
    rw [withoutSignBits, evaluate, evaluate, hinner h]
  | factorial inner hinner =>
    intro h
    rw [hasFiniteNumbers_factorial_iff] at h
    rw [withoutSignBits, evaluate, evaluate, hinner h]
  | call name args hargs =>
    intro h
    rw [hasFiniteNumbers_call_iff] at h
    have hall : evaluateAll (args.map withoutSignBits) = evaluateAll args := by
      clear name
      induction args with
      | nil => rfl
      | cons e es ih =>
        rw [List.forall_mem_cons] at hargs h
        rw [List.map_cons, evaluateAll, evaluateAll, hargs.1 h.1, ih hargs.2 h.2]
    rw [withoutSignBits, allWithoutSignBits_eq_map, evaluate, evaluate, hall]

/-! ### The text as a phrase -/

theorem derivesAll_argumentTokens : {args : List Expr} → args ≠ [] →
    (∀ e ∈ args, Derives .factor e.printedDepth e.tokens e.withoutSignBits) →
      DerivesAll (deepest args) (argumentTokens args) (allWithoutSignBits args)
  | [e], _, h => by
      have hone := DerivesAll.one (h e List.mem_cons_self).expression
      simpa [deepest, argumentTokens, allWithoutSignBits] using hone
  | e :: e' :: es, _, h => by
      have hothers := derivesAll_argumentTokens (List.cons_ne_nil e' es) fun e'' he =>
        h e'' (List.mem_cons_of_mem e he)
      exact .cons (h e List.mem_cons_self).expression hothers

/-- The text of a finite number is a factor: a literal, or a negated one. -/
theorem derives_number {value : Float} (hvalue : value.isFinite = true) :
    Derives .factor (number value).printedDepth (number value).tokens
      (number value).withoutSignBits := by
  have hnan := Binary64.not_isNaN_of_isFinite hvalue
  have hinf : ¬value.isInf = true := fun h => (Binary64.isInf_iff_not_isFinite hnan).1 h hvalue
  have hread := Number.read_shortest hvalue
  rw [printedDepth, withoutSignBits, tokens, Number.tokens]
  generalize (Number.shortest (Binary64.rank value)).text = literal at hread ⊢
  simp only [if_neg hnan, if_neg hinf]
  split
  next hsign =>
    rw [if_pos hsign] at hread
    exact (Derives.ofPrimary (.number hread) .factor).negation
  next hsign =>
    rw [if_neg hsign] at hread
    exact Derives.ofPrimary (.number hread) .factor

/-- An operation in parentheses is a factor. -/
theorem derives_binary (op : BinaryOperator) {d d' : Nat} {ts ts' : List Token} {e e' : Expr}
    (h : Derives .factor d ts e) (h' : Derives .factor d' ts' e') :
    Derives .factor (max d d' + 1) (.leftParen :: (ts ++ op.sign :: (ts' ++ [.rightParen])))
      (binary op e e') := by
  simpa using Derives.ofPrimary (h.joined op h').group .factor

/-- The text of a tree is a factor of the grammar, for the tree that is read back. -/
theorem derives_tokens (e : Expr) (hcalls : e.HasValidCalls) (hfinite : e.HasFiniteNumbers) :
    Derives .factor e.printedDepth e.tokens e.withoutSignBits := by
  induction e using inductionOn with
  | number value => exact derives_number (hasFiniteNumbers_number_iff.1 hfinite)
  | binary op left right hleft hright =>
    rw [hasValidCalls_binary_iff] at hcalls
    rw [hasFiniteNumbers_binary_iff] at hfinite
    exact derives_binary op (hleft hcalls.1 hfinite.1) (hright hcalls.2 hfinite.2)
  | negate inner hinner =>
    have h := hinner (hasValidCalls_negate_iff.1 hcalls) (hasFiniteNumbers_negate_iff.1 hfinite)
    exact h.negation.parenthesized
  | factorial inner hinner =>
    have h := hinner (hasValidCalls_factorial_iff.1 hcalls)
      (hasFiniteNumbers_factorial_iff.1 hfinite)
    have hmarked := Derives.unsigned h.expression.group.factorial
    simpa [tokens, printedDepth, withoutSignBits] using hmarked
  | call name args hargs =>
    obtain ⟨⟨builtin, hlookup, harity⟩, hcalls⟩ := hasValidCalls_call_iff.1 hcalls
    rw [hasFiniteNumbers_call_iff] at hfinite
    have hne : args ≠ [] := builtin.ne_nil_of_length harity
    have hall := derivesAll_argumentTokens hne fun e he => hargs e he (hcalls e he) (hfinite e he)
    have hsome : (Builtin.lookup name).isSome = true := by rw [hlookup, Option.isSome_some]
    exact Derives.ofPrimary (.call hsome hall) .factor

/-! ### Numbers that are not finite -/

theorem subset_argumentTokens {e : Expr} : {args : List Expr} → e ∈ args →
    e.tokens ⊆ argumentTokens args
  | [_], h => by
      rw [List.mem_singleton.1 h]
      exact fun _ => id
  | e' :: e'' :: es, h => by
      rw [argumentTokens]
      rcases List.mem_cons.1 h with rfl | h
      · exact List.subset_append_left _ _
      · intro t ht
        exact List.mem_append_right _ (List.mem_cons_of_mem _ (subset_argumentTokens h ht))

/-- A number that is not finite is written as a name that is no name of a function. -/
theorem exists_name_of_not_isFinite {value : Float} (hvalue : ¬value.isFinite = true) :
    ∃ name, .identifier name ∈ Number.tokens value ∧ Builtin.lookup name = none := by
  rw [Number.tokens]
  split
  next => exact ⟨"NaN", List.mem_singleton_self _, by decide +kernel⟩
  next hnan =>
    have hinf := (Binary64.isInf_iff_not_isFinite hnan).2 hvalue
    refine ⟨"inf", ?_, by decide +kernel⟩
    simp only [if_pos hinf]
    split <;> simp

/-- If every name in the text of a tree is that of a function then all numbers are finite. -/
theorem hasFiniteNumbers_of_tokens (e : Expr)
    (h : ∀ name, .identifier name ∈ e.tokens → (Builtin.lookup name).isSome = true) :
    e.HasFiniteNumbers := by
  induction e using inductionOn with
  | number value =>
    refine hasFiniteNumbers_number_iff.2 (Decidable.byContradiction fun hvalue => ?_)
    obtain ⟨name, hname, hnone⟩ := exists_name_of_not_isFinite hvalue
    have hsome := h name hname
    rw [hnone] at hsome
    cases hsome
  | binary op left right hleft hright =>
    exact hasFiniteNumbers_binary_iff.2 ⟨hleft fun name hname => h name (by simp [tokens, hname]),
      hright fun name hname => h name (by simp [tokens, hname])⟩
  | negate inner hinner =>
    exact hasFiniteNumbers_negate_iff.2
      (hinner fun name hname => h name (by simp [tokens, hname]))
  | factorial inner hinner =>
    exact hasFiniteNumbers_factorial_iff.2
      (hinner fun name hname => h name (by simp [tokens, hname]))
  | call name args hargs =>
    refine hasFiniteNumbers_call_iff.2 fun e he => hargs e he fun name' hname => h name' ?_
    have hmem := subset_argumentTokens he hname
    simp [tokens, hmem]

/-! ### Reading the text -/

/-- If all numbers are finite and the text is not nested too deeply, it is read. -/
theorem parse_text_of_le {e : Expr} (hcalls : e.HasValidCalls) (hfinite : e.HasFiniteNumbers)
    (hdepth : e.printedDepth ≤ nestingLimit) : parse e.text = .ok e.withoutSignBits := by
  have hheight : e.withoutSignBits.height ≤ heightLimit := by
    have hle := height_withoutSignBits_le e
    rw [nestingLimit] at hdepth
    rw [heightLimit]
    omega
  exact (e.isPart_text hcalls.hasProperNames).parse_eq_ok
    (derives_tokens e hcalls hfinite).expression
    ⟨hdepth, hheight, hasValidCalls_withoutSignBits e hcalls⟩

/-- If all numbers are finite and the text is nested too deeply, it is refused for that. -/
theorem parse_text_of_lt {e : Expr} (hcalls : e.HasValidCalls) (hfinite : e.HasFiniteNumbers)
    (hdepth : nestingLimit < e.printedDepth) :
    ∃ position, parse e.text = .error (.grammatical (.tooDeep position)) :=
  (e.isPart_text hcalls.hasProperNames).parse_eq_tooDeep
    (derives_tokens e hcalls hfinite).expression (hasValidCalls_withoutSignBits e hcalls)
    fun hfits => absurd hfits.1 (Nat.not_le.2 hdepth)

/-- If the text is read, all numbers are finite. -/
theorem hasFiniteNumbers_of_parse {e e' : Expr} (hcalls : e.HasValidCalls)
    (h : parse e.text = .ok e') : e.HasFiniteNumbers := by
  obtain ⟨ls, htokens, hls⟩ := (e.isPart_text hcalls.hasProperNames).exists_tokenize
  obtain ⟨ls', d, htokens', hderives, _⟩ := exists_derives_of_parse h
  obtain rfl := Except.ok.inj (htokens.symm.trans htokens')
  rw [hls] at hderives
  exact hasFiniteNumbers_of_tokens e fun name hname => hderives.isSome_lookup hname

/-- The text of a tree with valid calls can be read exactly if all numbers are finite and the text
is not nested too deeply. It is read as the tree with negations in the place of sign bits, which has
the same value; and if it is only nested too deeply, it is refused for that. -/
theorem parse_text (e : Expr) (hcalls : e.HasValidCalls) :
    ((∃ e', parse e.text = .ok e') ↔ e.HasFiniteNumbers ∧ e.printedDepth ≤ nestingLimit) ∧
      (e.HasFiniteNumbers → e.printedDepth ≤ nestingLimit →
        parse e.text = .ok e.withoutSignBits ∧ e.withoutSignBits.value = e.value) ∧
      (e.HasFiniteNumbers → nestingLimit < e.printedDepth →
        ∃ position, parse e.text = .error (.grammatical (.tooDeep position))) := by
  refine ⟨⟨fun ⟨e', h⟩ => ?_, fun ⟨hfinite, hdepth⟩ => ?_⟩, fun hfinite hdepth => ⟨?_, ?_⟩, ?_⟩
  · have hfinite := hasFiniteNumbers_of_parse hcalls h
    refine ⟨hfinite, Nat.le_of_not_lt fun hdepth => ?_⟩
    obtain ⟨position, hrefused⟩ := parse_text_of_lt hcalls hfinite hdepth
    rw [h] at hrefused
    cases hrefused
  · exact ⟨_, parse_text_of_le hcalls hfinite hdepth⟩
  · exact parse_text_of_le hcalls hfinite hdepth
  · rw [value, value, evaluate_withoutSignBits e hfinite]
  · exact parse_text_of_lt hcalls

/-- The minus sign of a number comes back as a negation. -/
theorem parse_text_sqrt_sub :
    (binary .sub (call "sqrt" [number 2.25]) (number (-0.5))).HasValidCalls ∧
      parse "(sqrt(2.25) - -0.5)" =
        .ok (binary .sub (call "sqrt" [number 2.25]) (negate (number 0.5))) := by
  have hcalls : (binary .sub (call "sqrt" [number 2.25]) (number (-0.5))).HasValidCalls :=
    hasValidCalls_binary_iff.2 ⟨hasValidCalls_call_iff.2 ⟨⟨_, rfl, rfl⟩, by simp⟩, by simp⟩
  have hfinite : (binary .sub (call "sqrt" [number 2.25]) (number (-0.5))).HasFiniteNumbers := by
    simp only [hasFiniteNumbers_binary_iff, hasFiniteNumbers_call_iff, List.forall_mem_singleton,
      hasFiniteNumbers_number_iff]
    decide +kernel
  have hdepth : (binary .sub (call "sqrt" [number 2.25]) (number (-0.5))).printedDepth ≤
      nestingLimit := by decide +kernel
  have htext : (binary .sub (call "sqrt" [number 2.25]) (number (-0.5))).text =
      "(sqrt(2.25) - -0.5)" := by decide +kernel
  have hread := ((parse_text _ hcalls).2.1 hfinite hdepth).1
  have hnegative : Binary64.isNegative (-0.5) = true := by decide +kernel
  have hpositive : Binary64.isNegative 2.25 = false := by decide +kernel
  have hhalf : -(-0.5 : Float) = 0.5 := by decide +kernel
  rw [htext] at hread
  refine ⟨hcalls, ?_⟩
  simpa [withoutSignBits, allWithoutSignBits, hnegative, hpositive, hhalf] using hread

end Calculator.Expr
