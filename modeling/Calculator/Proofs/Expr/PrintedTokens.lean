import Calculator.Expr.Printer
import Calculator.Proofs.Expr.Nodes
import Calculator.Proofs.Grammar
import Calculator.Proofs.Number.Reading

/-!
# The tokens of the text of a tree

The text of a tree is divided into tokens as it was put together: no two of its parts run into each
other, since numbers and names are only ever followed by marks and blanks. Infinities and
not-a-number are written as words, which are no names of functions.

## Main definitions

* `Calculator.Number.tokens`, `Calculator.Expr.tokens`: the tokens of the texts of numbers and of
  trees.
* `Calculator.Expr.HasProperNames`: the names in a tree can be read as names.
* `Calculator.IsFreePart`, `Calculator.IsPart`: a text has certain tokens wherever it stands, or
  wherever it stands behind a mark.

## Main results

* `Calculator.Builtin.isName_of_lookup`: the name of a function can be read as a name.
* `Calculator.Expr.isPart_text`: the text of a tree whose names can be read as names has the tokens
  of the tree.
-/

namespace Calculator

/-! ### Names of functions -/

/-- Whether the text is a letter with letters and digits behind it. -/
def isNameText : List Char → Bool
  | [] => false
  | c :: cs => c.isAlpha && cs.all Char.isAlphanum

theorem isName_of_isNameText : {cs : List Char} → isNameText cs = true → IsName cs
  | _ :: _, h => by
      obtain ⟨hc, hcs⟩ := Bool.and_eq_true_iff.1 h
      exact .letter hc (List.all_eq_true.1 hcs)

/-- The name of a function can be read as a name. -/
theorem Builtin.isName_of_lookup {name : String} {b : Builtin} (h : lookup name = some b) :
    IsName name.toList := by
  have hall : (table.all fun b => isNameText b.name.toList) = true := by decide +kernel
  have hname := List.all_eq_true.1 hall b (List.mem_of_find?_eq_some h)
  rw [name_of_lookup h] at hname
  exact isName_of_isNameText hname

/-! ### Tokens -/

/-- The tokens of the text of a number. -/
def Number.tokens (x : Float) : List Token :=
  if x.isNaN then [.identifier "NaN"]
  else
    let absolute : Token :=
      if x.isInf then .identifier "inf" else .number (shortest (Binary64.rank x)).text
    if Binary64.isNegative x then [.minus, absolute] else [absolute]

namespace Expr

mutual

/-- The tokens of the text of a tree. -/
def tokens : Expr → List Token
  | number value => Number.tokens value
  | binary op left right =>
      .leftParen :: (left.tokens ++ op.sign :: (right.tokens ++ [.rightParen]))
  | negate inner => .leftParen :: .minus :: (inner.tokens ++ [.rightParen])
  | factorial inner => .leftParen :: (inner.tokens ++ [.rightParen, .bang])
  | call name args => .identifier name :: .leftParen :: (argumentTokens args ++ [.rightParen])

/-- The tokens of the texts of the trees of a list, with commas between them. -/
def argumentTokens : List Expr → List Token
  | [] => []
  | [e] => e.tokens
  | e :: e' :: es => e.tokens ++ .comma :: argumentTokens (e' :: es)

end

attribute [simp] tokens argumentTokens

/-- The names of all calls of a tree can be read as names, whether they are those of functions or
not. -/
def HasProperNames (e : Expr) : Prop := ∀ name args, call name args ∈ e.nodes → IsName name.toList

@[simp] theorem hasProperNames_number (value : Float) : (number value).HasProperNames := by
  simp [HasProperNames]

@[simp] theorem hasProperNames_binary_iff {op : BinaryOperator} {left right : Expr} :
    (binary op left right).HasProperNames ↔ left.HasProperNames ∧ right.HasProperNames := by
  simp [HasProperNames, or_imp, forall_and]

@[simp] theorem hasProperNames_negate_iff {inner : Expr} :
    (negate inner).HasProperNames ↔ inner.HasProperNames := by
  simp [HasProperNames]

@[simp] theorem hasProperNames_factorial_iff {inner : Expr} :
    (factorial inner).HasProperNames ↔ inner.HasProperNames := by
  simp [HasProperNames]

/-- The names in a call are its own name and those in its arguments. -/
theorem hasProperNames_call_iff {name : String} {args : List Expr} :
    (call name args).HasProperNames ↔
      IsName name.toList ∧ ∀ e ∈ args, e.HasProperNames := by
  simp only [HasProperNames, nodes, List.mem_append, List.mem_singleton, mem_nodesOfAll]
  constructor
  · intro h
    exact ⟨h name args (.inr rfl), fun e he name' args' hmem => h name' args' (.inl ⟨e, he, hmem⟩)⟩
  · rintro ⟨hname, hargs⟩ name' args' (⟨e, he, hmem⟩ | hself)
    · exact hargs e he name' args' hmem
    · rwa [(call.inj hself).1]

/-- The names of functions can be read as names. -/
theorem HasValidCalls.hasProperNames {e : Expr} (h : e.HasValidCalls) : e.HasProperNames := by
  intro name args hmem
  obtain ⟨_, hlookup, _⟩ := h name args hmem
  exact Builtin.isName_of_lookup hlookup

end Expr

/-! ### Parts of texts -/

/-- The text has the tokens in front of whatever prolongs none of them, and behind every token. -/
def IsFreePart (cs : List Char) (ts : List Token) : Prop :=
  ∀ before rest us, (∀ before', HasTokens before' rest us) →
    HasTokens before (cs ++ rest) (ts ++ us)

/-- No token has to be apart from the token in front of it. -/
def IsMark (before : Option Token) : Prop := ∀ t ∈ before, ∀ token, t.merges token = false

/-- The text has the tokens in front of whatever prolongs none of them, and behind a mark. -/
def IsPart (cs : List Char) (ts : List Token) : Prop :=
  ∀ before rest us, IsMark before → (∀ before', HasTokens before' rest us) →
    HasTokens before (cs ++ rest) (ts ++ us)

theorem isMark_none : IsMark none := nofun

section

variable {c : Char} {token : Token} {cs cs' : List Char} {ts ts' : List Token}

theorem isMark_of_ofMark? (hc : Token.ofMark? c = some token) : IsMark (some token) := by
  rintro _ ⟨⟩ u
  exact ((Token.mark_of_ofMark? hc).2.2 u).1

theorem HasTokens.mark (h : HasTokens (some token) cs ts) (hc : Token.ofMark? c = some token)
    (before : Option Token) : HasTokens before (c :: cs) (token :: ts) := by
  obtain ⟨hwell, _, hmerges⟩ := Token.mark_of_ofMark? hc
  have htoken := HasTokens.token hwell (fun t (_ : t ∈ before) => (hmerges t).2) h
  rwa [Token.toList_text_of_ofMark? hc] at htoken

/-- A mark is a part. -/
theorem isFreePart_mark (hc : Token.ofMark? c = some token) : IsFreePart [c] [token] :=
  fun before _ _ hrest => (hrest (some token)).mark hc before

/-- A number or a name is a part. -/
theorem isPart_token (htoken : token.IsWellFormed) : IsPart token.text.toList [token] :=
  fun _ _ _ hbefore hrest => .token htoken (fun t ht => hbefore t ht token) (hrest (some token))

theorem isPart_literal {literal : String} (h : IsLiteral literal.toList) :
    IsPart literal.toList [.number literal] := by
  have htoken : (Token.number literal).IsWellFormed := h
  have hpart := isPart_token htoken
  rwa [Token.text] at hpart

theorem isPart_name {name : String} (h : IsName name.toList) :
    IsPart name.toList [.identifier name] := by
  have htoken : (Token.identifier name).IsWellFormed := h
  have hpart := isPart_token htoken
  rwa [Token.text] at hpart

theorem IsFreePart.isPart (h : IsFreePart cs ts) : IsPart cs ts :=
  fun before rest us _ => h before rest us

/-- A part behind a mark. -/
theorem IsPart.mark (h : IsPart cs ts) (hc : Token.ofMark? c = some token) :
    IsFreePart (c :: cs) (token :: ts) := fun before rest us hrest =>
  (h (some token) rest us (isMark_of_ofMark? hc) hrest).mark hc before

/-- A part behind a blank. -/
theorem IsPart.blank (h : IsPart cs ts) : IsFreePart (' ' :: cs) ts := fun before rest us hrest =>
  (h none rest us isMark_none hrest).blank before

/-- Two parts, of which the second does not prolong the first. -/
theorem IsPart.append (h : IsPart cs ts) (h' : IsFreePart cs' ts') :
    IsPart (cs ++ cs') (ts ++ ts') := by
  intro before rest us hbefore hrest
  rw [List.append_assoc, List.append_assoc]
  exact h before _ _ hbefore fun before' => h' before' rest us hrest

end

/-- A part and the end of the input are a whole text. -/
theorem IsPart.hasTokens {cs : List Char} {ts : List Token} (h : IsPart cs ts) :
    HasTokens none cs (ts ++ [.endOfInput]) := by
  have hwhole := h none [] [.endOfInput] isMark_none .done
  rwa [List.append_nil] at hwhole

/-! ### Texts of trees -/

theorem Number.isPart_text (x : Float) : IsPart (text x).toList (tokens x) := by
  have hword : IsPart "inf".toList [.identifier "inf"] := isPart_name (isName_of_isNameText rfl)
  have hdigits : IsPart (shortest (Binary64.rank x)).text.toList
      [.number (shortest (Binary64.rank x)).text] := by
    refine isPart_literal ?_
    rw [Decimal.text, String.toList_ofList]
    exact Decimal.isLiteral_chars _
  have hsigned {s : String} {token : Token} (h : IsPart s.toList [token]) :
      IsPart (if Binary64.isNegative x then "-" ++ s else s).toList
        (if Binary64.isNegative x then [.minus, token] else [token]) := by
    split
    · rw [String.toList_append]
      exact (h.mark rfl).isPart
    · exact h
  rw [text, tokens]
  generalize (shortest (Binary64.rank x)).text = literal at hdigits ⊢
  by_cases hnan : x.isNaN = true
  · simp only [if_pos hnan]
    exact isPart_name (isName_of_isNameText rfl)
  · simp only [if_neg hnan]
    by_cases hinf : x.isInf = true
    · simp only [if_pos hinf]
      exact hsigned hword
    · simp only [if_neg hinf]
      exact hsigned hdigits

theorem BinaryOperator.exists_mark (op : BinaryOperator) :
    ∃ c, op.text.toList = [c] ∧ Token.ofMark? c = some op.sign := by
  cases op
  · exact ⟨'+', rfl, rfl⟩
  · exact ⟨'-', rfl, rfl⟩
  · exact ⟨'*', rfl, rfl⟩
  · exact ⟨'/', rfl, rfl⟩

/-- A function is not called without arguments. -/
theorem Builtin.ne_nil_of_length (b : Builtin) {α : Type} {args : List α}
    (h : args.length = b.arity) : args ≠ [] :=
  List.ne_nil_of_length_pos (h ▸ b.arity_pos)

namespace Expr

theorem isPart_argumentsText : {args : List Expr} →
    (∀ e ∈ args, IsPart e.text.toList e.tokens) →
      IsPart (argumentsText args).toList (argumentTokens args)
  | [], _ => fun before _ _ _ hrest => hrest before
  | [e], h => h e List.mem_cons_self
  | e :: e' :: es, h => by
      have hothers := isPart_argumentsText fun e'' he => h e'' (List.mem_cons_of_mem e he)
      have hcomma : Token.ofMark? ',' = some .comma := rfl
      simpa [argumentsText, argumentTokens] using
        (h e List.mem_cons_self).append (hothers.blank.isPart.mark hcomma)

/-- The text of a tree has the tokens of the tree. -/
theorem isPart_text (e : Expr) : e.HasProperNames → IsPart e.text.toList e.tokens := by
  have hopen : Token.ofMark? '(' = some .leftParen := rfl
  have hclose : Token.ofMark? ')' = some .rightParen := rfl
  have hminus : Token.ofMark? '-' = some .minus := rfl
  have hbang : Token.ofMark? '!' = some .bang := rfl
  induction e using inductionOn with
  | number value =>
    intro _
    rw [text, tokens]
    exact Number.isPart_text value
  | binary op left right hleft hright =>
    intro h
    rw [hasProperNames_binary_iff] at h
    obtain ⟨c, hc, hop⟩ := op.exists_mark
    have hend := ((hright h.2).append (isFreePart_mark hclose)).blank.isPart
    have hgroup := ((hleft h.1).append (hend.mark hop).isPart.blank).mark hopen
    simpa [text, tokens, hc] using hgroup.isPart
  | negate inner hinner =>
    intro h
    rw [hasProperNames_negate_iff] at h
    have hend := ((hinner h).append (isFreePart_mark hclose)).mark hminus
    simpa [text, tokens] using (hend.isPart.mark hopen).isPart
  | factorial inner hinner =>
    intro h
    rw [hasProperNames_factorial_iff] at h
    have hend := (isFreePart_mark hbang).isPart.mark hclose
    simpa [text, tokens] using (((hinner h).append hend).mark hopen).isPart
  | call name args hargs =>
    intro h
    obtain ⟨hname, hnames⟩ := hasProperNames_call_iff.1 h
    have hlist := isPart_argumentsText fun e he => hargs e he (hnames e he)
    have hend := (hlist.append (isFreePart_mark hclose)).mark hopen
    simpa [text, tokens] using (isPart_name hname).append hend

end Expr

end Calculator
