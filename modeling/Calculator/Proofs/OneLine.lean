import Calculator.Proofs.Expr.PrintedTokens
import Calculator.Proofs.Expr.Warnings
import Calculator.Proofs.Parsing.Report

/-!
# Texts on one line

A number, a tree and a message each fill one line: no line feed stands in them. Numbers and trees
are written without blanks other than the space. A message quotes a token or a character of the
text, and neither of them is blank, since blanks belong to no token and are never refused.

## Main definitions

* `Calculator.IsOneLine`: a text has no line feed.

## Main results

* `Calculator.Number.isOneLine_text`, `Calculator.Expr.isOneLine_text`: numbers and trees are
  written on one line.
* `Calculator.isOneLine_message_of_parse`: so is the message for a text that is not accepted.
-/

namespace Calculator

/-- The text has no line feed. -/
def IsOneLine (text : String) : Prop := '\n' ∉ text.toList

instance (text : String) : Decidable (IsOneLine text) :=
  inferInstanceAs (Decidable ('\n' ∉ text.toList))

theorem IsOneLine.append {s t : String} (hs : IsOneLine s) (ht : IsOneLine t) :
    IsOneLine (s ++ t) := by
  rw [IsOneLine, String.toList_append, List.mem_append]
  exact not_or_intro hs ht

/-- A text without blanks is on one line. -/
theorem isOneLine_of_isBlank {text : String} (h : ∀ c ∈ text.toList, isBlank c = false) :
    IsOneLine text := fun hmem => absurd (h '\n' hmem) (by decide)

/-! ### Tokens -/

theorem isBlank_eq_false_of_isDigit {c : Char} (hc : c.isDigit = true) : isBlank c = false :=
  isBlank_eq_false_of_isAlphanum (isAlphanum_iff.2 (.inr hc))

theorem IsLiteral.isBlank_eq_false {cs : List Char} (h : IsLiteral cs) :
    ∀ c ∈ cs, isBlank c = false := by
  cases h with
  | whole h => exact fun c hc => isBlank_eq_false_of_isDigit (h.2 c hc)
  | fraction hds hfs =>
    rw [List.forall_mem_append, List.forall_mem_cons]
    exact ⟨fun c hc => isBlank_eq_false_of_isDigit (hds.2 c hc), by decide,
      fun c hc => isBlank_eq_false_of_isDigit (hfs.2 c hc)⟩

theorem IsName.isBlank_eq_false {cs : List Char} (h : IsName cs) :
    ∀ c ∈ cs, isBlank c = false := by
  obtain ⟨hc, hcs⟩ := h
  rw [List.forall_mem_cons]
  exact ⟨isBlank_eq_false_of_isAlphanum (isAlphanum_iff.2 (.inl hc)),
    fun d hd => isBlank_eq_false_of_isAlphanum (hcs d hd)⟩

theorem isOneLine_of_isName {name : String} (h : IsName name.toList) : IsOneLine name :=
  isOneLine_of_isBlank h.isBlank_eq_false

theorem Token.IsProper.isOneLine_text {token : Token} (h : token.IsProper) :
    IsOneLine token.text := by
  rcases h with h | rfl
  · rcases h.cases with ⟨literal, rfl, hliteral⟩ | ⟨name, rfl, hname⟩ | ⟨c, hc⟩
    · exact isOneLine_of_isBlank hliteral.isBlank_eq_false
    · exact isOneLine_of_isName hname
    · refine isOneLine_of_isBlank ?_
      rw [toList_text_of_ofMark? hc, List.forall_mem_singleton]
      exact (plain_of_ofMark? hc).2.1
  · decide

theorem Token.IsProper.isOneLine_description {token : Token} (h : token.IsProper) :
    IsOneLine token.description := by
  have hquoted : IsOneLine ("'" ++ token.text ++ "'") :=
    (IsOneLine.append (by decide) h.isOneLine_text).append (by decide)
  cases token with
  | endOfInput => decide
  | _ => exact hquoted

/-! ### Numbers and trees -/

/-- A natural number is written on one line. -/
theorem isOneLine_toString (n : Nat) : IsOneLine (toString n) := by
  refine isOneLine_of_isBlank fun c hc => ?_
  rw [Nat.toString_eq_repr, Nat.toList_repr] at hc
  exact isBlank_eq_false_of_isDigit (Nat.isDigit_of_mem_toDigits (by decide) (by decide) hc)

/-- A number is written on one line. -/
theorem Number.isOneLine_text (x : Float) : IsOneLine (text x) := by
  have hdigits : IsOneLine (shortest (Binary64.rank x)).text := by
    refine isOneLine_of_isBlank ?_
    rw [Decimal.text, String.toList_ofList]
    exact (Decimal.isLiteral_chars _).isBlank_eq_false
  have hword : IsOneLine "inf" := by decide
  rw [text]
  generalize (shortest (Binary64.rank x)).text = literal at hdigits
  split
  · decide
  · have habsolute : IsOneLine (if x.isInf then "inf" else literal) := by
      split
      · exact hword
      · exact hdigits
    dsimp only
    split
    · exact IsOneLine.append (by decide) habsolute
    · exact habsolute

namespace Expr

theorem isOneLine_argumentsText : {args : List Expr} → (∀ e ∈ args, IsOneLine e.text) →
    IsOneLine (argumentsText args)
  | [], _ => by decide
  | [e], h => h e List.mem_cons_self
  | e :: e' :: es, h => by
      have hothers := isOneLine_argumentsText fun e'' he => h e'' (List.mem_cons_of_mem e he)
      exact ((h e List.mem_cons_self).append (by decide)).append hothers

/-- A tree whose names can be read as names is written on one line. -/
theorem isOneLine_text (e : Expr) : e.HasProperNames → IsOneLine e.text := by
  have hopen : IsOneLine "(" := by decide
  have hclose : IsOneLine ")" := by decide
  have hspace : IsOneLine " " := by decide
  induction e using inductionOn with
  | number value => exact fun _ => Number.isOneLine_text value
  | binary op left right hleft hright =>
    intro h
    rw [hasProperNames_binary_iff] at h
    have hop : IsOneLine op.text := by cases op <;> decide
    rw [text]
    exact (((((hopen.append (hleft h.1)).append hspace).append hop).append hspace).append
      (hright h.2)).append hclose
  | negate inner hinner =>
    intro h
    rw [hasProperNames_negate_iff] at h
    rw [text]
    exact (IsOneLine.append (by decide) (hinner h)).append hclose
  | factorial inner hinner =>
    intro h
    rw [hasProperNames_factorial_iff] at h
    rw [text]
    exact (hopen.append (hinner h)).append (by decide)
  | call name args hargs =>
    intro h
    obtain ⟨hname, hnames⟩ := hasProperNames_call_iff.1 h
    have hlist := isOneLine_argumentsText fun e he => hargs e he (hnames e he)
    rw [text]
    exact (((isOneLine_of_isName hname).append hopen).append hlist).append hclose

end Expr

/-- The tree of a text is written on one line. -/
theorem isOneLine_text_of_parse {source : String} {e : Expr} (h : parse source = .ok e) :
    IsOneLine e.text :=
  e.isOneLine_text (hasValidCalls_of_parse h).hasProperNames

/-! ### Messages -/

theorem isOneLine_messageAt (position : Nat) {cause : String} (h : IsOneLine cause) :
    IsOneLine (messageAt position cause) := by
  have hhead : IsOneLine "Error at position " := by decide
  have hcolon : IsOneLine ": " := by decide
  have hstop : IsOneLine "." := by decide
  exact (((hhead.append (isOneLine_toString position)).append hcolon).append h).append hstop

/-- A character that is refused is not blank. -/
theorem isBlank_eq_false_of_tokenizeFrom {cs : List Char} {position place : Nat} {c : Char}
    {read : List Lexeme} (h : tokenizeFrom cs position read = .error (.invalidCharacter c place)) :
    isBlank c = false := by
  fun_induction tokenizeFrom cs position read with
  | case1 => cases h
  | case2 _ _ _ _ _ ih => exact ih h
  | case3 _ _ _ _ hc =>
    cases h
    simpa using hc
  | case4 _ _ _ _ _ _ _ _ ih => exact ih h

/-- What is said about a character that is no blank is on one line. -/
theorem isOneLine_message_of_tokenize {source : String} {cause : LexError}
    (h : tokenize source = .error cause) : IsOneLine cause.message := by
  obtain ⟨c, place⟩ := cause
  have hc : IsOneLine c.toString := by
    refine isOneLine_of_isBlank ?_
    rw [Char.toString, String.toList_singleton, List.forall_mem_singleton]
    exact isBlank_eq_false_of_tokenizeFrom h
  exact isOneLine_messageAt place ((IsOneLine.append (by decide) hc).append (by decide))

/-- What is said about a proper token is on one line. -/
theorem ParseError.Reports.isOneLine_message {cause : ParseError} {l : Lexeme}
    (h : cause.Reports l) (hl : l.token.IsProper) : IsOneLine cause.message := by
  refine isOneLine_messageAt cause.position ?_
  cases cause with
  | unexpectedToken token position =>
    obtain rfl : l = ⟨token, position⟩ := h
    exact IsOneLine.append (by decide) hl.isOneLine_description
  | unmatchedParenthesis =>
    show IsOneLine "Unmatched parenthesis"
    decide
  | unknownFunction name position =>
    obtain rfl : l = ⟨.identifier name, position⟩ := h
    have hname : IsOneLine name := hl.isOneLine_text
    exact (IsOneLine.append (by decide) hname).append (by decide)
  | arityMismatch name expected found position =>
    obtain rfl : l = ⟨.identifier name, position⟩ := h
    have hname : IsOneLine name := hl.isOneLine_text
    have hexpected := isOneLine_toString expected
    have hfound := isOneLine_toString found
    exact ((((((IsOneLine.append (by decide) hname).append (by decide)).append hexpected).append
      (by decide)).append hfound).append (by decide))
  | invalidNumber literal position =>
    obtain rfl : l = ⟨.number literal, position⟩ := h
    have hliteral : IsOneLine literal := hl.isOneLine_text
    exact (IsOneLine.append (by decide) hliteral).append (by decide)
  | tooDeep =>
    show IsOneLine "Expression is nested too deeply"
    decide

/-- The message for a text that is not accepted is on one line. -/
theorem isOneLine_message_of_parse {source : String} {cause : InputError}
    (h : parse source = .error cause) : IsOneLine cause.message := by
  cases cause with
  | lexical cause => exact isOneLine_message_of_tokenize (parse_eq_lexical_iff.1 h)
  | grammatical cause =>
    obtain ⟨taken, rest, htokens, _, l, hl, hreports⟩ := exists_refusal_of_parse h
    exact hreports.isOneLine_message ((renders_of_tokenize htokens).isProper l hl)

end Calculator
