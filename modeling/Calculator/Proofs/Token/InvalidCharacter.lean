import Calculator.Proofs.Token.Rendering

/-!
# The first character that belongs to no token

A text is refused at its first character that is no blank and with which no token goes on or
begins. Letters, digits and marks always belong to a token. The point is the one character that
belongs to a token only in its context: it stands in a number right behind a row of digits, and a
digit follows it. What stands behind the refused character does not matter, except for that one
digit.

## Main definitions

* `Calculator.IsForeign`: no token begins with the character, and it is no blank.
* `Calculator.EndsWithWhole`: a row ends with a number without fraction, right at the end of its
  text.
* `Calculator.IsFirstForeign`: a character at a place is the first that belongs to no token.

## Main results

* `Calculator.exists_renders_of_tokenizeFrom`: in front of a refused character a text stands for a
  row of lexemes.
* `Calculator.Renders.tokenizeFrom_eq_error`: a character that belongs to no token is refused.
* `Calculator.tokenize_eq_error_iff`: the texts that are refused, and where.
-/

namespace Calculator

/-- No token begins with the character, and it is no blank. -/
structure IsForeign (c : Char) : Prop where
  isBlank_eq : isBlank c = false
  isAlpha_eq : c.isAlpha = false
  isDigit_eq : c.isDigit = false
  notMem : c ∉ ['+', '-', '*', '/', '!', '(', ')', ',']

/-- The row of a text of `p` characters ends with a number without fraction, and no blank stands
behind that number. -/
def EndsWithWhole (ls : List Lexeme) (p : Nat) : Prop :=
  ∃ us literal place, ls = us ++ [⟨.number literal, place⟩, ⟨.endOfInput, p⟩] ∧
    IsDigits literal.toList ∧ place + literal.length = p

/-- Behind `p` characters, which can be divided into tokens, the text has the character `c`. No
token begins with it, and it is not the point of a number. -/
structure IsFirstForeign (cs : List Char) (c : Char) (p : Nat) : Prop where
  here : cs[p]? = some c
  isForeign : IsForeign c
  front : ∃ ls, tokenize (String.ofList (cs.take p)) = .ok ls ∧
    ¬(c = '.' ∧ EndsWithWhole ls p ∧ ∃ d, cs[p + 1]? = some d ∧ d.isDigit = true)

/-! ### Foreign characters -/

namespace Token

theorem ofMark?_eq_none_iff {c : Char} :
    ofMark? c = none ↔ c ∉ ['+', '-', '*', '/', '!', '(', ')', ','] := by
  unfold ofMark?
  split <;> simp_all

/-- No token is found exactly where none begins. -/
theorem scan?_cons_eq_none_iff {c : Char} {cs : List Char} :
    scan? (c :: cs) = none ↔
      c.isAlpha = false ∧ c.isDigit = false ∧ c ∉ ['+', '-', '*', '/', '!', '(', ')', ','] := by
  rw [scan?, ← ofMark?_eq_none_iff]
  cases c.isDigit <;> cases c.isAlpha <;> simp

/-- A foreign character prolongs no token. -/
theorem absorbs_eq_false_of_isForeign {c : Char} (hc : IsForeign c) (t : Token) :
    t.absorbs c = false := by
  have halphanum : c.isAlphanum = false := Bool.or_eq_false_iff.2 ⟨hc.isAlpha_eq, hc.isDigit_eq⟩
  cases t <;> simp [absorbs, halphanum, hc.isDigit_eq]

/-- A point that no digit follows begins no fraction. -/
theorem scanFraction_of_isDigit_eq_false {cs : List Char}
    (hcs : ∀ d ∈ cs.head?, d.isDigit = false) : scanFraction ('.' :: cs) = ([], '.' :: cs) := by
  cases cs with
  | nil => rfl
  | cons d cs => rw [scanFraction, if_neg (by simp [hcs d rfl])]

/-- A token is found in front of a foreign character, unless that character is the point of a
fraction behind a whole number. -/
theorem scan?_append_of_isForeign {token : Token} (h : token.IsWellFormed) {c : Char}
    {cs : List Char} (hc : IsForeign c)
    (hpoint : ∀ literal, token = number literal → IsDigits literal.toList → c = '.' →
      ∀ d ∈ cs.head?, d.isDigit = false) :
    scan? (token.text.toList ++ c :: cs) = some (token, c :: cs) := by
  refine scan?_append_of_stop h ?_ fun literal hliteral hwhole => ?_
  · rintro _ ⟨⟩
    exact absorbs_eq_false_of_isForeign hc token
  · by_cases hdot : c = '.'
    · rw [hdot]
      exact scanFraction_of_isDigit_eq_false (hpoint literal hliteral hwhole hdot)
    · refine scanFraction_of_ne_point ?_
      rintro _ ⟨⟩
      exact hdot

/-- A whole number that is found does not stand in front of a fraction. -/
theorem isDigit_eq_false_of_scan? {cs rest : List Char} {literal : String}
    (h : scan? cs = some (number literal, '.' :: rest)) (hwhole : IsDigits literal.toList) :
    ∀ d ∈ rest.head?, d.isDigit = false := by
  intro d hd
  obtain ⟨rest, rfl⟩ := List.head?_eq_some_iff.1 hd
  rw [← Bool.not_eq_true]
  intro hdigit
  have hstop : ∀ c ∈ ('.' :: d :: rest).head?, c.isDigit = false := by
    rintro _ ⟨⟩
    rfl
  have htext : cs = literal.toList ++ '.' :: d :: rest := eq_append_of_scan? h
  rw [htext, scan?_digits hwhole hstop, scanFraction_of_point hdigit] at h
  have hliteral := congrArg String.length (number.inj (Prod.mk.inj (Option.some.inj h)).1)
  rw [String.length_ofList, List.length_append, String.length_toList] at hliteral
  simp at hliteral

end Token

/-! ### What is refused, and where -/

/-- A text that has no characters stands for the end of the input alone. -/
theorem Renders.eq_singleton {before : Option Token} {position : Nat} {ls : List Lexeme}
    (h : Renders before position [] ls) : ls = [⟨.endOfInput, position⟩] := by
  generalize hcs : ([] : List Char) = cs at h
  cases h with
  | done => rw [← hcs, List.length_nil, Nat.add_zero]
  | token _ htoken =>
    obtain ⟨c, ds, htext, _⟩ := htoken.exists_eq_cons
    simp [htext] at hcs

/-- A row ends with a whole number if the row without its first lexeme does, or if it consists of
such a number and the end of the input. -/
theorem endsWithWhole_cons_iff {l : Lexeme} {ls : List Lexeme} {p : Nat} :
    EndsWithWhole (l :: ls) p ↔ EndsWithWhole ls p ∨
      ∃ literal, l.token = .number literal ∧ IsDigits literal.toList ∧
        l.position + literal.length = p ∧ ls = [⟨.endOfInput, p⟩] := by
  constructor
  · rintro ⟨us, literal, place, hls, hwhole, hp⟩
    cases us with
    | nil =>
      cases hls
      exact .inr ⟨literal, rfl, hwhole, hp, rfl⟩
    | cons u us =>
      cases hls
      exact .inl ⟨us, literal, place, rfl, hwhole, hp⟩
  · rintro (⟨us, literal, place, rfl, hwhole, hp⟩ | ⟨literal, hl, hwhole, hp, rfl⟩)
    · exact ⟨l :: us, literal, place, rfl, hwhole, hp⟩
    · exact ⟨[], literal, l.position, by rw [← hl]; rfl, hwhole, hp⟩

/-- In front of a foreign character a text stands for a row of lexemes, and that character is not
the point of a number at the end of the row. -/
def IsRefusedBehind (before : Option Token) (position : Nat) (front behind : List Char) (c : Char) :
    Prop :=
  ∃ ls, Renders before position front ls ∧
    ¬(c = '.' ∧ EndsWithWhole ls (position + front.length) ∧ ∃ d ∈ behind.head?, d.isDigit = true)

/-- A text that is refused has a foreign character, and in front of it stands for a row of lexemes,
behind every token that it does not prolong. -/
theorem exists_renders_of_tokenizeFrom {cs : List Char} {position p : Nat} {c : Char}
    {read : List Lexeme} (h : tokenizeFrom cs position read = .error (.invalidCharacter c p)) :
    IsForeign c ∧ ∃ front behind, cs = front ++ c :: behind ∧ p = position + front.length ∧
      ∀ before : Option Token, (∀ t ∈ before, ∀ d ∈ cs.head?, t.absorbs d = false) →
        IsRefusedBehind before position front behind c := by
  fun_induction tokenizeFrom cs position read with
  | case1 => cases h
  | case2 position read e cs he ih =>
    obtain ⟨hc, front, behind, rfl, rfl, hfront⟩ := ih h
    refine ⟨hc, e :: front, behind, rfl, by rw [List.length_cons]; omega, fun before _ => ?_⟩
    obtain ⟨ls, hrenders, hpoint⟩ := hfront none (by simp)
    refine ⟨ls, hrenders.blank he, ?_⟩
    rwa [List.length_cons, Nat.add_comm front.length, ← Nat.add_assoc]
  | case3 position read e cs he hscan =>
    cases h
    obtain ⟨halpha, hdigit, hmem⟩ := Token.scan?_cons_eq_none_iff.1 hscan
    refine ⟨⟨by simpa using he, halpha, hdigit, hmem⟩, [], cs, rfl, rfl, fun before _ => ?_⟩
    refine ⟨_, .done isGap_nil, ?_⟩
    rintro ⟨_, ⟨us, literal, place, hls, _⟩, _⟩
    have hlength := congrArg List.length hls
    simp at hlength
  | case4 position read e cs he token rest hscan ih =>
    obtain ⟨hc, front, behind, rfl, rfl, hfront⟩ := ih h
    obtain ⟨htoken, hstop⟩ := Token.isWellFormed_of_scan? hscan
    refine ⟨hc, token.text.toList ++ front, behind, ?_, ?_, fun before hbefore => ?_⟩
    · rw [List.append_assoc]
      exact Token.eq_append_of_scan? hscan
    · rw [List.length_append, String.length_toList, Nat.add_assoc]
    have hnext : ∀ t ∈ some token, ∀ d ∈ (front ++ c :: behind).head?, t.absorbs d = false := by
      rintro _ ⟨⟩
      exact hstop
    have hapart : ∀ t ∈ before, t.merges token = true → ([] : List Char) ≠ [] := fun t ht hmerges =>
      absurd hmerges (by simp [Token.merges_eq_false_of_scan? hscan (hbefore t ht)])
    obtain ⟨ls, hrenders, hpoint⟩ := hfront (some token) hnext
    refine ⟨⟨token, position⟩ :: ls, .token isGap_nil htoken hapart hrenders, ?_⟩
    rw [List.length_append, String.length_toList, ← Nat.add_assoc]
    rintro ⟨hdot, hends, d, hd, hdigit⟩
    rcases endsWithWhole_cons_iff.1 hends with hends | ⟨literal, rfl, hwhole, hp, rfl⟩
    · exact hpoint ⟨hdot, hends, d, hd, hdigit⟩
    · -- The number stands right in front of the point, so that the point would be a part of it.
      have hnil : front = [] := List.length_eq_zero_iff.1 (Nat.left_eq_add.1 hp)
      rw [hnil, hdot] at hscan
      exact absurd hdigit (by simp [Token.isDigit_eq_false_of_scan? hscan hwhole d hd])

/-- Behind a row of lexemes a foreign character that is not the point of a number is refused. -/
theorem Renders.tokenizeFrom_eq_error {before : Option Token} {position : Nat} {front : List Char}
    {ls : List Lexeme} (h : Renders before position front ls) {c : Char} (hc : IsForeign c)
    {behind : List Char} (hpoint : ¬(c = '.' ∧ EndsWithWhole ls (position + front.length) ∧
      ∃ d ∈ behind.head?, d.isDigit = true)) (read : List Lexeme) :
    tokenizeFrom (front ++ c :: behind) position read =
      .error (.invalidCharacter c (position + front.length)) := by
  induction h generalizing read with
  | @done _ position gap hgap =>
    have hscan : Token.scan? (c :: behind) = none :=
      Token.scan?_cons_eq_none_iff.2 ⟨hc.isAlpha_eq, hc.isDigit_eq, hc.notMem⟩
    rw [tokenizeFrom_gap hgap, tokenizeFrom_invalid hc.isBlank_eq hscan]
  | @token _ position gap cs token ls hgap htoken _ hrest ih =>
    have hplace : position + (gap ++ (token.text.toList ++ cs)).length =
        position + gap.length + token.text.length + cs.length := by
      rw [List.length_append, List.length_append, String.length_toList]
      omega
    rw [hplace] at hpoint ⊢
    have hscan : Token.scan? (token.text.toList ++ (cs ++ c :: behind)) =
        some (token, cs ++ c :: behind) := by
      cases cs with
      | nil =>
        refine Token.scan?_append_of_isForeign htoken hc fun literal hliteral hwhole hdot d hd => ?_
        rw [← Bool.not_eq_true]
        intro hdigit
        have hplace' : position + gap.length + literal.length =
            position + gap.length + token.text.length := by rw [hliteral, Token.text]
        exact hpoint ⟨hdot, endsWithWhole_cons_iff.2
          (.inr ⟨literal, hliteral, hwhole, hplace', hrest.eq_singleton⟩), d, hd, hdigit⟩
      | cons e cs =>
        refine Token.scan?_append htoken ?_
        rintro _ ⟨⟩
        obtain ⟨habsorbs, hne⟩ := hrest.head?_ne_point e rfl
        exact ⟨habsorbs token rfl, hne⟩
    obtain ⟨d, ds, htext, hblank, _⟩ := htoken.exists_eq_cons
    rw [List.append_assoc, List.append_assoc, tokenizeFrom_gap hgap]
    rw [htext, List.cons_append] at hscan ⊢
    rw [tokenizeFrom_token hblank hscan, ih]
    rintro ⟨hdot, hends, hdigit⟩
    exact hpoint ⟨hdot, endsWithWhole_cons_iff.2 (.inl hends), hdigit⟩

/-! ### The first character that belongs to no token -/

/-- A character at a place of a text, with what stands in front of it and behind it. -/
theorem isFirstForeign_append_iff {front behind : List Char} {c : Char} :
    IsFirstForeign (front ++ c :: behind) c front.length ↔
      IsForeign c ∧ IsRefusedBehind none 0 front behind c := by
  have hhead (P : Char → Prop) : (∃ d, (front ++ c :: behind)[front.length + 1]? = some d ∧ P d) ↔
      ∃ d ∈ behind.head?, P d := by
    simp [List.getElem?_append_right, List.head?_eq_getElem?]
  have htokens (ls : List Lexeme) :
      tokenize (String.ofList ((front ++ c :: behind).take front.length)) = .ok ls ↔
        Renders none 0 front ls := by
    rw [List.take_left]
    refine ⟨fun h => ?_, fun h => ?_⟩
    · simpa using renders_of_tokenize h
    · rw [tokenize, String.toList_ofList]
      exact h.tokenizeFrom_eq_ok []
  constructor
  · rintro ⟨_, hc, ls, hls, hpoint⟩
    rw [hhead] at hpoint
    exact ⟨hc, ls, (htokens ls).1 hls, by rwa [Nat.zero_add]⟩
  · rintro ⟨hc, ls, hls, hpoint⟩
    rw [Nat.zero_add, ← hhead] at hpoint
    exact ⟨by simp, hc, ls, (htokens ls).2 hls, hpoint⟩

/-- A text is refused exactly at the first character that belongs to no token. -/
theorem tokenize_eq_error_iff_isFirstForeign {source : String} {c : Char} {p : Nat} :
    tokenize source = .error (.invalidCharacter c p) ↔ IsFirstForeign source.toList c p := by
  constructor
  · intro h
    obtain ⟨hc, front, behind, hcs, rfl, hfront⟩ := exists_renders_of_tokenizeFrom h
    rw [hcs, Nat.zero_add]
    exact isFirstForeign_append_iff.2 ⟨hc, hfront none (by simp)⟩
  · intro h
    obtain ⟨front, behind, hcs, rfl⟩ :
        ∃ front behind, source.toList = front ++ c :: behind ∧ p = front.length := by
      obtain ⟨hp, rfl⟩ := List.getElem?_eq_some_iff.1 h.here
      refine ⟨source.toList.take p, source.toList.drop (p + 1), ?_, ?_⟩
      · rw [← List.drop_eq_getElem_cons hp, List.take_append_drop]
      · rw [List.length_take_of_le (Nat.le_of_lt hp)]
    rw [hcs] at h
    obtain ⟨hc, ls, hrenders, hpoint⟩ := isFirstForeign_append_iff.1 h
    rw [tokenize, hcs, hrenders.tokenizeFrom_eq_error hc hpoint, Nat.zero_add]

/-- Whether a character is the first that belongs to no token does not depend on what stands behind
it, except for one digit behind a point. -/
theorem IsFirstForeign.congr {cs cs' : List Char} {c : Char} {p : Nat}
    (h : IsFirstForeign cs c p) (hfront : cs'.take (p + 1) = cs.take (p + 1))
    (hnext : c = '.' → cs'[p + 1]? = cs[p + 1]?) : IsFirstForeign cs' c p := by
  obtain ⟨hhere, hc, ls, htokens, hpoint⟩ := h
  have htake : cs'.take p = cs.take p := by
    have hboth := congrArg (List.take p) hfront
    rwa [List.take_take, List.take_take, Nat.min_eq_left (Nat.le_succ p)] at hboth
  have hplace : cs'[p]? = cs[p]? := by
    rw [← List.getElem?_take_of_lt (Nat.lt_succ_self p), hfront,
      List.getElem?_take_of_lt (Nat.lt_succ_self p)]
  refine ⟨hplace.trans hhere, hc, ls, by rw [htake, htokens], ?_⟩
  rintro ⟨hdot, hends, hdigit⟩
  exact hpoint ⟨hdot, hends, by rwa [← hnext hdot]⟩

/-- A text is refused exactly at the first character that belongs to no token: it is neither a
blank nor a letter, a digit or a mark, what stands in front of it can be divided into tokens, and it
is not a point between a whole number and a digit. There is one such character at most, and what
stands behind it does not matter, except for one character behind a point. -/
theorem tokenize_eq_error_iff (source : String) (c : Char) (p : Nat) :
    (tokenize source = .error (.invalidCharacter c p) ↔ IsFirstForeign source.toList c p) ∧
    (∀ c' p', IsFirstForeign source.toList c p → IsFirstForeign source.toList c' p' →
      c' = c ∧ p' = p) ∧
    ∀ source' : String, source'.toList.take (p + 1) = source.toList.take (p + 1) →
      (c = '.' → source'.toList[p + 1]? = source.toList[p + 1]?) →
        (tokenize source' = .error (.invalidCharacter c p) ↔
          tokenize source = .error (.invalidCharacter c p)) := by
  refine ⟨tokenize_eq_error_iff_isFirstForeign, fun c' p' h h' => ?_,
    fun source' hfront hnext => ?_⟩
  · rw [← tokenize_eq_error_iff_isFirstForeign] at h h'
    obtain ⟨rfl, rfl⟩ := LexError.invalidCharacter.inj (Except.error.inj (h.symm.trans h'))
    exact ⟨rfl, rfl⟩
  · rw [tokenize_eq_error_iff_isFirstForeign, tokenize_eq_error_iff_isFirstForeign]
    exact ⟨fun h => h.congr hfront.symm fun hdot => (hnext hdot).symm,
      fun h => h.congr hfront hnext⟩

/-- In `1.5.2` the second point is refused, and it is refused with any text behind the digit that
follows it. -/
theorem tokenize_eq_error_iff_second_point :
    tokenize "1.5.2" = .error (.invalidCharacter '.' 3) ∧ IsFirstForeign "1.5.2".toList '.' 3 ∧
      tokenize "1.5.2(" = .error (.invalidCharacter '.' 3) := by
  have hrefused : tokenize "1.5.2" = .error (.invalidCharacter '.' 3) := by
    have hnumber : Token.scan? ['1', '.', '5', '.', '2'] = some (.number "1.5", ['.', '2']) := by
      decide
    show tokenizeFrom ['1', '.', '5', '.', '2'] 0 [] = _
    rw [tokenizeFrom_token rfl hnumber, tokenizeFrom_invalid rfl rfl]
    rfl
  obtain ⟨hiff, _, hbehind⟩ := tokenize_eq_error_iff "1.5.2" '.' 3
  exact ⟨hrefused, hiff.1 hrefused, (hbehind "1.5.2(" rfl fun _ => rfl).2 hrefused⟩

end Calculator
