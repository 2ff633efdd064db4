import Calculator.Error
import Calculator.Text.Blank

/-!
# Dividing a text into tokens

A text is read from the left. Blanks between tokens are skipped; at any other character the
longest token that begins there is taken. A number literal is a row of digits, with a point and a
second row if a digit follows the point; a point that no digit follows is left in the text. A name
is a letter and then letters and digits. Letters and digits are those of ASCII.

## Main definitions

* `Calculator.Token.scan?`: the longest token at the beginning of a text, and the rest.
* `Calculator.tokenize`: the lexemes of a text, or the first character that belongs to none.

## Main results

* `Calculator.Token.eq_append_of_scan?`: a text is the characters of its first token and the rest.
* `Calculator.Token.length_lt_of_scan?`: the rest is shorter than the text.
-/

namespace Calculator

namespace Token

/-- The fraction at the beginning of a text, a point with the digits after it, and the rest. A
point that no digit follows begins no fraction. -/
def scanFraction : List Char → List Char × List Char
  | '.' :: d :: cs =>
      if d.isDigit then ('.' :: d :: cs.takeWhile Char.isDigit, cs.dropWhile Char.isDigit)
      else ([], '.' :: d :: cs)
  | cs => ([], cs)

/-- The token that is a single character. -/
def ofMark? : Char → Option Token
  | '+' => some plus
  | '-' => some minus
  | '*' => some star
  | '/' => some slash
  | '!' => some bang
  | '(' => some leftParen
  | ')' => some rightParen
  | ',' => some comma
  | _ => none

/-- The number literal that begins with the digit `c` in front of `cs`, and the rest. -/
def scanNumber (c : Char) (cs : List Char) : Token × List Char :=
  (number (String.ofList
      (c :: cs.takeWhile Char.isDigit ++ (scanFraction (cs.dropWhile Char.isDigit)).1)),
    (scanFraction (cs.dropWhile Char.isDigit)).2)

/-- The name that begins with the letter `c` in front of `cs`, and the rest. -/
def scanIdentifier (c : Char) (cs : List Char) : Token × List Char :=
  (identifier (String.ofList (c :: cs.takeWhile Char.isAlphanum)), cs.dropWhile Char.isAlphanum)

/-- The longest token at the beginning of a text, and the rest of the text. -/
def scan? : List Char → Option (Token × List Char)
  | [] => none
  | c :: cs =>
      if c.isDigit then some (scanNumber c cs)
      else if c.isAlpha then some (scanIdentifier c cs)
      else (ofMark? c).map fun token => (token, cs)

/-- Nothing is lost between a fraction and the rest. -/
theorem scanFraction_append (cs : List Char) :
    (scanFraction cs).1 ++ (scanFraction cs).2 = cs := by
  unfold scanFraction
  split
  · split <;> simp [List.takeWhile_append_dropWhile]
  · rfl

/-- A token of one character is written as that character. -/
theorem toList_text_of_ofMark? {c : Char} {token : Token} (h : ofMark? c = some token) :
    token.text.toList = [c] := by
  unfold ofMark? at h
  split at h <;> cases h <;> rfl

/-- Nothing is lost between a number literal and the rest. -/
theorem scanNumber_append (c : Char) (cs : List Char) :
    (scanNumber c cs).1.text.toList ++ (scanNumber c cs).2 = c :: cs := by
  simp only [scanNumber, text, String.toList_ofList, List.cons_append, List.append_assoc,
    scanFraction_append, List.takeWhile_append_dropWhile]

/-- Nothing is lost between a name and the rest. -/
theorem scanIdentifier_append (c : Char) (cs : List Char) :
    (scanIdentifier c cs).1.text.toList ++ (scanIdentifier c cs).2 = c :: cs := by
  simp only [scanIdentifier, text, String.toList_ofList, List.cons_append,
    List.takeWhile_append_dropWhile]

/-- A text is the characters of its first token and the rest. -/
theorem eq_append_of_scan? {cs rest : List Char} {token : Token}
    (h : scan? cs = some (token, rest)) : cs = token.text.toList ++ rest := by
  cases cs with
  | nil => cases h
  | cons c cs =>
    rw [scan?] at h
    split at h
    · have hscan := Option.some.inj h
      have hall := scanNumber_append c cs
      rw [hscan] at hall
      exact hall.symm
    · split at h
      · have hscan := Option.some.inj h
        have hall := scanIdentifier_append c cs
        rw [hscan] at hall
        exact hall.symm
      · obtain ⟨_, hmark, hpair⟩ := Option.map_eq_some_iff.1 h
        cases hpair
        rw [toList_text_of_ofMark? hmark, List.singleton_append]

/-- The first token of a text has at least one character. -/
theorem text_ne_nil_of_scan? {cs rest : List Char} {token : Token}
    (h : scan? cs = some (token, rest)) : token.text.toList ≠ [] := by
  cases cs with
  | nil => cases h
  | cons c cs =>
    rw [scan?] at h
    split at h
    · cases h
      simp [text]
    · split at h
      · cases h
        simp [text]
      · obtain ⟨_, hmark, hpair⟩ := Option.map_eq_some_iff.1 h
        cases hpair
        simp [toList_text_of_ofMark? hmark]

/-- The rest after the first token is shorter than the text. -/
theorem length_lt_of_scan? {cs rest : List Char} {token : Token}
    (h : scan? cs = some (token, rest)) : rest.length < cs.length := by
  have hpos := List.length_pos_iff.2 (text_ne_nil_of_scan? h)
  rw [eq_append_of_scan? h, List.length_append]
  omega

end Token

/-- The lexemes of the text `cs`, which stands after `position` characters, behind the lexemes
`read`, which are listed from the last to the first. -/
def tokenizeFrom (cs : List Char) (position : Nat) (read : List Lexeme) :
    Except LexError (List Lexeme) :=
  match cs with
  | [] => .ok (⟨.endOfInput, position⟩ :: read).reverse
  | c :: cs =>
      if isBlank c then tokenizeFrom cs (position + 1) read
      else
        match _h : Token.scan? (c :: cs) with
        | none => .error (.invalidCharacter c position)
        | some (token, rest) =>
            tokenizeFrom rest (position + token.text.length) (⟨token, position⟩ :: read)
termination_by cs.length
decreasing_by
  · simp
  · exact Token.length_lt_of_scan? ‹_›

@[simp] theorem tokenizeFrom_nil (position : Nat) (read : List Lexeme) :
    tokenizeFrom [] position read = .ok (⟨.endOfInput, position⟩ :: read).reverse := by
  rw [tokenizeFrom]

theorem tokenizeFrom_blank {c : Char} (hc : isBlank c = true) (cs : List Char) (position : Nat)
    (read : List Lexeme) :
    tokenizeFrom (c :: cs) position read = tokenizeFrom cs (position + 1) read := by
  rw [tokenizeFrom, if_pos hc]

theorem tokenizeFrom_invalid {c : Char} {cs : List Char} (hc : isBlank c = false)
    (hscan : Token.scan? (c :: cs) = none) (position : Nat) (read : List Lexeme) :
    tokenizeFrom (c :: cs) position read = .error (.invalidCharacter c position) := by
  rw [tokenizeFrom, if_neg (by simp [hc])]
  split
  · rfl
  · simp_all

theorem tokenizeFrom_token {c : Char} {cs rest : List Char} {token : Token}
    (hc : isBlank c = false) (hscan : Token.scan? (c :: cs) = some (token, rest)) (position : Nat)
    (read : List Lexeme) :
    tokenizeFrom (c :: cs) position read =
      tokenizeFrom rest (position + token.text.length) (⟨token, position⟩ :: read) := by
  rw [tokenizeFrom, if_neg (by simp [hc])]
  split
  · simp_all
  · simp_all

/-- The lexemes of a text, with the end of the input in the last place, or the first character
that belongs to no token. -/
def tokenize (source : String) : Except LexError (List Lexeme) :=
  tokenizeFrom source.toList 0 []

example : tokenize "2.5 x" =
    .ok [⟨.number "2.5", 0⟩, ⟨.identifier "x", 4⟩, ⟨.endOfInput, 5⟩] := by cbv

example : tokenize "1.+2" = .error (.invalidCharacter '.' 1) := by cbv

end Calculator
