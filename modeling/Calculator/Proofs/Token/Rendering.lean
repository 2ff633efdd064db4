import Calculator.Token.Lexer

/-!
# Rows of lexemes and the texts they stand for

A text stands for a row of lexemes if it consists of the characters of the tokens, in their order
and in their places, with blanks before, between and behind them. Two neighbours of which the
second would prolong the first have to be apart. Dividing a text into tokens finds the row that the
text stands for, whenever there is one.

## Main definitions

* `Calculator.IsDigits`, `Calculator.IsLiteral`, `Calculator.IsName`: how numbers and names are
  written.
* `Calculator.Token.IsWellFormed`: the token can stand in a text.
* `Calculator.Token.merges`: two neighbours that have to be apart.
* `Calculator.Renders`: a text stands for a row of lexemes.
* `Calculator.HasTokens`: the same with the tokens alone.

## Main results

* `Calculator.Token.scan?_append`: a token is found in front of what does not prolong it.
* `Calculator.tokenize_eq_ok_iff`: the texts that can be divided, and their rows of lexemes.
-/

namespace Calculator

/-! ### How tokens are written -/

/-- At least one digit. -/
def IsDigits (cs : List Char) : Prop := cs ≠ [] ∧ ∀ c ∈ cs, c.isDigit = true

/-- Digits, with a point and further digits if there is a fraction. -/
inductive IsLiteral : List Char → Prop
  | whole {ds : List Char} (h : IsDigits ds) : IsLiteral ds
  | fraction {ds fs : List Char} (hds : IsDigits ds) (hfs : IsDigits fs) :
      IsLiteral (ds ++ '.' :: fs)

/-- A letter with letters and digits behind it. -/
inductive IsName : List Char → Prop
  | letter {c : Char} {cs : List Char} (hc : c.isAlpha = true)
      (hcs : ∀ d ∈ cs, d.isAlphanum = true) : IsName (c :: cs)

namespace Token

/-- The token can stand in a text: it is a well-written number or name, or a mark. -/
def IsWellFormed : Token → Prop
  | number literal => IsLiteral literal.toList
  | identifier name => IsName name.toList
  | endOfInput => False
  | _ => True

/-- Whether the second token, right behind the first one, would prolong it. -/
def merges : Token → Token → Bool
  | number _, number _ => true
  | identifier _, identifier _ => true
  | identifier _, number _ => true
  | _, _ => false

/-- Whether the character, right behind the token, would prolong it. -/
def absorbs : Token → Char → Bool
  | number _, c => c.isDigit
  | identifier _, c => c.isAlphanum
  | _, _ => false

end Token

/-- A run of blanks. -/
def IsGap (cs : List Char) : Prop := ∀ c ∈ cs, isBlank c = true

/-- `Renders before position cs ls`: the text `cs`, which stands after `position` characters and
after the token `before`, if there is one, stands for the lexemes `ls`. -/
inductive Renders : Option Token → Nat → List Char → List Lexeme → Prop
  /-- The end of the input stands behind the last blank. -/
  | done {before : Option Token} {position : Nat} {gap : List Char} (hgap : IsGap gap) :
      Renders before position gap [⟨.endOfInput, position + gap.length⟩]
  /-- A token stands behind blanks, of which there has to be one if it would prolong the token
  before. -/
  | token {before : Option Token} {position : Nat} {gap cs : List Char} {token : Token}
      {ls : List Lexeme} (hgap : IsGap gap) (htoken : token.IsWellFormed)
      (hapart : ∀ t ∈ before, t.merges token = true → gap ≠ [])
      (hrest : Renders (some token) (position + gap.length + token.text.length) cs ls) :
      Renders before position (gap ++ (token.text.toList ++ cs))
        (⟨token, position + gap.length⟩ :: ls)

/-! ### Characters -/

theorem isDigit_iff {c : Char} : c.isDigit = true ↔ 48 ≤ c.val ∧ c.val ≤ 57 := by
  show (decide (48 ≤ c.val) && decide (c.val ≤ 57)) = true ↔ _
  rw [Bool.and_eq_true, decide_eq_true_eq, decide_eq_true_eq]

theorem isAlpha_iff {c : Char} :
    c.isAlpha = true ↔ 65 ≤ c.val ∧ c.val ≤ 90 ∨ 97 ≤ c.val ∧ c.val ≤ 122 := by
  show (decide (65 ≤ c.val ∧ c.val ≤ 90) ||
    (decide (97 ≤ c.val) && decide (c.val ≤ 122))) = true ↔ _
  simp only [Bool.or_eq_true, Bool.and_eq_true, decide_eq_true_eq]

theorem isAlphanum_iff {c : Char} :
    c.isAlphanum = true ↔ c.isAlpha = true ∨ c.isDigit = true := Bool.or_eq_true_iff

/-- No visible character of ASCII is a blank. -/
theorem isBlank_eq_false_of_graphic {c : Char} (hlow : 0x20 < c.val) (hhigh : c.val < 0x7f) :
    isBlank c = false := by
  simp only [isBlank, blankRanges, List.any_cons, List.any_nil, Bool.or_false, Bool.or_eq_false_iff,
    Bool.and_eq_false_iff, decide_eq_false_iff_not, UInt32.not_le]
  grind

theorem isBlank_eq_false_of_isAlphanum {c : Char} (hc : c.isAlphanum = true) :
    isBlank c = false := by
  rw [isAlphanum_iff, isAlpha_iff, isDigit_iff] at hc
  refine isBlank_eq_false_of_graphic ?_ ?_ <;> grind

/-- A digit is not a letter. -/
theorem isDigit_eq_false_of_isAlpha {c : Char} (hc : c.isAlpha = true) : c.isDigit = false := by
  rw [isAlpha_iff] at hc
  rw [← Bool.not_eq_true, isDigit_iff]
  grind

theorem isDigit_eq_false_of_isAlphanum {c : Char} (hc : c.isAlphanum = false) :
    c.isDigit = false := (Bool.or_eq_false_iff.1 hc).2

namespace Token

/-- The characters that are tokens are no blanks, letters, digits or points. -/
theorem plain_of_ofMark? {c : Char} {token : Token} (h : ofMark? c = some token) :
    c.isAlphanum = false ∧ isBlank c = false ∧ c ≠ '.' := by
  unfold ofMark? at h
  split at h <;> first | exact ⟨by decide, by decide, by decide⟩ | cases h

/-- A token of one character can stand in a text, nothing prolongs it, and it prolongs nothing. -/
theorem mark_of_ofMark? {c : Char} {token : Token} (h : ofMark? c = some token) :
    token.IsWellFormed ∧ (∀ d, token.absorbs d = false) ∧
      ∀ t : Token, token.merges t = false ∧ t.merges token = false := by
  unfold ofMark? at h
  split at h <;> cases h <;>
    exact ⟨trivial, fun _ => rfl, fun t => ⟨rfl, by cases t <;> rfl⟩⟩

/-- A token that can stand in a text is a number, a name or a single character. -/
theorem IsWellFormed.cases {token : Token} (h : token.IsWellFormed) :
    (∃ literal, token = number literal ∧ IsLiteral literal.toList) ∨
      (∃ name, token = identifier name ∧ IsName name.toList) ∨
        ∃ c, ofMark? c = some token := by
  cases token with
  | number literal => exact .inl ⟨literal, rfl, h⟩
  | identifier name => exact .inr (.inl ⟨name, rfl, h⟩)
  | endOfInput => cases h
  | plus => exact .inr (.inr ⟨'+', rfl⟩)
  | minus => exact .inr (.inr ⟨'-', rfl⟩)
  | star => exact .inr (.inr ⟨'*', rfl⟩)
  | slash => exact .inr (.inr ⟨'/', rfl⟩)
  | bang => exact .inr (.inr ⟨'!', rfl⟩)
  | leftParen => exact .inr (.inr ⟨'(', rfl⟩)
  | rightParen => exact .inr (.inr ⟨')', rfl⟩)
  | comma => exact .inr (.inr ⟨',', rfl⟩)

/-- A written token begins with a character that is neither a blank nor a point, and by which it
prolongs exactly the tokens with which it merges. -/
theorem IsWellFormed.exists_eq_cons {token : Token} (h : token.IsWellFormed) :
    ∃ c cs, token.text.toList = c :: cs ∧ isBlank c = false ∧ c ≠ '.' ∧
      ∀ t : Token, t.absorbs c = t.merges token := by
  rcases h.cases with ⟨literal, rfl, hliteral⟩ | ⟨name, rfl, hname⟩ | ⟨c, hc⟩
  · obtain ⟨c, cs, hcs, hdigit⟩ : ∃ c cs, literal.toList = c :: cs ∧ c.isDigit = true := by
      generalize literal.toList = ds at hliteral
      cases hliteral with
      | whole h =>
        obtain ⟨c, cs, rfl⟩ := List.exists_cons_of_ne_nil h.1
        exact ⟨c, cs, rfl, h.2 c List.mem_cons_self⟩
      | fraction hds _ =>
        obtain ⟨c, cs, rfl⟩ := List.exists_cons_of_ne_nil hds.1
        exact ⟨c, _, rfl, hds.2 c List.mem_cons_self⟩
    have halphanum := isAlphanum_iff.2 (.inr hdigit)
    refine ⟨c, cs, hcs, isBlank_eq_false_of_isAlphanum halphanum, ?_, fun t => ?_⟩
    · rintro rfl
      cases hdigit
    · cases t <;> simp [absorbs, merges, hdigit, halphanum]
  · generalize hcs : name.toList = cs at hname
    obtain ⟨hc, _⟩ := hname
    have halphanum := isAlphanum_iff.2 (.inl hc)
    refine ⟨_, _, hcs, isBlank_eq_false_of_isAlphanum halphanum, ?_, fun t => ?_⟩
    · rintro rfl
      cases hc
    · cases t <;> simp [absorbs, merges, isDigit_eq_false_of_isAlpha hc, halphanum]
  · obtain ⟨halphanum, hblank, hpoint⟩ := plain_of_ofMark? hc
    refine ⟨c, [], toList_text_of_ofMark? hc, hblank, hpoint, fun t => ?_⟩
    have hdigit := isDigit_eq_false_of_isAlphanum halphanum
    rw [((mark_of_ofMark? hc).2.2 t).2]
    cases t <;> simp [absorbs, hdigit, halphanum]

/-! ### The token at the beginning of a text -/

/-- A run of characters of one kind ends where the first character of another kind stands. -/
theorem takeWhile_append_of_stop {p : Char → Bool} {ds rest : List Char}
    (hds : ∀ c ∈ ds, p c = true) (hrest : ∀ c ∈ rest.head?, p c = false) :
    (ds ++ rest).takeWhile p = ds ∧ (ds ++ rest).dropWhile p = rest := by
  rw [List.takeWhile_append_of_pos hds, List.dropWhile_append_of_pos hds]
  cases rest with
  | nil => simp
  | cons c cs =>
    have hc : ¬p c = true := by simp [hrest c rfl]
    rw [List.takeWhile_cons_of_neg hc, List.dropWhile_cons_of_neg hc, List.append_nil]
    exact ⟨rfl, rfl⟩

/-- Behind a run of characters of one kind stands none of that kind. -/
theorem eq_false_of_head?_dropWhile {p : Char → Bool} {cs : List Char} :
    ∀ c ∈ (cs.dropWhile p).head?, p c = false := by
  intro c hc
  have hnot := List.head?_dropWhile_not p cs
  rw [Option.mem_def.1 hc] at hnot
  simpa using hnot

theorem scanFraction_of_point {d : Char} (hd : d.isDigit = true) (cs : List Char) :
    scanFraction ('.' :: d :: cs) =
      ('.' :: d :: cs.takeWhile Char.isDigit, cs.dropWhile Char.isDigit) := by
  rw [scanFraction, if_pos hd]

theorem scanFraction_of_ne_point {cs : List Char} (h : ∀ c ∈ cs.head?, c ≠ '.') :
    scanFraction cs = ([], cs) := by
  unfold scanFraction
  split
  · exact absurd rfl (h _ rfl)
  · rfl

/-- A fraction is a point with digits, and no digit prolongs it. -/
theorem scanFraction_spec {cs : List Char} (hcs : ∀ c ∈ cs.head?, c.isDigit = false) :
    ((scanFraction cs).1 = [] ∨ ∃ fs, IsDigits fs ∧ (scanFraction cs).1 = '.' :: fs) ∧
      ∀ c ∈ (scanFraction cs).2.head?, c.isDigit = false := by
  unfold scanFraction
  split
  next d cs =>
    split
    next hd =>
      refine ⟨.inr ⟨_, ⟨List.cons_ne_nil _ _, fun c hc => ?_⟩, rfl⟩, eq_false_of_head?_dropWhile⟩
      rcases List.mem_cons.1 hc with rfl | hc
      · exact hd
      · exact List.all_eq_true.1 List.all_takeWhile c hc
    next => exact ⟨.inl rfl, hcs⟩
  · exact ⟨.inl rfl, hcs⟩

/-- The first token of a text can stand in a text, and what follows does not prolong it. -/
theorem isWellFormed_of_scan? {cs rest : List Char} {token : Token}
    (h : scan? cs = some (token, rest)) :
    token.IsWellFormed ∧ ∀ c ∈ rest.head?, token.absorbs c = false := by
  cases cs with
  | nil => cases h
  | cons c cs =>
    rw [scan?] at h
    split at h
    next hc =>
      have hwhole : IsDigits (c :: cs.takeWhile Char.isDigit) := by
        refine ⟨List.cons_ne_nil _ _, fun d hd => ?_⟩
        rcases List.mem_cons.1 hd with rfl | hd
        · exact hc
        · exact List.all_eq_true.1 List.all_takeWhile d hd
      have hstop : ∀ c ∈ (cs.dropWhile Char.isDigit).head?, c.isDigit = false :=
        eq_false_of_head?_dropWhile
      obtain ⟨hfraction, hrest⟩ := scanFraction_spec hstop
      cases h
      refine ⟨?_, hrest⟩
      simp only [IsWellFormed, String.toList_ofList]
      rcases hfraction with hnil | ⟨fs, hfs, hpoint⟩
      · rw [hnil, List.append_nil]
        exact .whole hwhole
      · rw [hpoint]
        exact .fraction hwhole hfs
    next =>
      split at h
      next hc =>
        cases h
        refine ⟨?_, eq_false_of_head?_dropWhile⟩
        simp only [IsWellFormed, String.toList_ofList]
        exact .letter hc (List.all_eq_true.1 List.all_takeWhile)
      next =>
        obtain ⟨_, hmark, hpair⟩ := Option.map_eq_some_iff.1 h
        cases hpair
        obtain ⟨htoken, habsorbs, _⟩ := mark_of_ofMark? hmark
        exact ⟨htoken, fun d _ => habsorbs d⟩

theorem scan?_digits {ds rest : List Char} (hds : IsDigits ds)
    (hrest : ∀ c ∈ rest.head?, c.isDigit = false) :
    scan? (ds ++ rest) =
      some (number (String.ofList (ds ++ (scanFraction rest).1)), (scanFraction rest).2) := by
  obtain ⟨c, ds, rfl⟩ := List.exists_cons_of_ne_nil hds.1
  obtain ⟨hc, hds⟩ := List.forall_mem_cons.1 hds.2
  obtain ⟨htake, hdrop⟩ := takeWhile_append_of_stop hds hrest
  rw [List.cons_append, scan?, if_pos hc, scanNumber, htake, hdrop]

/-- A token is found in front of what does not prolong it. What stands behind a number without
fraction must not begin with a fraction either. -/
theorem scan?_append_of_stop {token : Token} (h : token.IsWellFormed) {rest : List Char}
    (hrest : ∀ c ∈ rest.head?, token.absorbs c = false)
    (hwhole : ∀ literal, token = number literal → IsDigits literal.toList →
      scanFraction rest = ([], rest)) :
    scan? (token.text.toList ++ rest) = some (token, rest) := by
  rcases h.cases with ⟨literal, rfl, hliteral⟩ | ⟨name, rfl, hname⟩ | ⟨c, hc⟩
  · have hdigit : ∀ c ∈ rest.head?, c.isDigit = false := hrest
    have hfraction := hwhole literal rfl
    rw [← String.ofList_toList (s := literal)]
    generalize literal.toList = ds at hliteral hfraction
    simp only [text, String.toList_ofList]
    cases hliteral with
    | whole h => rw [scan?_digits h hdigit, hfraction h, List.append_nil]
    | fraction hds hfs =>
      obtain ⟨d, fs, rfl⟩ := List.exists_cons_of_ne_nil hfs.1
      obtain ⟨hd, hfs⟩ := List.forall_mem_cons.1 hfs.2
      obtain ⟨htake, hdrop⟩ := takeWhile_append_of_stop hfs hdigit
      have hstop : ∀ c ∈ ('.' :: d :: (fs ++ rest)).head?, c.isDigit = false := by
        rintro c ⟨⟩
        rfl
      rw [List.append_assoc, List.cons_append, List.cons_append, scan?_digits hds hstop,
        scanFraction_of_point hd, htake, hdrop]
  · have hstop : ∀ c ∈ rest.head?, c.isAlphanum = false := hrest
    rw [← String.ofList_toList (s := name)]
    generalize name.toList = cs at hname
    simp only [text, String.toList_ofList]
    obtain ⟨hc, hcs⟩ := hname
    obtain ⟨htake, hdrop⟩ := takeWhile_append_of_stop hcs hstop
    have hdigit := isDigit_eq_false_of_isAlpha hc
    rw [List.cons_append, scan?, if_neg (by simp [hdigit]), if_pos hc, scanIdentifier, htake,
      hdrop]
  · have halphanum := (plain_of_ofMark? hc).1
    obtain ⟨halpha, hdigit⟩ := Bool.or_eq_false_iff.1 halphanum
    rw [toList_text_of_ofMark? hc, List.singleton_append, scan?, if_neg (by simp [hdigit]),
      if_neg (by simp [halpha]), hc, Option.map_some]

/-- A token is found in front of what does not prolong it and is no point. -/
theorem scan?_append {token : Token} (h : token.IsWellFormed) {rest : List Char}
    (hrest : ∀ c ∈ rest.head?, token.absorbs c = false ∧ c ≠ '.') :
    scan? (token.text.toList ++ rest) = some (token, rest) :=
  scan?_append_of_stop h (fun c hc => (hrest c hc).1) fun _ _ _ =>
    scanFraction_of_ne_point fun c hc => (hrest c hc).2

/-- A token merges with the first token of a text only if the text prolongs it. -/
theorem merges_eq_false_of_scan? {cs rest : List Char} {token t : Token}
    (h : scan? cs = some (token, rest)) (ht : ∀ d ∈ cs.head?, t.absorbs d = false) :
    t.merges token = false := by
  obtain ⟨d, ds, htext, _, _, habsorbs⟩ := (isWellFormed_of_scan? h).1.exists_eq_cons
  rw [← habsorbs]
  refine ht d ?_
  rw [eq_append_of_scan? h, htext]
  rfl

end Token

/-! ### Texts of rows of lexemes -/

theorem isGap_nil : IsGap [] := nofun

/-- One more blank in front of a text shifts its lexemes, whatever the token before. -/
theorem Renders.blank {before before' : Option Token} {position : Nat} {c : Char} {cs : List Char}
    {ls : List Lexeme} (hc : isBlank c = true) (h : Renders before' (position + 1) cs ls) :
    Renders before position (c :: cs) ls := by
  cases h with
  | done hgap =>
    have hcons : IsGap (c :: cs) := List.forall_mem_cons.2 ⟨hc, hgap⟩
    rw [Nat.add_assoc, Nat.add_comm 1, ← List.length_cons]
    exact .done hcons
  | @token _ _ gap cs token ls hgap htoken hapart hrest =>
    have hposition : position + 1 + gap.length = position + (c :: gap).length := by
      rw [List.length_cons]
      omega
    rw [hposition] at hrest ⊢
    exact .token (List.forall_mem_cons.2 ⟨hc, hgap⟩) htoken
      (fun _ _ _ => List.cons_ne_nil c gap) hrest

/-- What stands for a row of lexemes begins with no point and does not prolong the token before. -/
theorem Renders.head?_ne_point {before : Option Token} {position : Nat} {cs : List Char}
    {ls : List Lexeme} (h : Renders before position cs ls) :
    ∀ c ∈ cs.head?, (∀ t ∈ before, t.absorbs c = false) ∧ c ≠ '.' := by
  have hblank : ∀ c, isBlank c = true → (∀ t ∈ before, t.absorbs c = false) ∧ c ≠ '.' := by
    intro c hc
    have halphanum : c.isAlphanum = false := by
      rw [← Bool.not_eq_true]
      intro hnot
      simp [isBlank_eq_false_of_isAlphanum hnot] at hc
    have hdigit := isDigit_eq_false_of_isAlphanum halphanum
    refine ⟨fun t _ => ?_, ?_⟩
    · cases t <;> simp [Token.absorbs, hdigit, halphanum]
    · rintro rfl
      exact absurd hc (by decide)
  cases h with
  | done hgap => exact fun c hc => hblank c (hgap c (List.mem_of_mem_head? hc))
  | @token _ _ gap cs token ls hgap htoken hapart hrest =>
    cases gap with
    | nil =>
      obtain ⟨c, ds, htext, _, hpoint, habsorbs⟩ := htoken.exists_eq_cons
      rw [List.nil_append, htext]
      rintro d ⟨⟩
      refine ⟨fun t ht => ?_, hpoint⟩
      rw [habsorbs, ← Bool.not_eq_true]
      exact fun hmerges => hapart t ht hmerges rfl
    | cons c gap =>
      rintro d ⟨⟩
      exact hblank c (hgap c List.mem_cons_self)

/-! ### Dividing a text -/

theorem tokenizeFrom_gap {gap : List Char} (hgap : IsGap gap) (cs : List Char) (position : Nat)
    (read : List Lexeme) :
    tokenizeFrom (gap ++ cs) position read = tokenizeFrom cs (position + gap.length) read := by
  induction gap generalizing position with
  | nil => rfl
  | cons c gap ih =>
    obtain ⟨hc, hgap⟩ := List.forall_mem_cons.1 hgap
    rw [List.cons_append, tokenizeFrom_blank hc, ih hgap, List.length_cons, Nat.add_assoc,
      Nat.add_comm 1]

/-- A text that stands for a row of lexemes is divided into that row. -/
theorem Renders.tokenizeFrom_eq_ok {before : Option Token} {position : Nat} {cs : List Char}
    {ls : List Lexeme} (h : Renders before position cs ls) (read : List Lexeme) :
    tokenizeFrom cs position read = .ok (read.reverse ++ ls) := by
  induction h generalizing read with
  | @done _ position gap hgap =>
    have hskip := tokenizeFrom_gap hgap [] position read
    rw [List.append_nil, tokenizeFrom_nil, List.reverse_cons] at hskip
    exact hskip
  | @token _ position gap cs token ls hgap htoken _ hrest ih =>
    have hstop : ∀ c ∈ cs.head?, token.absorbs c = false ∧ c ≠ '.' := fun c hc =>
      ⟨(hrest.head?_ne_point c hc).1 token rfl, (hrest.head?_ne_point c hc).2⟩
    have hscan := Token.scan?_append htoken hstop
    obtain ⟨c, ds, htext, hblank, _⟩ := htoken.exists_eq_cons
    rw [tokenizeFrom_gap hgap]
    rw [htext, List.cons_append] at hscan ⊢
    rw [tokenizeFrom_token hblank hscan, ih, List.reverse_cons, List.append_assoc,
      List.singleton_append]

/-- A text that can be divided stands for its row of lexemes, behind every token that it does not
prolong. -/
theorem renders_of_tokenizeFrom {cs : List Char} {position : Nat} {read ls : List Lexeme}
    (h : tokenizeFrom cs position read = .ok ls) :
    ∃ ls', ls = read.reverse ++ ls' ∧
      ∀ before : Option Token, (∀ t ∈ before, ∀ c ∈ cs.head?, t.absorbs c = false) →
        Renders before position cs ls' := by
  fun_induction tokenizeFrom cs position read with
  | case1 position read =>
    cases h
    exact ⟨_, List.reverse_cons, fun before _ => .done isGap_nil⟩
  | case2 position read c cs hc ih =>
    obtain ⟨ls', hls, hrenders⟩ := ih h
    exact ⟨ls', hls, fun before _ => (hrenders none nofun).blank hc⟩
  | case3 => cases h
  | case4 position read c cs hc token rest hscan ih =>
    obtain ⟨ls', hls, hrenders⟩ := ih h
    obtain ⟨htoken, hstop⟩ := Token.isWellFormed_of_scan? hscan
    refine ⟨⟨token, position⟩ :: ls', by simpa using hls, fun before hbefore => ?_⟩
    have hrest := hrenders (some token) (by rintro _ ⟨⟩; exact hstop)
    have hapart : ∀ t ∈ before, t.merges token = true → ([] : List Char) ≠ [] := fun t ht hmerges =>
      absurd hmerges (by simp [Token.merges_eq_false_of_scan? hscan (hbefore t ht)])
    rw [Token.eq_append_of_scan? hscan]
    exact .token isGap_nil htoken hapart hrest

/-- A text that can be divided stands for its row of lexemes. -/
theorem renders_of_tokenize {source : String} {ls : List Lexeme} (h : tokenize source = .ok ls) :
    Renders none 0 source.toList ls := by
  obtain ⟨ls', rfl, hrenders⟩ := renders_of_tokenizeFrom h
  exact hrenders none nofun

/-! ### The row of a text -/

/-- A token that can stand in a text has a character. -/
theorem Token.IsWellFormed.length_pos {token : Token} (h : token.IsWellFormed) :
    0 < token.text.length := by
  obtain ⟨c, cs, htext, _⟩ := h.exists_eq_cons
  rw [← String.length_toList, htext]
  exact Nat.succ_pos _

/-- The token stands in a text, or at its end. -/
def Token.IsProper (token : Token) : Prop := token.IsWellFormed ∨ token = .endOfInput

/-- Every token in the row of a text is proper. -/
theorem Renders.isProper {before : Option Token} {position : Nat} {cs : List Char}
    {ls : List Lexeme} (h : Renders before position cs ls) : ∀ l ∈ ls, l.token.IsProper := by
  induction h with
  | done => exact List.forall_mem_singleton.2 (.inr rfl)
  | token _ htoken _ _ ih => exact List.forall_mem_cons.2 ⟨.inl htoken, ih⟩

/-- The places of the lexemes of a text ascend. -/
theorem Renders.pairwise_position {before : Option Token} {position : Nat} {cs : List Char}
    {ls : List Lexeme} (h : Renders before position cs ls) :
    (∀ l ∈ ls, position ≤ l.position) ∧ ls.Pairwise fun l l' => l.position < l'.position := by
  induction h with
  | done => simp
  | @token _ position gap cs token ls _ htoken _ _ ih =>
    have hlength := htoken.length_pos
    have hlater : ∀ l ∈ ls, position + gap.length < l.position := fun l hl => by
      have hle := ih.1 l hl
      omega
    refine ⟨?_, List.pairwise_cons.2 ⟨hlater, ih.2⟩⟩
    rintro l (_ | ⟨_, hl⟩)
    · exact Nat.le_add_right _ _
    · have hlt := hlater l hl
      omega

/-- The end of the input stands in the last place of the row of a text, and nowhere else. -/
theorem Renders.exists_eq_concat {before : Option Token} {position : Nat} {cs : List Char}
    {ls : List Lexeme} (h : Renders before position cs ls) :
    ∃ us last, ls = us ++ [⟨.endOfInput, last⟩] ∧ .endOfInput ∉ us.map Lexeme.token := by
  induction h with
  | done => exact ⟨[], _, rfl, nofun⟩
  | @token _ position gap _ token _ _ htoken _ _ ih =>
    obtain ⟨us, last, rfl, hus⟩ := ih
    refine ⟨⟨token, position + gap.length⟩ :: us, last, rfl, ?_⟩
    rintro (_ | ⟨_, hmem⟩)
    · exact htoken
    · exact hus hmem

/-- The last place of the row of a text is that of the end of the text. -/
theorem Renders.last_position {before : Option Token} {position last : Nat} {cs : List Char}
    {ls us : List Lexeme} {token : Token} (h : Renders before position cs ls)
    (hls : ls = us ++ [⟨token, last⟩]) : last = position + cs.length := by
  induction h generalizing us with
  | done =>
    obtain ⟨_, hlast⟩ := List.append_singleton_inj.1 (hls.symm.trans (List.nil_append _).symm)
    exact (Lexeme.mk.inj hlast).2
  | @token _ position gap cs written ls _ _ _ hrest ih =>
    cases us with
    | nil =>
      obtain ⟨_, rfl⟩ := List.cons.inj hls
      cases hrest
    | cons l us =>
      obtain ⟨_, rfl⟩ := List.cons.inj hls
      rw [ih rfl, List.length_append, List.length_append, String.length_toList]
      omega

/-- No lexeme of a text stands behind the end of the text. -/
theorem Renders.position_le {before : Option Token} {position : Nat} {cs : List Char}
    {ls : List Lexeme} (h : Renders before position cs ls) {l : Lexeme} (hl : l ∈ ls) :
    l.position ≤ position + cs.length := by
  obtain ⟨us, last, hls, _⟩ := h.exists_eq_concat
  obtain ⟨_, _, hbefore⟩ := List.pairwise_append.1 (hls ▸ h.pairwise_position.2)
  rw [← h.last_position hls]
  rcases List.mem_append.1 (hls ▸ hl) with hl | hl
  · exact Nat.le_of_lt (hbefore l hl _ (List.mem_singleton_self _))
  · exact Nat.le_of_eq (congrArg Lexeme.position (List.mem_singleton.1 hl))

/-! ### Texts and their tokens -/

/-- The text stands for a row of lexemes with the given tokens, after the token `before`. -/
def HasTokens (before : Option Token) (cs : List Char) (ts : List Token) : Prop :=
  ∀ position, ∃ ls, Renders before position cs ls ∧ ls.map Lexeme.token = ts

namespace HasTokens

variable {before before' : Option Token} {cs : List Char} {ts : List Token}

theorem done (before : Option Token) : HasTokens before [] [.endOfInput] := fun _ =>
  ⟨_, .done isGap_nil, rfl⟩

theorem token {token : Token} (htoken : token.IsWellFormed)
    (hapart : ∀ t ∈ before, t.merges token = false) (h : HasTokens (some token) cs ts) :
    HasTokens before (token.text.toList ++ cs) (token :: ts) := by
  intro position
  obtain ⟨ls, hrenders, hls⟩ := h (position + token.text.length)
  have hnone : ∀ t ∈ before, t.merges token = true → ([] : List Char) ≠ [] := by
    intro t ht hmerges
    rw [hapart t ht] at hmerges
    cases hmerges
  exact ⟨_, .token isGap_nil htoken hnone hrenders, by rw [List.map_cons, hls]⟩

/-- Behind a blank it does not matter which token stood before. -/
theorem blank (h : HasTokens before' cs ts) (before : Option Token) :
    HasTokens before (' ' :: cs) ts := by
  intro position
  obtain ⟨ls, hrenders, hls⟩ := h (position + 1)
  exact ⟨ls, hrenders.blank rfl, hls⟩

end HasTokens

/-- A text is divided into a row of lexemes exactly if it stands for that row. -/
theorem tokenize_eq_ok_iff (source : String) (ls : List Lexeme) :
    tokenize source = .ok ls ↔ Renders none 0 source.toList ls := by
  constructor
  · exact renders_of_tokenize
  · exact fun h => h.tokenizeFrom_eq_ok []

end Calculator
