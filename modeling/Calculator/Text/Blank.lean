/-!
# Blank characters

Blanks are the characters of the Unicode property White_Space. They separate tokens, and they
are trimmed from both ends of a line of a script.

## Main definitions

* `Calculator.blankRanges`, `Calculator.isBlank`: the property, as a table of ranges.
* `Calculator.trim`: a text without the blanks at its two ends.
* `Calculator.lines`: the pieces of a text between its line feeds.

## Main results

* `Calculator.isBlank_of_isWhitespace`: the blanks include the four ASCII blanks of `Char`.
* `Calculator.lines_append_newline`: a line feed separates the lines of what stands before it
  from the lines of what stands after it.
-/

namespace Calculator

/-- The code points of the property White_Space, as ranges with both ends included. -/
def blankRanges : List (UInt32 × UInt32) :=
  [(0x09, 0x0d), (0x20, 0x20), (0x85, 0x85), (0xa0, 0xa0), (0x1680, 0x1680), (0x2000, 0x200a),
    (0x2028, 0x2029), (0x202f, 0x202f), (0x205f, 0x205f), (0x3000, 0x3000)]

/-- Whether a character is blank. -/
def isBlank (c : Char) : Bool :=
  blankRanges.any fun r => r.1 ≤ c.val && c.val ≤ r.2

/-- Every blank of `Char.isWhitespace` is a blank. -/
theorem isBlank_of_isWhitespace {c : Char} (h : c.isWhitespace = true) : isBlank c = true := by
  simp only [Char.isWhitespace, Bool.or_eq_true, decide_eq_true_eq] at h
  rcases h with ((rfl | rfl) | rfl) | rfl <;> decide

/-- A text without the blanks at its two ends. -/
def trim (cs : List Char) : List Char :=
  ((cs.dropWhile isBlank).reverse.dropWhile isBlank).reverse

/-- The lines of a text, with one character put in front of it: a line feed starts a line of its
own, and any other character belongs to the first line. -/
def consLine (c : Char) (ls : List (List Char)) : List (List Char) :=
  if c = '\n' then [] :: ls else (c :: ls.headD []) :: ls.tail

/-- The pieces of a text between its line feeds, the first and the last included. -/
def lines (cs : List Char) : List (List Char) :=
  cs.foldr consLine [[]]

@[simp] theorem lines_nil : lines [] = [[]] := rfl

@[simp] theorem lines_cons (c : Char) (cs : List Char) :
    lines (c :: cs) = consLine c (lines cs) := rfl

theorem lines_ne_nil : (cs : List Char) → lines cs ≠ []
  | [] => by simp
  | c :: cs => by
      rw [lines_cons, consLine]
      split <;> simp

/-- A line feed separates the lines before it from the lines after it. -/
theorem lines_append_newline (bs : List Char) :
    (as : List Char) → lines (as ++ '\n' :: bs) = lines as ++ lines bs
  | [] => by simp [consLine]
  | c :: as => by
      obtain ⟨l, ls, h⟩ := List.exists_cons_of_ne_nil (lines_ne_nil as)
      rw [List.cons_append, lines_cons, lines_append_newline bs as, lines_cons, h]
      simp only [consLine]
      split <;> rfl

end Calculator
