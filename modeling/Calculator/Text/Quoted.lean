import Calculator.Text.Blank

/-!
# Quoted texts

Log messages quote the text they speak of. A quoted text stands between two quotation marks on
one line: line ends, tabs, quotation marks and backslashes are escaped, and so is every other
blank or control character that a reader could not see, by its code point.

## Main definitions

* `Calculator.escapeChar`: what is written for one character.
* `Calculator.quoted`: a quoted text.
-/

namespace Calculator

/-- A character that leaves no visible mark: a control character, or a blank other than the
space. -/
def isInvisible (c : Char) : Bool :=
  c.val < 0x20 || (0x7f ≤ c.val && c.val < 0xa0) || (isBlank c && c ≠ ' ')

/-- What is written for one character inside a quoted text. -/
def escapeChar : Char → String
  | '\t' => "\\t"
  | '\n' => "\\n"
  | '\r' => "\\r"
  | '\x00' => "\\0"
  | '"' => "\\\""
  | '\\' => "\\\\"
  | c =>
      if isInvisible c then
        "\\u\x7b" ++ String.ofList (Nat.toDigits 16 c.toNat) ++ "\x7d"
      else
        c.toString

/-- A text between quotation marks, with its characters escaped where needed. -/
def quoted (text : String) : String :=
  "\"" ++ String.join (text.toList.map escapeChar) ++ "\""

example : quoted "1\t+ \"x\"" = "\"1\\t+ \\\"x\\\"\"" := by decide +kernel

example : quoted "\u00a01\u2028" = "\"\\u\x7ba0\x7d1\\u\x7b2028\x7d\"" := by decide +kernel

end Calculator
