import Calculator.Number.Decimal

/-!
# Reading a number

A number is written as an optional sign and then a decimal fraction with an optional exponent of
ten, or one of the words `inf`, `infinity` and `nan` in letters of either case. The fraction needs
a digit on at least one side of its point. Reading is correctly rounded: the answer is the
binary64 number nearest to the written value, however many digits are written.

## Main definitions

* `Calculator.Number.fractionAndExponent`: splits an unsigned text into its fraction and its
  exponent.
* `Calculator.Number.scaled`: a fraction times a power of ten.
* `Calculator.Number.read`: the number that a text denotes.
-/

namespace Calculator.Number

/-- The natural number that a row of decimal digits denotes. -/
def readDigits (cs : List Char) : Nat := Nat.ofDigitChars 10 cs 0

/-- The exponent that follows a fraction: nothing, which means zero, or a letter `e` of either
case, an optional sign and at least one digit. -/
def readExponent : List Char → Option Int
  | [] => some 0
  | mark :: cs =>
      if mark = 'e' ∨ mark = 'E' then
        let negative := cs.head? = some '-'
        let digits := if negative ∨ cs.head? = some '+' then cs.tail else cs
        if digits ≠ [] ∧ digits.all Char.isDigit then
          some (if negative then -(readDigits digits : Int) else readDigits digits)
        else
          none
      else
        none

/-- The digits before the point, the digits after it and the exponent of an unsigned decimal. -/
def fractionAndExponent (cs : List Char) : Option (List Char × List Char × Int) :=
  let whole := cs.takeWhile Char.isDigit
  let rest := cs.dropWhile Char.isDigit
  let pointed := rest.head? = some '.'
  let fraction := if pointed then rest.tail.takeWhile Char.isDigit else []
  let rest := if pointed then rest.tail.dropWhile Char.isDigit else rest
  if whole = [] ∧ fraction = [] then none
  else (readExponent rest).map fun exponent => (whole, fraction, exponent)

/-- The fraction with the given digits before and after the point, times `10 ^ exponent`. An
exponent so large that any non-zero fraction overflows, or so small that every fraction vanishes,
is first replaced by one that is only just so large or so small. -/
def scaled (whole fraction : List Char) (exponent : Int) : Decimal :=
  let exponent := max (-(whole.length + 400 : Int)) (min exponent (fraction.length + 400))
  let shift := exponent - fraction.length
  let digits := readDigits (whole ++ fraction)
  ⟨digits * powerOfTen shift.toNat, (-shift).toNat⟩

/-- The number that an unsigned text denotes. -/
def readUnsigned (cs : List Char) : Option Float :=
  let word := cs.map Char.toLower
  if word = "inf".toList ∨ word = "infinity".toList then
    some (Binary64.ofRank false Binary64.infinityRank)
  else if word = "nan".toList then
    some (0 / 0)
  else
    (fractionAndExponent cs).map fun (whole, fraction, exponent) =>
      Binary64.ofRank false (scaled whole fraction exponent).nearestRank

/-- The number that a text denotes. -/
def read (text : String) : Option Float :=
  match text.toList with
  | '-' :: cs => (readUnsigned cs).map fun x => -x
  | '+' :: cs => readUnsigned cs
  | cs => readUnsigned cs

example : read "1.5" = some 1.5 := by decide +kernel

example : read ".5e+1" = some 5 := by decide +kernel

example : read "1e-400" = some 0 := by decide +kernel

example : read "." = none ∧ read "1e" = none ∧ read "1_0" = none := by
  decide +kernel

end Calculator.Number
