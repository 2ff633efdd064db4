import Calculator.Number.Decimal

/-!
# The shortest text of a number

A number is written with the fewest significant digits that read back to it. Of the two
neighbours of the number on a decimal grid the nearer one is taken if both read back, and the
upper one of two equally near. The text is positional at every magnitude.

## Main definitions

* `Calculator.Number.exactDigits`, `Calculator.Number.digitCount`: all decimal digits of a number,
  and how many they are.
* `Calculator.Number.shortest`: the shortest fraction that reads back to the number of a given
  rank.
* `Calculator.Number.text`: the text of a number.
-/

namespace Calculator.Number

/-- How many digits after the point the exact value of every finite number fits in. -/
def exactScale : Nat := 1074

/-- The exact value of the number of rank `k`, multiplied by `10 ^ exactScale`. The division by
the units of one leaves no remainder. -/
def exactDigits (k : Nat) : Nat :=
  Binary64.units k * (powerOfTen exactScale / Binary64.unitsPerOne)

/-- The least count of digits, from `count` on, that `n` fits in. -/
def digitCountFrom (n count : Nat) : Nat :=
  if n < powerOfTen count then count else digitCountFrom n (count + 1)
termination_by n - count
decreasing_by
  have := lt_powerOfTen count
  omega

/-- How many decimal digits a natural number has. The count begins a little below the truth, since
a bit is worth more than `30102 / 100000` of a digit. -/
def digitCount (n : Nat) : Nat := digitCountFrom n (n.log2 * 30102 / 100000)

/-- The fraction `c · 10 ^ dropped / 10 ^ exactScale`. -/
def onGrid (c dropped : Nat) : Decimal :=
  if dropped ≤ exactScale then Decimal.strip c (exactScale - dropped)
  else ⟨c * powerOfTen (dropped - exactScale), 0⟩

/-- The two neighbours of `digits / 10 ^ exactScale` on the grid that drops the last `dropped`
digits, the nearer one first, and the upper one first if both are equally near. -/
def neighbours (digits dropped : Nat) : List Decimal :=
  let spacing := powerOfTen dropped
  let lower := onGrid (digits / spacing) dropped
  let upper := onGrid (digits / spacing + 1) dropped
  if spacing ≤ 2 * (digits % spacing) then [upper, lower] else [lower, upper]

/-- The fraction with the fewest digits that reads back to the number of rank `k`. Seventeen
digits always suffice, so that the exact value stands in the last place for completeness only. -/
def shortest (k : Nat) : Decimal :=
  let digits := exactDigits k
  let count := digitCount digits
  let readsBack (d : Decimal) : Bool := d.nearestRank == k
  ((List.range 17).findSome? fun i => (neighbours digits (count - (i + 1))).find? readsBack).getD
    (Decimal.strip digits exactScale)

/-- The text of a number: a minus sign if its sign bit is set, and the shortest fraction of its
absolute value. -/
def text (x : Float) : String :=
  if x.isNaN then "NaN"
  else
    let absolute := if x.isInf then "inf" else (shortest (Binary64.rank x)).text
    if Binary64.isNegative x then "-" ++ absolute else absolute

example : text (0.1 + 0.2) = "0.30000000000000004" := by decide +kernel

example : text (-0.0) = "-0" := by decide +kernel

example : text 1e21 = "1000000000000000000000" := by decide +kernel

end Calculator.Number
