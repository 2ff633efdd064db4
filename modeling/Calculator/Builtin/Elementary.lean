import Calculator.Number.Binary64

/-!
# Elementary functions

The real functions of the calculator that need care near a point where the plain formula loses
digits, overflows or leaves a sign open.

## Main definitions

* `Calculator.Elementary.expMinusOne`, `Calculator.Elementary.logOnePlus`: `eˣ - 1` and
  `ln (1 + x)` without cancellation near zero.
* `Calculator.Elementary.hypotenuse`: `√(x² + y²)`, correctly rounded.
* `Calculator.Elementary.sign`, `Calculator.Elementary.least`, `Calculator.Elementary.greatest`.
* `Calculator.Elementary.radians`, `Calculator.Elementary.degrees`.
-/

namespace Calculator.Elementary

/-- The ratio of the circumference of a circle to its diameter. -/
def pi : Float := 3.141592653589793

/-- Positive infinity. -/
def infinity : Float := Binary64.ofRank false Binary64.infinityRank

/-- Not-a-number. -/
def nan : Float := 0 / 0

/-- `eˣ - 1`. Near zero the rounding error of `u = eˣ` is divided out, since
`(u - 1) / ln u` varies slowly; where `u` rounds to one the answer is `x` itself. -/
def expMinusOne (x : Float) : Float :=
  let u := x.exp
  if x.abs < 0.5 then (if u == 1 then x else (u - 1) * (x / u.log)) else u - 1

/-- `ln (1 + x)`. Near zero the rounding error of `u = 1 + x` is divided out, since
`ln u / (u - 1)` varies slowly; where `u` rounds to one the answer is `x` itself. -/
def logOnePlus (x : Float) : Float :=
  let u := 1 + x
  if x.abs < 0.5 then (if u == 1 then x else u.log * (x / (u - 1))) else u.log

/-- `√(x² + y²)`, correctly rounded: the squares are exact, so that none of them overflows or
vanishes. A leg of infinite length wins over not-a-number. -/
def hypotenuse (x y : Float) : Float :=
  if x.isInf || y.isInf then infinity
  else if x.isNaN || y.isNaN then nan
  else
    let a := Binary64.units (Binary64.rank x)
    let b := Binary64.units (Binary64.rank y)
    Binary64.ofRank false (Binary64.nearestSqrtRank (a * a + b * b))

/-- One with the sign of a number, zero for either zero, and not-a-number for itself. -/
def sign (x : Float) : Float :=
  if x == 0 then 0 else if x.isNaN then x else if Binary64.isNegative x then -1 else 1

/-- An angle given in degrees, in radians. -/
def radians (x : Float) : Float := x * (pi / 180)

/-- An angle given in radians, in degrees. -/
def degrees (x : Float) : Float := x * (180 / pi)

/-- The lesser of two numbers, and not-a-number if one of them is. -/
def least (x y : Float) : Float :=
  if x.isNaN || y.isNaN then nan else if x < y then x else y

/-- The greater of two numbers, and not-a-number if one of them is. -/
def greatest (x y : Float) : Float :=
  if x.isNaN || y.isNaN then nan else if y < x then x else y

end Calculator.Elementary
