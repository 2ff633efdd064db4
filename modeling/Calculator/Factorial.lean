import Calculator.Builtin.Elementary

/-!
# Factorials

The factorial of a whole number is a product, and between the whole numbers the gamma function
continues it: `x! = Γ (x + 1)`. Gamma is approximated by a series of partial fractions to the right
of one half and by reflection to the left of it.

## Main definitions

* `Calculator.Gamma.right`: the series, for arguments that are at least one half.
* `Calculator.Gamma.step`, `Calculator.gamma`: the gamma function, whose reflection calls it once
  more.
* `Calculator.factorial`: the factorial of a number.
-/

namespace Calculator

open Elementary

namespace Gamma

/-- The constant term of the series. -/
def constantTerm : Float := 0.9999999999998099

/-- The numerators of the partial fractions, in the order of their poles. -/
def numerators : List Float :=
  [676.5203681218851, -1259.1392167224028, 771.3234287776531, -176.6150291621406,
    12.507343278686905, -0.13857109526572012, 9.984369578019572e-6, 1.5056327351493116e-7]

/-- The series at `x`: the constant term, and each numerator over the distance to its pole. -/
def series (x : Float) : Float :=
  (numerators.foldl
    (fun (offset, sum) c => (offset + 1, sum + c / (x + (offset + 1)))) (0, constantTerm)).2

/-- Gamma at `z`, which is at least one half. The power is split into two equal factors, so that
it does not overflow before the exponential scales it down. -/
def right (z : Float) : Float :=
  let x := z - 1
  let t := x + 7 + 0.5
  let halfPower := t.pow ((x + 0.5) / 2)
  (2 * pi).sqrt * halfPower * (-t).exp * halfPower * series x

/-- Above this number gamma exceeds every finite number. -/
def finiteLimit : Float := 171.7

/-- Whether gamma has no value at `z`: at not-a-number, and at its poles, which are zero and the
negative whole numbers. -/
def isPole (z : Float) : Bool := z.isNaN || (z ≤ 0 && Binary64.isIntegral z)

/-- Gamma at `z`, where `mirrored` gives gamma at the reflection `1 - z` of a number to the left of
one half. -/
def step (mirrored : Float → Float) (z : Float) : Float :=
  if isPole z then nan
  else if finiteLimit < z then infinity
  else if z < 0.5 then pi / ((pi * z).sin * mirrored (1 - z))
  else right z

end Gamma

/-- The gamma function. The reflection of a number to the left of one half is not reflected
again, so that two steps are enough. -/
def gamma (z : Float) : Float := Gamma.step (Gamma.step fun _ => nan) z

namespace Factorial

/-- The greatest whole number with a finite factorial. -/
def greatest : Nat := 170

/-- The product `result · k · (k + 1) · …` of the whole numbers up to `x`, of at most `steps`
factors. -/
def product (x : Float) : (steps : Nat) → (k result : Float) → Float
  | 0, _, result => result
  | steps + 1, k, result => if k ≤ x then product x steps (k + 1) (result * k) else result

end Factorial

/-- The factorial of a number: a product at the whole numbers from zero on, infinite where that
overflows, not-a-number at the negative whole numbers, and gamma between the whole numbers. -/
def factorial (x : Float) : Float :=
  if x.isNaN then nan
  else if x.isInf then (if x < 0 then nan else infinity)
  else if !Binary64.isIntegral x then gamma (x + 1)
  else if x < 0 then nan
  else if Factorial.greatest.toFloat < x then infinity
  else Factorial.product x Factorial.greatest 2 1

example : factorial 5 = 120 := by decide +kernel

example : factorial (-3) = Elementary.nan := by decide +kernel

end Calculator
