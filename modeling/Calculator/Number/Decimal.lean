import Calculator.Number.Binary64

/-!
# Decimal fractions

A decimal fraction is a natural number of units of a power of ten. It is the written side of a
number: what a literal denotes before rounding, and what the shortest text of a number shows.

## Main definitions

* `Calculator.powerOfTen`: the powers of ten.
* `Calculator.Decimal`: a number of digits and how many of them stand after the point.
* `Calculator.Decimal.nearestRank`: the rank of the binary64 number nearest to a fraction.
* `Calculator.Decimal.strip`: the same fraction without final zeros after the point.
* `Calculator.Decimal.text`: the positional text of a fraction.
-/

namespace Calculator

/-- The natural number that is written as a one and `k` zeros. -/
def powerOfTen (k : Nat) : Nat := Nat.pow 10 k

@[simp] theorem powerOfTen_zero : powerOfTen 0 = 1 := rfl

theorem powerOfTen_succ (k : Nat) : powerOfTen (k + 1) = powerOfTen k * 10 := rfl

theorem lt_powerOfTen : (k : Nat) → k < powerOfTen k
  | 0 => Nat.one_pos
  | k + 1 => by
      have := lt_powerOfTen k
      rw [powerOfTen_succ]
      omega

/-- The fraction `digits / 10 ^ scale`. -/
structure Decimal where
  /-- All digits of the fraction, as one natural number. -/
  digits : Nat
  /-- How many of the digits stand after the point. -/
  scale : Nat
deriving DecidableEq, Repr, Inhabited

namespace Decimal

/-- The rank of the binary64 number nearest to a fraction. -/
def nearestRank (d : Decimal) : Nat :=
  Binary64.nearestRank (d.digits * Binary64.unitsPerOne) (powerOfTen d.scale)

/-- The fraction `digits / 10 ^ scale` without final zeros after the point. -/
def strip : (digits scale : Nat) → Decimal
  | digits, 0 => ⟨digits, 0⟩
  | digits, scale + 1 =>
      if digits % 10 = 0 then strip (digits / 10) scale else ⟨digits, scale + 1⟩

/-- The characters of a fraction: the digits of its whole part, then, unless it has no digits
after the point, a point and exactly those digits. -/
def chars (d : Decimal) : List Char :=
  Nat.toDigits 10 (d.digits / powerOfTen d.scale) ++
    if d.scale = 0 then [] else
      '.' :: (Nat.toDigits 10 (d.digits % powerOfTen d.scale)).leftpad d.scale '0'

/-- The positional text of a fraction. -/
def text (d : Decimal) : String := String.ofList d.chars

example : text ⟨1250, 2⟩ = "12.50" := by decide +kernel

example : text ⟨7, 3⟩ = "0.007" := by decide +kernel

example : strip 1250 3 = ⟨125, 2⟩ := by decide

end Decimal

end Calculator
