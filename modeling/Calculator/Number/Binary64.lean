/-!
# The binary64 numbers in ascending order

A finite binary64 number is a sign and a multiple of `2⁻¹⁰⁷⁴`. The bit patterns without sign bit,
read as natural numbers, count the non-negative numbers in ascending order: zero has rank `0`, the
least subnormal has rank `1`, and infinity follows the greatest finite number. This file states
the values on that ladder in units of `2⁻¹⁰⁷⁴`, so that both rounding a quotient to the nearest
number and reading a number exactly are arithmetic on natural numbers.

## Main definitions

* `Calculator.Binary64.units`: the value of the number of a given rank, in units of `2⁻¹⁰⁷⁴`.
* `Calculator.Binary64.nearestRank`: the rank of the number nearest to a quotient.
* `Calculator.Binary64.nearestSqrtRank`: the rank of the number nearest to a square root.
* `Calculator.Binary64.rank`, `Calculator.Binary64.isNegative`, `Calculator.Binary64.ofRank`: a
  number as a sign and a rank.
* `Calculator.Binary64.isIntegral`, `Calculator.Binary64.trunc`: the whole numbers, and the whole
  part of a number.
-/

namespace Calculator.Binary64

/-- How many units of `2⁻¹⁰⁷⁴` make one. -/
def unitsPerOne : Nat := 1 <<< 1074

/-- How many ranks a block has: `2⁵²`. -/
def blockSize : Nat := 1 <<< 52

/-- The rank of infinity: every finite number has a smaller one. -/
def infinityRank : Nat := 2047 * blockSize

/-- The value of the sign bit in a bit pattern. -/
def signBit : Nat := 1 <<< 63

/-- The value of the number of rank `k`, in units of `2⁻¹⁰⁷⁴`. The ranks of a block share one
spacing; the first two blocks have spacing one, and from then on each block doubles it. -/
def units (k : Nat) : Nat :=
  if k < blockSize then k else (blockSize + k % blockSize) <<< (k / blockSize - 1)

/-- The quotient `n / d` rounded to the nearest natural number, a half going to the even one. -/
def roundDiv (n d : Nat) : Nat :=
  if 2 * (n % d) < d ∨ (2 * (n % d) = d ∧ n / d % 2 = 0) then n / d else n / d + 1

/-- The rank of the number nearest to `n / d` units, a half going to the even rank. A quotient of
`2⁵³` units or more is first divided by the spacing of its block. Beyond the greatest finite
number the answer is infinity. -/
def nearestRank (n d : Nat) : Nat :=
  let block := (n / d).log2 - 52
  min (block * blockSize + roundDiv n (d <<< block)) infinityRank

/-- The greatest rank whose value has a square of at most `s`, among the rank `low`, which is one of
them, and the ranks that differ from it in their last `bits` bits, which are zero in `low`. -/
def sqrtFloorRank (s : Nat) : (bits low : Nat) → Nat
  | 0, low => low
  | bits + 1, low =>
      let middle := low + 1 <<< bits
      sqrtFloorRank s bits (if units middle * units middle ≤ s then middle else low)

/-- The rank of the number nearest to `√s` units, a half going to the even rank. The root is
compared with the point half way between two neighbours by squaring both. -/
def nearestSqrtRank (s : Nat) : Nat :=
  let k := sqrtFloorRank s 63 0
  let ends := units k + units (k + 1)
  min (if 4 * s < ends * ends ∨ (4 * s = ends * ends ∧ k % 2 = 0) then k else k + 1) infinityRank

/-- The rank of the absolute value of a number. -/
def rank (x : Float) : Nat := x.toBits.toNat % signBit

/-- Whether the sign bit of a number is set. Not-a-number has none. -/
def isNegative (x : Float) : Bool := signBit ≤ x.toBits.toNat

/-- The number of a given sign and rank. -/
def ofRank (negative : Bool) (k : Nat) : Float :=
  Float.ofBits (UInt64.ofNat (if negative then signBit + k else k))

/-- Whether a number is finite and whole. -/
def isIntegral (x : Float) : Bool :=
  x.isFinite && units (rank x) % unitsPerOne == 0

/-- The whole part of a number, with the sign of the number. Infinities and not-a-number are their
own whole parts. -/
def trunc (x : Float) : Float :=
  if x.isFinite then
    ofRank (isNegative x) (nearestRank (units (rank x) / unitsPerOne * unitsPerOne) 1)
  else
    x

example : nearestRank (units 4607182418800017408) 1 = 4607182418800017408 := by decide +kernel

example : units 4607182418800017408 = unitsPerOne := by decide +kernel

example : trunc (-2.75) = -2.0 := by decide +kernel

example : isIntegral 4503599627370497.0 = true ∧ isIntegral 4503599627370495.5 = false := by
  decide +kernel

end Calculator.Binary64
