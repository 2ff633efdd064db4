import Calculator.Proofs.Number.Order
import Calculator.Proofs.Number.Rank

/-!
# Rounding

Arithmetic rounds a mantissa by shifting it to the right, digit by digit, and keeps of the digits
that drop out only whether the last one was set and whether any other was. This file shows that the
result is the nearest number, as it is computed by dividing, and when there is nothing to round.

## Main definitions

* `Calculator.Binary64.blockOf`: the block of the number nearest to a value.
* `Calculator.Binary64.IsShifted`: what is left of a mantissa that is divided by a power of two.

## Main results

* `Calculator.Binary64.le_nearestRank`: rounding does not pass a number that it starts beyond.
* `Calculator.Binary64.exists_units_eq`: a product of a mantissa and a power of two is the value of
  a number.
* `Calculator.Binary64.toNat_pack_round`: rounding gives the nearest number.
-/

namespace Calculator.Binary64

open Float.Model Float.Model.UnpackedFloat

/-! ### The nearest number -/

/-- The block of the number nearest to `n` units, unless rounding carries it into the next one. -/
def blockOf (n : Nat) : Nat := n.log2 - 52

theorem nearestRank_one (n : Nat) :
    nearestRank n 1 = min (blockOf n * blockSize + roundDiv n (2 ^ blockOf n)) infinityRank := by
  rw [nearestRank, Nat.div_one, Nat.one_shiftLeft]
  rfl

theorem nearestRank_le (n d : Nat) : nearestRank n d ≤ infinityRank := Nat.min_le_right _ _

/-- The digits of a value that its mantissa has room for. -/
theorem areParts_div_blockOf {n : Nat} (hn : n ≠ 0) :
    AreParts (n / 2 ^ blockOf n) (blockOf n) := by
  have hpos := Nat.two_pow_pos (blockOf n)
  have hlow := Nat.log2_self_le hn
  have hhigh : n < 2 ^ (n.log2 + 1) := (Nat.log2_lt hn).1 (Nat.lt_succ_self _)
  have hsize : blockSize = 2 ^ 52 := rfl
  by_cases hlog : n.log2 < 52
  · have hblock : blockOf n = 0 := Nat.sub_eq_zero_of_le (Nat.le_of_lt hlog)
    have hlt : n < 2 ^ 52 := (Nat.log2_lt hn).1 hlog
    rw [hblock, Nat.pow_zero, Nat.div_one]
    exact ⟨Nat.pos_of_ne_zero hn, by omega, .inl rfl⟩
  · have hsum : n.log2 = blockOf n + 52 := by
      rw [blockOf]
      omega
    rw [hsum, Nat.pow_add] at hlow
    rw [hsum, Nat.add_assoc, Nat.pow_add] at hhigh
    have hle : blockSize ≤ n / 2 ^ blockOf n := by
      rwa [Nat.le_div_iff_mul_le hpos, hsize, Nat.mul_comm]
    exact ⟨Nat.lt_of_lt_of_le (by decide) hle, Nat.div_lt_of_lt_mul hhigh, .inr hle⟩

theorem le_roundDiv (n d : Nat) : n / d ≤ roundDiv n d := by
  rw [roundDiv]
  split
  · exact Nat.le_refl _
  · exact Nat.le_succ _

theorem roundDiv_le (n d : Nat) : roundDiv n d ≤ n / d + 1 := by
  rw [roundDiv]
  split
  · exact Nat.le_succ _
  · exact Nat.le_refl _

/-- Rounding does not pass a number that it starts beyond. -/
theorem le_nearestRank {j n : Nat} (hj : j ≤ infinityRank) (h : units j ≤ n) :
    j ≤ nearestRank n 1 := by
  by_cases hn : n = 0
  · subst hn
    have hzero : j = 0 := by
      rw [← units_zero, units_le_units_iff] at h
      exact Nat.le_zero.1 h
    rw [hzero]
    exact Nat.zero_le _
  · have hparts := areParts_div_blockOf hn
    -- The next number after the mantissa that is cut off is already too great.
    have hlt : units j < units (blockOf n * blockSize + n / 2 ^ blockOf n + 1) := by
      rw [units_succ_parts hparts]
      exact Nat.lt_of_le_of_lt h
        (Nat.lt_mul_of_div_lt (Nat.lt_succ_self _) (Nat.two_pow_pos _))
    have hle := Nat.le_of_lt_succ (units_lt_units_iff.1 hlt)
    rw [nearestRank_one, Nat.le_min]
    exact ⟨Nat.le_trans hle (Nat.add_le_add_left (le_roundDiv _ _) _), hj⟩

/-! ### Values without rounding -/

/-- A product of a mantissa and a power of two is the value of a number, also if the mantissa is
short. -/
theorem exists_units_eq {mantissa : Nat} (hlt : mantissa < 2 * blockSize) (shift : Nat) :
    ∃ k ≤ shift * blockSize + mantissa, units k = mantissa * 2 ^ shift := by
  induction shift generalizing mantissa with
  | zero =>
    refine ⟨mantissa, by omega, ?_⟩
    by_cases hzero : mantissa = 0
    · rw [hzero, units_zero, Nat.zero_mul]
    · have hunits := units_parts ⟨Nat.pos_of_ne_zero hzero, hlt, .inl rfl⟩
      rwa [Nat.zero_mul, Nat.zero_add] at hunits
  | succ shift ih =>
    by_cases hshort : mantissa < blockSize
    · -- A short mantissa has room for another digit.
      obtain ⟨k, hk, hunits⟩ := ih (show 2 * mantissa < 2 * blockSize by omega)
      refine ⟨k, ?_, ?_⟩
      · rw [Nat.succ_mul]
        omega
      · rw [hunits, Nat.pow_succ, Nat.mul_comm 2, Nat.mul_assoc, Nat.mul_comm 2]
    · have hpos : 0 < mantissa := Nat.lt_of_lt_of_le (by decide) (Nat.le_of_not_lt hshort)
      exact ⟨_, Nat.le_refl _, units_parts ⟨hpos, hlt, .inr (Nat.le_of_not_lt hshort)⟩⟩

/-- The value of a number is not rounded. -/
theorem units_nearestRank {mantissa shift : Nat} (hlt : mantissa < 2 * blockSize)
    (hshift : shift ≤ 2045) :
    units (nearestRank (mantissa * 2 ^ shift) 1) = mantissa * 2 ^ shift := by
  obtain ⟨k, hk, hunits⟩ := exists_units_eq hlt shift
  have hle : k ≤ infinityRank := by
    rw [infinityRank_eq]
    rw [blockSize_eq] at hk hlt
    omega
  rw [← hunits, nearestRank_units hle]

/-! ### Shifting -/

/-- What is left of the mantissa `n` when it is divided by `d`: the quotient, whether the remainder
is at least a half, and whether it is neither zero nor a half. -/
structure IsShifted (n d : Nat) (m : ExtendedMantissa) : Prop where
  mantissa : m.mantissa = n / d
  roundBit : m.roundBit = true ↔ d ≤ 2 * (n % d)
  stickyBit : m.stickyBit = true ↔ n % d ≠ 0 ∧ 2 * (n % d) ≠ d

theorem isShifted_one (n : Nat) : IsShifted n 1 ⟨n, false, false⟩ := by
  constructor <;> simp [Nat.mod_one]

/-- Shifting by one more digit halves the quotient. -/
theorem IsShifted.shiftRightOne {n d : Nat} {m : ExtendedMantissa} (h : IsShifted n d m)
    (hd : 0 < d) : IsShifted n (d * 2) m.shiftRightOne := by
  have hlt := Nat.mod_lt n hd
  have hrest : n % (d * 2) = n % d + d * (n / d % 2) := Nat.mod_mul
  constructor
  · rw [ExtendedMantissa.shiftRightOne, h.mantissa, Nat.div_div_eq_div_mul]
  · rw [ExtendedMantissa.shiftRightOne, h.mantissa, bne_iff_ne, hrest]
    rcases Nat.mod_two_eq_zero_or_one (n / d) with hdigit | hdigit <;> rw [hdigit] <;> omega
  · rw [ExtendedMantissa.shiftRightOne, Bool.or_eq_true, h.roundBit, h.stickyBit, hrest]
    rcases Nat.mod_two_eq_zero_or_one (n / d) with hdigit | hdigit <;> rw [hdigit] <;> omega

/-- Shifting divides by a power of two. -/
theorem isShifted_shiftRight (n k : Nat) :
    IsShifted n (2 ^ k) ((⟨n, false, false⟩ : ExtendedMantissa) >>> k) := by
  induction k with
  | zero => exact isShifted_one n
  | succ k ih => exact ih.shiftRightOne (Nat.two_pow_pos k)

/-- The two bits are enough to round to the nearest number, a half going to the even one. -/
theorem IsShifted.roundedMantissa_eq {n d : Nat} {m : ExtendedMantissa} (h : IsShifted n d m) :
    m.roundedMantissa = roundDiv n d := by
  obtain ⟨q, round, sticky⟩ := m
  obtain ⟨hmantissa, hround, hsticky⟩ := h
  dsimp only at hmantissa hround hsticky
  subst hmantissa
  rw [roundDiv]
  cases round <;> cases sticky <;>
    simp only [Bool.false_eq_true, false_iff, true_iff] at hround hsticky
  · show n / d = _
    rw [if_pos (by omega)]
  · show n / d = _
    rw [if_pos (by omega)]
  · show n / d + n / d % 2 = _
    split <;> omega
  · show n / d + 1 = _
    rw [if_neg (by omega)]

/-! ### Putting a rounded value together -/

theorem log2_mul_two_pow {n : Nat} (hn : n ≠ 0) (k : Nat) : (n * 2 ^ k).log2 = n.log2 + k := by
  induction k with
  | zero => rw [Nat.pow_zero, Nat.mul_one, Nat.add_zero]
  | succ k ih =>
    have hne : n * 2 ^ k ≠ 0 := Nat.mul_ne_zero hn (Nat.ne_of_gt (Nat.two_pow_pos k))
    rw [Nat.pow_succ, ← Nat.mul_assoc, Nat.mul_comm _ 2, Nat.log2_two_mul hne, ih, Nat.add_assoc]

/-- The exponent that a value is rounded to is that of its block. -/
theorem targetExponent_eq {n : Nat} (hn : n ≠ 0) (shift : Nat) :
    Format.binary64.targetExponent (totalExponent n (shift - 1074)) =
      (blockOf (n * 2 ^ shift) : Int) - 1074 := by
  rw [blockOf, log2_mul_two_pow hn]
  show max ((n.log2 : Int) + 1 + (shift - 1074) - 53) (-1074) = _
  omega

theorem shiftToTargetExponent_eq {n : Nat} (hn : n ≠ 0) (shift : Nat) :
    shiftToTargetExponent Format.binary64 n (shift - 1074) .exact =
      ((⟨n, false, false⟩ : ExtendedMantissa) >>> (blockOf (n * 2 ^ shift) - shift),
        ((max (blockOf (n * 2 ^ shift)) shift : Nat) : Int) - 1074) := by
  have hunfold : shiftToTargetExponent Format.binary64 n (shift - 1074) .exact =
      shiftToExponent n (shift - 1074) .exact
        (Format.binary64.targetExponent (totalExponent n (shift - 1074))) := rfl
  rw [hunfold, targetExponent_eq hn, shiftToExponent]
  generalize blockOf (n * 2 ^ shift) = block
  have hamount : ((block : Int) - 1074 - (shift - 1074)).toNat = block - shift := by omega
  simp only [hamount, ExtendedMantissa.ofMantissaAndAccuracy, Prod.mk.injEq, true_and]
  omega

/-- The value of a mantissa in a block belongs to that block. -/
theorem blockOf_parts {mantissa shift : Nat} (h : AreParts mantissa shift) :
    blockOf (mantissa * 2 ^ shift) = shift := by
  have hne := Nat.ne_of_gt h.mantissa_pos
  have hsize : blockSize = 2 ^ 52 := rfl
  have hlog : mantissa.log2 < 53 := (Nat.log2_lt hne).2 h.mantissa_lt
  rw [blockOf, log2_mul_two_pow hne]
  rcases h.eq_zero_or_le with rfl | hle
  · omega
  · have hlog' : 52 ≤ mantissa.log2 := (Nat.le_log2 hne).2 hle
    omega

/-- Shifting the rounded mantissa `n` once more makes room for the carry. -/
theorem exists_parts_of_carry {n : Nat} (block : Nat) (hn : n ≠ 0) (hle : n ≤ 2 * blockSize)
    (hlarge : block = 0 ∨ blockSize ≤ n) :
    ∃ mantissa shift, AreParts mantissa shift ∧
      (shiftToTargetExponent Format.binary64 n (block - 1074) .exact).1.mantissa = mantissa ∧
      (shiftToTargetExponent Format.binary64 n (block - 1074) .exact).2 = shift - 1074 ∧
      shift * blockSize + mantissa = block * blockSize + n := by
  rw [shiftToTargetExponent_eq hn]
  dsimp only
  rw [(isShifted_shiftRight _ _).mantissa]
  by_cases hcarry : n = 2 * blockSize
  · have hparts : AreParts blockSize (block + 1) := ⟨by decide, by omega, .inr (Nat.le_refl _)⟩
    have hblock : blockOf (n * 2 ^ block) = block + 1 := by
      rw [← blockOf_parts hparts, hcarry, Nat.pow_succ, Nat.mul_comm 2, Nat.mul_assoc,
        Nat.mul_comm 2]
    refine ⟨_, _, hparts, ?_, ?_, ?_⟩
    · rw [hblock, Nat.add_sub_cancel_left, hcarry, Nat.pow_one, Nat.mul_comm,
        Nat.mul_div_cancel _ (by decide)]
    · rw [hblock, Nat.max_eq_left (Nat.le_succ _)]
    · rw [hcarry, Nat.succ_mul]
      omega
  · have hparts : AreParts n block := ⟨Nat.pos_of_ne_zero hn, by omega, hlarge⟩
    refine ⟨_, _, hparts, ?_, ?_, rfl⟩
    · rw [blockOf_parts hparts, Nat.sub_self, Nat.pow_zero, Nat.div_one]
    · rw [blockOf_parts hparts, Nat.max_self]

/-- Rounding gives the nearest number. -/
theorem toNat_pack_roundWithAccuracy (negative : Bool) {n shift : Nat} (hn : n ≠ 0)
    (hshift : shift ≤ blockOf (n * 2 ^ shift)) :
    (UnpackedFloat.pack Format.binary64
      (roundWithAccuracy Format.binary64 (signOf negative) n (shift - 1074) .exact)).toNat =
      (if negative then signBit else 0) + nearestRank (n * 2 ^ shift) 1 := by
  have hvalue : n * 2 ^ shift ≠ 0 := Nat.mul_ne_zero hn (Nat.ne_of_gt (Nat.two_pow_pos _))
  have hparts := areParts_div_blockOf hvalue
  have hround : ((⟨n, false, false⟩ : ExtendedMantissa) >>>
      (blockOf (n * 2 ^ shift) - shift)).roundedMantissa =
        roundDiv (n * 2 ^ shift) (2 ^ blockOf (n * 2 ^ shift)) := by
    have hpow : 2 ^ (blockOf (n * 2 ^ shift) - shift) * 2 ^ shift =
        2 ^ blockOf (n * 2 ^ shift) := by
      rw [← Nat.pow_add, Nat.sub_add_cancel hshift]
    rw [(isShifted_shiftRight _ _).roundedMantissa_eq, ← roundDiv_mul _ _ (Nat.two_pow_pos shift),
      hpow]
  rw [nearestRank_one, roundWithAccuracy, shiftToTargetExponent_eq hn]
  dsimp only
  rw [hround, Nat.max_eq_left hshift]
  generalize n * 2 ^ shift = value at *
  generalize blockOf value = block at *
  have hlow := le_roundDiv value (2 ^ block)
  have hhigh := roundDiv_le value (2 ^ block)
  have hpos := hparts.mantissa_pos
  have hlt := hparts.mantissa_lt
  have hlarge := hparts.eq_zero_or_le
  obtain ⟨mantissa, shift', hparts', hmantissa, hexponent, hsum⟩ :=
    exists_parts_of_carry (n := roundDiv value (2 ^ block)) block (by omega) (by omega) (by omega)
  rw [dif_neg (hmantissa ▸ Nat.ne_of_gt hparts'.mantissa_pos),
    finite_congr (signOf negative) hmantissa hexponent, toNat_pack_finite negative hparts', hsum]

/-- Rounding gives the nearest number. -/
theorem toNat_pack_round (negative : Bool) {n : Nat} (hn : n ≠ 0) (shift : Nat) :
    (UnpackedFloat.pack Format.binary64
      (UnpackedFloat.round Format.binary64 (signOf negative) n (shift - 1074))).toNat =
      (if negative then signBit else 0) + nearestRank (n * 2 ^ shift) 1 := by
  have hamount : ((shift : Int) - 1074 - ((blockOf (n * 2 ^ shift) : Int) - 1074)).toNat =
      shift - blockOf (n * 2 ^ shift) := by omega
  have hunfold : UnpackedFloat.round Format.binary64 (signOf negative) n (shift - 1074) =
      roundWithAccuracy Format.binary64 (signOf negative)
        (n * 2 ^ (shift - blockOf (n * 2 ^ shift)))
        ((min shift (blockOf (n * 2 ^ shift)) : Nat) - 1074) .exact := by
    rw [UnpackedFloat.round, targetExponent_eq hn, decreaseExponent]
    simp only [hamount, Nat.shiftLeft_eq]
    congr 1
    omega
  have hvalue : n * 2 ^ (shift - blockOf (n * 2 ^ shift)) *
      2 ^ min shift (blockOf (n * 2 ^ shift)) = n * 2 ^ shift := by
    rw [Nat.mul_assoc, ← Nat.pow_add]
    congr 2
    omega
  have hne : n * 2 ^ (shift - blockOf (n * 2 ^ shift)) ≠ 0 :=
    Nat.mul_ne_zero hn (Nat.ne_of_gt (Nat.two_pow_pos _))
  have hshift : min shift (blockOf (n * 2 ^ shift)) ≤
      blockOf (n * 2 ^ (shift - blockOf (n * 2 ^ shift)) *
        2 ^ min shift (blockOf (n * 2 ^ shift))) := by
    rw [hvalue]
    exact Nat.min_le_right _ _
  rw [hunfold, toNat_pack_roundWithAccuracy negative hne hshift, hvalue]

end Calculator.Binary64
