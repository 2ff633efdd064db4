import Mathlib.Algebra.Group.Int.Defs
import Mathlib.Algebra.Group.Nat.Defs
import Calculator.Proofs.Number.Bits

/-!
# Numbers taken apart

Arithmetic takes numbers apart into a sign, a mantissa and an exponent, and puts its results
together again. This file ties those parts to the sign and the rank of a number, in both directions,
so that the laws of arithmetic can be stated for signs and ranks.

The exponent of the least block is `-1074`, and each further block has an exponent that is greater
by one. A mantissa has at most 53 digits, and in all blocks but the least exactly 53.

## Main definitions

* `Calculator.Binary64.signOf`: the sign that a sign bit stands for.
* `Calculator.Binary64.HasRank`: the sign and the rank of a number that is taken apart.

## Main results

* `Calculator.Binary64.units_parts`: the value of a number is its mantissa times a power of two.
* `Calculator.Binary64.hasRank_unpack`: the parts of a number have its sign and its rank.
* `Calculator.Binary64.toNat_pack_finite`: a number is put together from its parts, and is infinite
  if its exponent is too great.
-/

namespace Calculator.Binary64

open Float.Model Float.Model.UnpackedFloat

/-- The sign that a sign bit stands for. -/
def signOf (negative : Bool) : Sign := if negative then .negative else .positive

@[simp] theorem neg_signOf (negative : Bool) : -signOf negative = signOf !negative := by
  cases negative <;> rfl

theorem toNat_toBitVec_signOf (negative : Bool) :
    (signOf negative).toBitVec.toNat * signBit = if negative then signBit else 0 := by
  cases negative <;> rfl

/-- A mantissa and the number of blocks between its exponent and the least exponent. -/
structure AreParts (mantissa shift : Nat) : Prop where
  mantissa_pos : 0 < mantissa
  mantissa_lt : mantissa < 2 * blockSize
  /-- Only in the least block a mantissa may be short. -/
  eq_zero_or_le : shift = 0 ∨ blockSize ≤ mantissa

/-- Up to the last block, parts are those of a finite number. -/
theorem AreParts.lt_infinityRank {mantissa shift : Nat} (h : AreParts mantissa shift)
    (hshift : shift < 2046) : shift * blockSize + mantissa < infinityRank := by
  have hlt := h.mantissa_lt
  rw [infinityRank_eq, blockSize_eq] at *
  omega

/-- The number `u`, which is taken apart, has the given sign and the given rank. -/
inductive HasRank : UnpackedFloat → Bool → Nat → Prop
  | zero (negative : Bool) : HasRank (.zero (signOf negative)) negative 0
  | finite (negative : Bool) {mantissa shift : Nat} (hparts : AreParts mantissa shift)
      (hfinite : shift * blockSize + mantissa < infinityRank) :
      HasRank (.finite (signOf negative) mantissa (shift - 1074) hparts.mantissa_pos) negative
        (shift * blockSize + mantissa)
  | infinity (negative : Bool) : HasRank (.infinity (signOf negative)) negative infinityRank

/-- Negation changes the sign and keeps the rank. -/
theorem HasRank.neg {u : UnpackedFloat} {negative : Bool} {k : Nat} (h : HasRank u negative k) :
    HasRank u.neg (!negative) k := by
  cases h with
  | zero =>
    show HasRank (.zero (-signOf negative)) (!negative) 0
    rw [neg_signOf]
    exact .zero _
  | finite _ hparts hfinite =>
    show HasRank (.finite (-signOf negative) _ _ _) (!negative) _
    rw [neg_signOf]
    exact .finite _ hparts hfinite
  | infinity =>
    show HasRank (.infinity (-signOf negative)) (!negative) infinityRank
    rw [neg_signOf]
    exact .infinity _

/-- The value of a number is its mantissa times a power of two. -/
theorem units_parts {mantissa shift : Nat} (h : AreParts mantissa shift) :
    units (shift * blockSize + mantissa) = mantissa * 2 ^ shift := by
  have hlt := h.mantissa_lt
  have hpos : 0 < blockSize := by decide
  by_cases hsmall : shift * blockSize + mantissa < blockSize
  · have hzero : shift = 0 := by
      have hcases := h.eq_zero_or_le
      omega
    rw [units, if_pos hsmall, hzero, Nat.zero_mul, Nat.zero_add, Nat.pow_zero, Nat.mul_one]
  · have hle : blockSize ≤ mantissa := by
      rcases h.eq_zero_or_le with rfl | hle
      · rw [Nat.zero_mul, Nat.zero_add] at hsmall
        exact Nat.le_of_not_lt hsmall
      · exact hle
    have hsum : shift * blockSize + mantissa =
        (mantissa - blockSize) + blockSize * (shift + 1) := by
      rw [Nat.mul_succ, Nat.mul_comm]
      omega
    have hrest : mantissa - blockSize < blockSize := by omega
    rw [units, if_neg hsmall, hsum, Nat.add_mul_mod_self_left, Nat.add_mul_div_left _ _ hpos,
      Nat.mod_eq_of_lt hrest, Nat.div_eq_of_lt hrest, Nat.zero_add, Nat.add_sub_cancel,
      Nat.add_sub_cancel' hle, Nat.shiftLeft_eq]

/-! ### Taking apart -/

theorem signOf_isNegative (x : Float) :
    signOf (isNegative x) = Sign.ofBitVec (unpackSign (pattern x)) := by
  have hlt : (pattern x).toNat < 0x10000000000000000 := (pattern x).isLt
  have hsign : isNegative x = decide ((unpackSign (pattern x)).toNat = 1) := by
    rw [toNat_unpackSign, isNegative, ← toNat_pattern, signBit_eq, decide_eq_decide]
    omega
  rw [hsign]
  generalize unpackSign (pattern x) = s
  have hcases : s = 0#1 ∨ s = 1#1 := by
    revert s
    decide
  rcases hcases with rfl | rfl <;> rfl

/-- The parts of a number have its sign and its rank. -/
theorem hasRank_unpack {x : Float} (hx : ¬x.isNaN = true) :
    HasRank x.toModel.unpack (isNegative x) (rank x) := by
  obtain ⟨he, hm⟩ := rank_parts x
  have hunpack : x.toModel.unpack = UnpackedFloat.unpack Format.binary64 (pattern x) := rfl
  have hrank := rank_eq x
  rw [isNaN_iff] at hx
  rw [hunpack]
  by_cases hmax : unpackExponent (pattern x) = -1#_
  · -- The greatest exponent with any other mantissa is that of not-a-number.
    have hle : (pattern x).toNat % signBit ≤ infinityRank := Nat.le_of_not_lt hx
    have hzero := mantissa_eq_zero_of_le hle hmax
    have hk : rank x = infinityRank := by
      rw [hrank, toNat_eq_max_iff.1 hmax, hzero]
      rfl
    rw [unpack_of_max hmax, if_pos hzero, ← signOf_isNegative, hk]
    exact .infinity _
  · have hexponent := mt toNat_eq_max_iff.2 hmax
    by_cases hsub : unpackExponent (pattern x) = 0#_
    · have hk : rank x = (unpackMantissa (pattern x)).toNat := by
        rw [hrank, hsub]
        simp
      by_cases hzero : unpackMantissa (pattern x) = 0#_
      · rw [unpack_of_zero hsub hzero, ← signOf_isNegative, hk, hzero]
        exact .zero _
      · obtain ⟨hpos, h⟩ := unpack_of_subnormal hsub hzero
        have hparts : AreParts (unpackMantissa (pattern x)).toNat 0 :=
          ⟨hpos, by omega, .inl rfl⟩
        have hfinite := HasRank.finite (isNegative x) hparts (hparts.lt_infinityRank (by decide))
        rw [Nat.zero_mul, Nat.zero_add] at hfinite
        rw [h, ← signOf_isNegative, hk]
        exact hfinite
    · obtain ⟨hpos, h⟩ := unpack_of_normal hsub hmax
      have hexponent' : (unpackExponent (pattern x)).toNat ≠ 0 := fun h =>
        hsub (BitVec.eq_of_toNat_eq h)
      generalize hshift : (unpackExponent (pattern x)).toNat = exponent at *
      obtain ⟨shift, rfl⟩ := Nat.exists_eq_succ_of_ne_zero hexponent'
      have hparts : AreParts (blockSize + (unpackMantissa (pattern x)).toNat) shift :=
        ⟨hpos, by omega, .inr (Nat.le_add_right _ _)⟩
      have hk : rank x = shift * blockSize + (blockSize + (unpackMantissa (pattern x)).toNat) := by
        rw [hrank, Nat.succ_mul, Nat.add_assoc]
      have hfinite := HasRank.finite (isNegative x) hparts (hparts.lt_infinityRank (by omega))
      have hcast : ((shift.succ : Nat) : Int) - 1075 = (shift : Int) - 1074 := by omega
      rw [h, ← signOf_isNegative, hk, hcast]
      exact hfinite

/-! ### Putting together -/

theorem toNat_packInfinity (negative : Bool) :
    (packedInfinity Format.binary64 (signOf negative)).toNat =
      (if negative then signBit else 0) + infinityRank := by
  cases negative <;> rfl

/-- A finite number is determined by its parts. -/
theorem finite_congr (sign : Sign) {m m' : Nat} {e e' : Int} (hm : m = m') (he : e = e')
    {hpos : 0 < m} : UnpackedFloat.finite sign m e hpos = .finite sign m' e' (hm ▸ hpos) := by
  subst hm he
  rfl

/-- A number whose exponent is too great is put together to an infinity. -/
theorem pack_of_large (s : Sign) {mantissa shift : Nat} (hpos : 0 < mantissa)
    (hlarge : 2046 ≤ shift) :
    UnpackedFloat.pack Format.binary64 (.finite s mantissa (shift - 1074) hpos) =
      packedInfinity Format.binary64 s := by
  refine if_pos ?_
  show 2048 ≤ ((shift : Int) - 1074 + 1023 + 52).toNat + 1
  omega

/-- A number is put together from its parts, and is infinite if its exponent is too great. -/
theorem toNat_pack_finite (negative : Bool) {mantissa shift : Nat}
    (h : AreParts mantissa shift) :
    (UnpackedFloat.pack Format.binary64
      (.finite (signOf negative) mantissa (shift - 1074) h.mantissa_pos)).toNat =
      (if negative then signBit else 0) + min (shift * blockSize + mantissa) infinityRank := by
  have hlt := h.mantissa_lt
  have hle := h.eq_zero_or_le
  rw [blockSize_eq] at hlt hle
  by_cases hlarge : 2046 ≤ shift
  · have hmin : infinityRank ≤ shift * blockSize + mantissa := by
      rw [infinityRank_eq, blockSize_eq]
      omega
    rw [pack_of_large _ _ hlarge, toNat_packInfinity, Nat.min_eq_right hmin]
  rw [Nat.min_eq_left (Nat.le_of_lt (h.lt_infinityRank (Nat.lt_of_not_le hlarge)))]
  by_cases hnormal : 0x10000000000000 ≤ mantissa
  · have hexponent : (BitVec.ofNat 11 (shift + 1)).toNat = shift + 1 := by
      rw [BitVec.toNat_ofNat]
      omega
    have hrest : (BitVec.ofNat 52 (mantissa - 0x10000000000000)).toNat =
        mantissa - 0x10000000000000 := by
      rw [BitVec.toNat_ofNat]
      omega
    have hmax : BitVec.ofNat 11 (shift + 1) ≠ -1#_ := mt toNat_eq_max_iff.1 (by omega)
    have hm : mantissa = blockSize + (BitVec.ofNat 52 (mantissa - 0x10000000000000)).toNat := by
      rw [hrest, blockSize_eq]
      omega
    have he : (shift : Int) - 1074 = (BitVec.ofNat 11 (shift + 1)).toNat - 1075 := by
      rw [hexponent]
      omega
    rw [finite_congr _ hm he, pack_of_normal _ hmax, toNat_packComponents, toNat_toBitVec_signOf,
      hexponent, hrest, blockSize_eq]
    omega
  · obtain rfl : shift = 0 := hle.resolve_right hnormal
    have hm : mantissa = (BitVec.ofNat 52 mantissa).toNat := by
      rw [BitVec.toNat_ofNat]
      omega
    have he : ((0 : Nat) : Int) - 1074 = -1074 := rfl
    rw [finite_congr _ hm he, pack_of_subnormal, toNat_packComponents, toNat_toBitVec_signOf, ← hm,
      BitVec.toNat_ofNat]
    omega

end Calculator.Binary64
