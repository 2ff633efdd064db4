import Calculator.Proofs.Number.Rounding

/-!
# Sums of numbers

The sum of two finite numbers is the number nearest to the sum of their values. A difference is the
sum with the negated number.

## Main definitions

* `Calculator.Binary64.nearest`: the rank with sign of the number nearest to a value.

## Main results

* `Calculator.Binary64.signedRank_add`, `Calculator.Binary64.signedRank_sub`: sums and differences
  are rounded to the nearest number.
* `Calculator.Binary64.value_add_of_short`: a sum that a mantissa has room for is exact.
-/

namespace Calculator.Binary64

open Float.Model Float.Model.UnpackedFloat

/-- The rank with sign of the number nearest to `n` units. -/
def nearest (n : Int) : Int := signedRank (decide (n < 0)) (nearestRank n.natAbs 1)

/-- The packed number has the rank nearest to `n` units, and the sign of `n`; but a zero may have
either sign. -/
def PacksNearest (u : UnpackedFloat) (n : Int) : Prop :=
  ∃ negative, (n ≠ 0 → negative = decide (n < 0)) ∧
    (UnpackedFloat.pack Format.binary64 u).toNat =
      (if negative then signBit else 0) + nearestRank n.natAbs 1

/-! ### Adding what is taken apart -/

theorem natAbs_signedRank (negative : Bool) (n : Nat) : (signedRank negative n).natAbs = n := by
  cases negative <;> simp only [signedRank_false, signedRank_true] <;> omega

theorem signedRank_lt_zero {n : Nat} (hn : n ≠ 0) (negative : Bool) :
    decide (signedRank negative n < 0) = negative := by
  cases negative
  · exact decide_eq_false (by rw [signedRank_false]; omega)
  · exact decide_eq_true (by rw [signedRank_true]; omega)

theorem packsNearest_zero (negative : Bool) : PacksNearest (.zero (signOf negative)) 0 :=
  ⟨negative, fun h => absurd rfl h, by cases negative <;> decide +kernel⟩

/-- A finite number is the one nearest to its own value. -/
theorem HasRank.packsNearest {u : UnpackedFloat} {negative : Bool} {k : Nat}
    (h : HasRank u negative k) (hk : k < infinityRank) :
    PacksNearest u (signedRank negative (units k)) := by
  cases h with
  | zero =>
    rw [units_zero, signedRank_zero]
    exact packsNearest_zero negative
  | finite _ hparts =>
    refine ⟨negative, fun hne => (signedRank_lt_zero (fun h => hne ?_) negative).symm, ?_⟩
    · rw [h, signedRank_zero]
    · rw [toNat_pack_finite negative hparts, natAbs_signedRank, nearestRank_units (Nat.le_of_lt hk),
        Nat.min_eq_left (Nat.le_of_lt hk)]
  | infinity => exact absurd hk (Nat.lt_irrefl _)

theorem packsNearest_normalize (n : Int) (shift : Nat) :
    PacksNearest (UnpackedFloat.normalize Format.binary64 n (shift - 1074) .positive)
      (n * 2 ^ shift) := by
  have hpow : (0 : Int) < 2 ^ shift := Int.pow_pos (by decide)
  have habs : (n * 2 ^ shift).natAbs = n.natAbs * 2 ^ shift := by
    rw [Int.natAbs_mul, Int.natAbs_pow]
    rfl
  rw [UnpackedFloat.normalize]
  rcases Int.lt_trichotomy n 0 with hn | rfl | hn
  · have hsign : decide (n * 2 ^ shift < 0) = true :=
      decide_eq_true (Int.mul_neg_of_neg_of_pos hn hpow)
    have hnat : (-n).toNat = n.natAbs := by omega
    rw [Int.compare_eq_lt.2 hn]
    refine ⟨true, fun _ => hsign.symm, ?_⟩
    rw [habs, ← toNat_pack_round true (by omega) shift, ← hnat]
    rfl
  · rw [Int.compare_eq_eq.2 rfl, Int.zero_mul]
    exact packsNearest_zero false
  · have hsign : decide (n * 2 ^ shift < 0) = false :=
      decide_eq_false (Int.not_lt.2 (Int.le_of_lt (Int.mul_pos hn hpow)))
    have hnat : n.toNat = n.natAbs := by omega
    rw [Int.compare_eq_gt.2 hn]
    refine ⟨false, fun _ => hsign.symm, ?_⟩
    rw [habs, ← toNat_pack_round false (by omega) shift, ← hnat]
    rfl

theorem apply_signOf (negative : Bool) (n : Nat) :
    (signOf negative).apply n = signedRank negative n := by
  cases negative <;> rfl

theorem apply_neg (s : Sign) (n : Int) : (-s).apply n = -s.apply n := by
  cases s with
  | positive => rfl
  | negative => exact (Int.neg_neg n).symm

theorem signedRank_mul (negative : Bool) (m n : Nat) :
    signedRank negative (m * n) = signedRank negative m * n := by
  cases negative
  · exact Int.natCast_mul m n
  · rw [signedRank_true, signedRank_true, Int.natCast_mul, Int.neg_mul]

/-- Digits are added to a mantissa so that its value stays the same. -/
theorem decreaseExponent_eq {shift shift' : Nat} (h : shift' ≤ shift) (mantissa : Nat) :
    decreaseExponent mantissa ((shift : Int) - 1074) (shift' - 1074) =
      (mantissa * 2 ^ (shift - shift'), (shift' : Int) - 1074) := by
  have hamount : ((shift : Int) - 1074 - ((shift' : Int) - 1074)).toNat = shift - shift' := by omega
  simp only [decreaseExponent, hamount, Nat.shiftLeft_eq, Prod.mk.injEq, true_and]
  omega

/-- Numbers are added at the smaller of their exponents. -/
theorem add_finite (s s' : Sign) {m m' : Nat} (e e' : Int) (hm : 0 < m) (hm' : 0 < m') :
    UnpackedFloat.add Format.binary64 (.finite s m e hm) (.finite s' m' e' hm') =
      UnpackedFloat.normalize Format.binary64
        (s.apply (decreaseExponent m e (min e e')).1 +
          s'.apply (decreaseExponent m' e' (min e e')).1) (min e e') .positive :=
  rfl

/-- The sum of two finite numbers is the number nearest to the sum of their values. -/
theorem HasRank.packsNearest_add {u v : UnpackedFloat} {a b : Bool} {j k : Nat}
    (h : HasRank u a j) (h' : HasRank v b k) (hj : j < infinityRank) (hk : k < infinityRank) :
    PacksNearest (UnpackedFloat.add Format.binary64 u v)
      (signedRank a (units j) + signedRank b (units k)) := by
  cases h with
  | zero =>
    cases h' with
    | zero =>
      rw [units_zero, signedRank_zero, signedRank_zero]
      cases a <;> cases b
      · exact packsNearest_zero false
      · exact packsNearest_zero false
      · exact packsNearest_zero false
      · exact packsNearest_zero true
    | finite _ hparts hfinite =>
      rw [units_zero, signedRank_zero, Int.zero_add]
      exact (HasRank.finite b hparts hfinite).packsNearest hk
    | infinity => exact absurd hk (Nat.lt_irrefl _)
  | @finite _ mantissa shift hparts hfinite =>
    cases h' with
    | zero =>
      rw [units_zero, signedRank_zero, Int.add_zero]
      exact (HasRank.finite a hparts hfinite).packsNearest hj
    | @finite _ mantissa' shift' hparts' =>
      have hmin : min ((shift : Int) - 1074) (shift' - 1074) =
          ((min shift shift' : Nat) : Int) - 1074 := by omega
      have hvalue (m s : Nat) (hs : min shift shift' ≤ s) :
          m * 2 ^ s = m * 2 ^ (s - min shift shift') * 2 ^ min shift shift' := by
        rw [Nat.mul_assoc, ← Nat.pow_add, Nat.sub_add_cancel hs]
      have hsum := packsNearest_normalize
        (signedRank a (mantissa * 2 ^ (shift - min shift shift')) +
          signedRank b (mantissa' * 2 ^ (shift' - min shift shift'))) (min shift shift')
      rw [units_parts hparts, units_parts hparts', hvalue mantissa shift (Nat.min_le_left _ _),
        hvalue mantissa' shift' (Nat.min_le_right _ _), signedRank_mul _ _ (2 ^ min shift shift'),
        signedRank_mul _ _ (2 ^ min shift shift'), ← Int.add_mul]
      rw [add_finite, hmin, decreaseExponent_eq (Nat.min_le_left _ _),
        decreaseExponent_eq (Nat.min_le_right _ _), apply_signOf, apply_signOf]
      exact hsum
    | infinity => exact absurd hk (Nat.lt_irrefl _)
  | infinity => exact absurd hj (Nat.lt_irrefl _)

/-- A difference is the sum with the negated number. -/
theorem unpackedSub_eq (u v : UnpackedFloat) :
    UnpackedFloat.sub Format.binary64 u v = UnpackedFloat.add Format.binary64 u v.neg := by
  cases u with
  | notANumber => rfl
  | infinity | zero => cases v <;> rfl
  | finite s m e hm =>
    cases v with
    | notANumber | infinity | zero => rfl
    | finite s' m' e' hm' =>
      have hneg : UnpackedFloat.neg (.finite s' m' e' hm') = .finite (-s') m' e' hm' := rfl
      rw [hneg, add_finite, apply_neg, ← Int.sub_eq_add_neg]
      rfl

/-! ### Adding numbers -/

/-- What is packed as the nearest number has its rank and its sign. -/
theorem signedRank_of_packsNearest {x : Float} {u : UnpackedFloat} {n : Int}
    (hx : pattern x = UnpackedFloat.pack Format.binary64 u) (h : PacksNearest u n) :
    signedRank (isNegative x) (rank x) = nearest n := by
  obtain ⟨negative, hsign, hnat⟩ := h
  have hle := nearestRank_le n.natAbs 1
  rw [infinityRank_eq] at hle
  rw [← hx, toNat_pattern] at hnat
  have hrank : rank x = nearestRank n.natAbs 1 := by
    rw [rank, hnat, signBit_eq]
    split <;> omega
  have hnegative : isNegative x = negative := by
    rw [isNegative, hnat, signBit_eq]
    cases negative
    · exact decide_eq_false (by simp only [Bool.false_eq_true, if_false]; omega)
    · exact decide_eq_true (by simp only [if_true]; omega)
  rw [hrank, hnegative, nearest]
  by_cases hn : n = 0
  · have hzero : nearestRank 0 1 = 0 := by decide
    rw [hn, Int.natAbs_zero, hzero, signedRank_zero, signedRank_zero]
  · rw [hsign hn]

variable {x y : Float}

/-- Sums are rounded to the nearest number. -/
theorem signedRank_add (hx : x.isFinite = true) (hy : y.isFinite = true) :
    signedRank (isNegative (x + y)) (rank (x + y)) = nearest (value x + value y) :=
  signedRank_of_packsNearest rfl
    ((hasRank_unpack (not_isNaN_of_isFinite hx)).packsNearest_add
      (hasRank_unpack (not_isNaN_of_isFinite hy)) (isFinite_iff.1 hx) (isFinite_iff.1 hy))

theorem signedRank_not (negative : Bool) (k : Nat) :
    signedRank (!negative) k = -signedRank negative k := by
  cases negative
  · rfl
  · exact (Int.neg_neg _).symm

/-- Differences are rounded to the nearest number. -/
theorem signedRank_sub (hx : x.isFinite = true) (hy : y.isFinite = true) :
    signedRank (isNegative (x - y)) (rank (x - y)) = nearest (value x - value y) := by
  have h := (hasRank_unpack (not_isNaN_of_isFinite hx)).packsNearest_add
    (hasRank_unpack (not_isNaN_of_isFinite hy)).neg (isFinite_iff.1 hx) (isFinite_iff.1 hy)
  rw [← unpackedSub_eq, signedRank_not, ← Int.sub_eq_add_neg] at h
  exact signedRank_of_packsNearest rfl h

/-- What is nearest to a value is a number, maybe infinity. -/
theorem not_isNaN_of_eq_nearest {n : Int} (h : signedRank (isNegative x) (rank x) = nearest n) :
    ¬x.isNaN = true := by
  have habs := congrArg Int.natAbs h
  rw [nearest, natAbs_signedRank, natAbs_signedRank] at habs
  rw [isNaN_iff, habs]
  exact Nat.not_lt.2 (nearestRank_le _ _)

/-- Rounding a positive value does not pass a number that it starts beyond. -/
theorem le_nearest {k n : Nat} (hk : k ≤ infinityRank) (h : units k ≤ n) :
    (k : Int) ≤ nearest n := by
  have hle := le_nearestRank hk h
  have hsign : decide ((n : Int) < 0) = false := decide_eq_false (by omega)
  rw [nearest, hsign, signedRank_false, Int.natAbs_natCast]
  omega

theorem signedRank_natAbs (n : Int) : signedRank (decide (n < 0)) n.natAbs = n := by
  by_cases hn : n < 0
  · rw [decide_eq_true hn, signedRank_true]
    omega
  · rw [decide_eq_false hn, signedRank_false]
    omega

/-- A value that a mantissa has room for is not rounded. -/
theorem value_of_eq_nearest {mantissa shift : Nat} {n : Int}
    (h : signedRank (isNegative x) (rank x) = nearest n) (habs : n.natAbs = mantissa * 2 ^ shift)
    (hlt : mantissa < 2 * blockSize) (hshift : shift ≤ 2045) : value x = n := by
  have hunits := units_nearestRank hlt hshift
  rw [← habs] at hunits
  rw [value, signedRank_units_eq h, hunits, signedRank_natAbs]

end Calculator.Binary64
