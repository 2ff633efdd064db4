import Calculator.Proofs.Number.Parts

/-!
# The order of numbers

Numbers are compared by their values, so that the two zeros are equal, and not-a-number is neither
equal to any number nor above or below it. Since the ranks count the numbers without sign in
ascending order, comparing values is comparing ranks with their signs.

## Main definitions

* `Calculator.Binary64.signedRank`: the rank of a number with its sign.
* `Calculator.Binary64.value`: the value of a number in units of `2⁻¹⁰⁷⁴`.

## Main results

* `Calculator.Binary64.lt_iff`, `Calculator.Binary64.le_iff`, `Calculator.Binary64.beq_iff`: numbers
  are compared by their ranks with signs.
* `Calculator.Binary64.not_lt_of_isNaN`, `Calculator.Binary64.not_le_of_isNaN`,
  `Calculator.Binary64.not_beq_of_isNaN`: not-a-number compares with nothing.
* `Calculator.Binary64.units_lt_units_iff`: the values of ranks ascend.
* `Calculator.Binary64.lt_iff_value`, `Calculator.Binary64.le_iff_value`: numbers are compared by
  their values.
-/

namespace Calculator.Binary64

open Float.Model Float.Model.UnpackedFloat

/-! ### Ranks with signs -/

/-- A rank with a sign. Both zeros have the same. -/
def signedRank (negative : Bool) (k : Nat) : Int := if negative then -k else k

@[simp] theorem signedRank_true (k : Nat) : signedRank true k = -k := rfl

@[simp] theorem signedRank_false (k : Nat) : signedRank false k = k := rfl

@[simp] theorem signedRank_zero (negative : Bool) : signedRank negative 0 = 0 := by
  cases negative <;> rfl

theorem signedRank_le (negative : Bool) (k : Nat) : signedRank negative k ≤ k := by
  cases negative <;> simp only [signedRank_false, signedRank_true] <;> omega

theorem neg_le_signedRank (negative : Bool) (k : Nat) : -(k : Int) ≤ signedRank negative k := by
  cases negative <;> simp only [signedRank_false, signedRank_true] <;> omega

theorem infinityRank_pos : 0 < infinityRank := by decide

theorem some_lt_eq_compare {a b : Int} (h : a < b) : some Ordering.lt = some (compare a b) := by
  rw [Int.compare_eq_lt.2 h]

theorem some_gt_eq_compare {a b : Int} (h : b < a) : some Ordering.gt = some (compare a b) := by
  rw [Int.compare_eq_gt.2 h]

theorem compare_natCast (j k : Nat) : compare (j : Int) k = compare j k := by
  rw [Int.compare_eq_ite_lt, Nat.compare_eq_ite_lt]
  simp only [Int.ofNat_lt]

theorem compare_neg_neg (a b : Int) : compare (-a) (-b) = (compare a b).swap := by
  rw [Int.compare_swap, Int.compare_eq_ite_lt, Int.compare_eq_ite_lt]
  simp only [Int.neg_lt_neg_iff]

/-- The parts of numbers without sign are compared as their ranks are: first the blocks, and in one
block the mantissas. -/
theorem compare_parts {mantissa shift mantissa' shift' : Nat} (h : AreParts mantissa shift)
    (h' : AreParts mantissa' shift') :
    (compare ((shift : Int) - 1074) (shift' - 1074)).then (compare mantissa mantissa') =
      compare (shift * blockSize + mantissa) (shift' * blockSize + mantissa') := by
  have hlt := h.mantissa_lt
  have hlt' := h'.mantissa_lt
  have hle := h.eq_zero_or_le
  have hle' := h'.eq_zero_or_le
  rw [blockSize_eq] at *
  rcases Nat.lt_trichotomy shift shift' with hshift | rfl | hshift
  · rw [Int.compare_eq_lt.2 (by omega), Ordering.lt_then, eq_comm, Nat.compare_eq_lt]
    omega
  · rw [Int.compare_eq_eq.2 rfl, Ordering.eq_then]
    rcases Nat.lt_trichotomy mantissa mantissa' with hmantissa | rfl | hmantissa
    · rw [Nat.compare_eq_lt.2 hmantissa, Nat.compare_eq_lt.2 (by omega)]
    · rw [Nat.compare_eq_eq.2 rfl, Nat.compare_eq_eq.2 rfl]
    · rw [Nat.compare_eq_gt.2 hmantissa, Nat.compare_eq_gt.2 (by omega)]
  · rw [Int.compare_eq_gt.2 (by omega), Ordering.gt_then, eq_comm, Nat.compare_eq_gt]
    omega

section

variable {v : UnpackedFloat} {b : Bool} {k : Nat}

/-- Zero is less than the positive numbers and greater than the negative ones. -/
theorem HasRank.compare_zero (h : HasRank v b k) (s : Sign) :
    UnpackedFloat.compare (.zero s) v = some (compare 0 (signedRank b k)) := by
  have hinfinity := infinityRank_pos
  cases h with
  | zero =>
    rw [signedRank_zero]
    rfl
  | finite _ hparts =>
    have hpos := hparts.mantissa_pos
    cases b
    · exact some_lt_eq_compare (by rw [signedRank_false]; omega)
    · exact some_gt_eq_compare (by rw [signedRank_true]; omega)
  | infinity =>
    cases b
    · exact some_lt_eq_compare (by rw [signedRank_false]; omega)
    · exact some_gt_eq_compare (by rw [signedRank_true]; omega)

/-- Finite numbers of one sign are compared as their parts are. -/
theorem HasRank.compare_finite (h : HasRank v b k) (a : Bool) {mantissa shift : Nat}
    (hparts : AreParts mantissa shift) (hfinite : shift * blockSize + mantissa < infinityRank) :
    UnpackedFloat.compare (.finite (signOf a) mantissa (shift - 1074) hparts.mantissa_pos) v =
      some (compare (signedRank a (shift * blockSize + mantissa)) (signedRank b k)) := by
  have hpos := hparts.mantissa_pos
  cases h with
  | zero =>
    rw [signedRank_zero]
    cases a
    · exact some_gt_eq_compare (by rw [signedRank_false]; omega)
    · exact some_lt_eq_compare (by rw [signedRank_true]; omega)
  | finite _ hparts' =>
    have hpos' := hparts'.mantissa_pos
    cases a <;> cases b
    · rw [signedRank_false, signedRank_false, compare_natCast, ← compare_parts hparts hparts']
      rfl
    · exact some_gt_eq_compare (by rw [signedRank_false, signedRank_true]; omega)
    · exact some_lt_eq_compare (by rw [signedRank_false, signedRank_true]; omega)
    · rw [signedRank_true, signedRank_true, compare_neg_neg, compare_natCast,
        ← compare_parts hparts hparts']
      rfl
  | infinity =>
    have hlt := Int.ofNat_lt.2 hfinite
    cases b
    · exact some_lt_eq_compare (Int.lt_of_le_of_lt (signedRank_le a _) hlt)
    · exact some_gt_eq_compare (Int.lt_of_lt_of_le (Int.neg_lt_neg hlt) (neg_le_signedRank a _))

/-- No number is beyond an infinity. -/
theorem HasRank.compare_infinity (h : HasRank v b k) (a : Bool) :
    UnpackedFloat.compare (.infinity (signOf a)) v =
      some (compare (signedRank a infinityRank) (signedRank b k)) := by
  have hinfinity := infinityRank_pos
  cases h with
  | zero =>
    rw [signedRank_zero]
    cases a
    · exact some_gt_eq_compare (by rw [signedRank_false]; omega)
    · exact some_lt_eq_compare (by rw [signedRank_true]; omega)
  | finite _ _ hfinite =>
    have hlt := Int.ofNat_lt.2 hfinite
    cases a
    · exact some_gt_eq_compare (Int.lt_of_le_of_lt (signedRank_le b _) hlt)
    · exact some_lt_eq_compare (Int.lt_of_lt_of_le (Int.neg_lt_neg hlt) (neg_le_signedRank b _))
  | infinity =>
    cases a <;> cases b
    · rw [Int.compare_eq_eq.2 rfl]
      rfl
    · exact some_gt_eq_compare (by rw [signedRank_false, signedRank_true]; omega)
    · exact some_lt_eq_compare (by rw [signedRank_false, signedRank_true]; omega)
    · rw [Int.compare_eq_eq.2 rfl]
      rfl

/-- Numbers are compared by their ranks with signs. -/
theorem HasRank.compare_eq {u : UnpackedFloat} {a : Bool} {j : Nat} (h : HasRank u a j)
    (h' : HasRank v b k) : u.compare v = some (compare (signedRank a j) (signedRank b k)) := by
  cases h with
  | zero =>
    rw [signedRank_zero]
    exact h'.compare_zero _
  | finite _ hparts hfinite => exact h'.compare_finite a hparts hfinite
  | infinity => exact h'.compare_infinity a

end

/-! ### Comparing numbers -/

theorem compare_unpack {x y : Float} (hx : ¬x.isNaN = true) (hy : ¬y.isNaN = true) :
    x.toModel.unpack.compare y.toModel.unpack =
      some (compare (signedRank (isNegative x) (rank x)) (signedRank (isNegative y) (rank y))) :=
  (hasRank_unpack hx).compare_eq (hasRank_unpack hy)

theorem unpack_of_isNaN {x : Float} (hx : x.isNaN = true) : x.toModel.unpack = .notANumber := by
  have h : x.toModel.unpack.isNaN = true := hx
  cases hu : x.toModel.unpack with
  | notANumber => rfl
  | infinity | zero | finite =>
    rw [hu] at h
    cases h

theorem compare_unpack_of_isNaN {x y : Float} (h : x.isNaN = true ∨ y.isNaN = true) :
    x.toModel.unpack.compare y.toModel.unpack = none := by
  rcases h with h | h
  · rw [unpack_of_isNaN h]
    rfl
  · rw [unpack_of_isNaN h]
    cases x.toModel.unpack <;> rfl

theorem lt_iff_compare {x y : Float} :
    x < y ↔ x.toModel.unpack.compare y.toModel.unpack = some .lt := by
  have h : (x < y) = (decide ((x.toModel.unpack.compare y.toModel.unpack == some .lt) = true) =
    true) := rfl
  rw [h, decide_eq_true_eq, beq_iff_eq]

theorem le_iff_compare {x y : Float} :
    x ≤ y ↔ (x.toModel.unpack.compare y.toModel.unpack).any Ordering.isLE = true := by
  have h : (x ≤ y) = (decide ((x.toModel.unpack.compare y.toModel.unpack).any Ordering.isLE =
    true) = true) := rfl
  rw [h, decide_eq_true_eq]

theorem beq_iff_compare {x y : Float} :
    (x == y) = true ↔ x.toModel.unpack.compare y.toModel.unpack = some .eq := by
  have h : (x == y) = (x.toModel.unpack.compare y.toModel.unpack == some .eq) := rfl
  rw [h, beq_iff_eq]

theorem lt_iff {x y : Float} (hx : ¬x.isNaN = true) (hy : ¬y.isNaN = true) :
    x < y ↔ signedRank (isNegative x) (rank x) < signedRank (isNegative y) (rank y) := by
  rw [lt_iff_compare, compare_unpack hx hy, Option.some_inj, Int.compare_eq_lt]

theorem le_iff {x y : Float} (hx : ¬x.isNaN = true) (hy : ¬y.isNaN = true) :
    x ≤ y ↔ signedRank (isNegative x) (rank x) ≤ signedRank (isNegative y) (rank y) := by
  rw [le_iff_compare, compare_unpack hx hy, Option.any_some, Int.isLE_compare]

theorem beq_iff {x y : Float} (hx : ¬x.isNaN = true) (hy : ¬y.isNaN = true) :
    (x == y) = true ↔ signedRank (isNegative x) (rank x) = signedRank (isNegative y) (rank y) := by
  rw [beq_iff_compare, compare_unpack hx hy, Option.some_inj, Int.compare_eq_eq]

theorem not_lt_of_isNaN {x y : Float} (h : x.isNaN = true ∨ y.isNaN = true) : ¬x < y := by
  rw [lt_iff_compare, compare_unpack_of_isNaN h]
  exact nofun

theorem not_le_of_isNaN {x y : Float} (h : x.isNaN = true ∨ y.isNaN = true) : ¬x ≤ y := by
  rw [le_iff_compare, compare_unpack_of_isNaN h]
  exact nofun

theorem not_beq_of_isNaN {x y : Float} (h : x.isNaN = true ∨ y.isNaN = true) :
    ¬(x == y) = true := by
  rw [beq_iff_compare, compare_unpack_of_isNaN h]
  exact nofun

/-! ### Values -/

/-- Every rank but that of zero has a mantissa and a block. -/
theorem exists_parts {k : Nat} (hk : k ≠ 0) :
    ∃ mantissa shift, AreParts mantissa shift ∧ k = shift * blockSize + mantissa := by
  have hpos : 0 < blockSize := by decide
  by_cases hsmall : k < blockSize
  · exact ⟨k, 0, ⟨by omega, by omega, .inl rfl⟩, by omega⟩
  · have hmod := Nat.mod_lt k hpos
    have hdiv := Nat.div_add_mod k blockSize
    have hquotient : 1 ≤ k / blockSize :=
      (Nat.one_le_div_iff hpos).2 (Nat.le_of_not_lt hsmall)
    refine ⟨blockSize + k % blockSize, k / blockSize - 1, ⟨by omega, by omega, .inr (by omega)⟩, ?_⟩
    rw [← Nat.add_assoc, ← Nat.succ_mul, Nat.succ_eq_add_one, Nat.sub_add_cancel hquotient,
      Nat.mul_comm, hdiv]

/-- Two numbers that follow each other differ in the last digit of the mantissa. -/
theorem units_succ_parts {mantissa shift : Nat} (h : AreParts mantissa shift) :
    units (shift * blockSize + mantissa + 1) = (mantissa + 1) * 2 ^ shift := by
  have hlt := h.mantissa_lt
  by_cases hcarry : mantissa + 1 = 2 * blockSize
  · -- The successor is the least number of the next block.
    have hparts : AreParts blockSize (shift + 1) :=
      ⟨by decide, by omega, .inr (Nat.le_refl _)⟩
    have hsum : shift * blockSize + mantissa + 1 = (shift + 1) * blockSize + blockSize := by
      rw [Nat.succ_mul]
      omega
    rw [hsum, units_parts hparts, hcarry, Nat.pow_succ, Nat.mul_comm 2, Nat.mul_assoc,
      Nat.mul_comm 2]
  · have hparts : AreParts (mantissa + 1) shift :=
      ⟨Nat.succ_pos _, by omega, h.eq_zero_or_le.imp_right Nat.le_succ_of_le⟩
    rw [Nat.add_assoc, units_parts hparts]

theorem units_lt_units_succ (k : Nat) : units k < units (k + 1) := by
  by_cases hk : k = 0
  · rw [hk]
    decide
  · obtain ⟨mantissa, shift, hparts, rfl⟩ := exists_parts hk
    rw [units_parts hparts, units_succ_parts hparts]
    exact Nat.mul_lt_mul_of_pos_right (Nat.lt_succ_self _) (Nat.two_pow_pos _)

theorem units_lt_units {j k : Nat} (h : j < k) : units j < units k := by
  induction h with
  | refl => exact units_lt_units_succ j
  | step _ ih => exact Nat.lt_trans ih (units_lt_units_succ _)

/-- The values of ranks ascend. -/
theorem units_lt_units_iff {j k : Nat} : units j < units k ↔ j < k := by
  refine ⟨fun h => Nat.lt_of_not_le fun hle => ?_, units_lt_units⟩
  rcases Nat.eq_or_lt_of_le hle with rfl | hlt
  · exact Nat.lt_irrefl _ h
  · exact Nat.lt_asymm h (units_lt_units hlt)

theorem units_le_units_iff {j k : Nat} : units j ≤ units k ↔ j ≤ k := by
  rw [← Nat.not_lt, units_lt_units_iff, Nat.not_lt]

theorem units_zero : units 0 = 0 := by decide

/-- The value of a number in units of `2⁻¹⁰⁷⁴`. Infinity counts as the number that would follow the
greatest finite one. -/
def value (x : Float) : Int := signedRank (isNegative x) (units (rank x))

/-- Values with signs are ordered as ranks with signs are. -/
theorem signedRank_units_lt_iff {a b : Bool} {j k : Nat} :
    signedRank a (units j) < signedRank b (units k) ↔ signedRank a j < signedRank b k := by
  have hlt := @units_lt_units_iff j k
  have hlt' := @units_lt_units_iff k j
  have hj := @units_lt_units_iff 0 j
  have hk := @units_lt_units_iff 0 k
  rw [units_zero] at hj hk
  cases a <;> cases b <;> simp only [signedRank_false, signedRank_true] <;> omega

theorem signedRank_units_eq {a b : Bool} {j k : Nat} (h : signedRank a j = signedRank b k) :
    signedRank a (units j) = signedRank b (units k) := by
  have hlt := @signedRank_units_lt_iff a b j k
  have hlt' := @signedRank_units_lt_iff b a k j
  omega

theorem lt_iff_value {x y : Float} (hx : ¬x.isNaN = true) (hy : ¬y.isNaN = true) :
    x < y ↔ value x < value y := by
  rw [lt_iff hx hy, value, value, signedRank_units_lt_iff]

theorem le_iff_value {x y : Float} (hx : ¬x.isNaN = true) (hy : ¬y.isNaN = true) :
    x ≤ y ↔ value x ≤ value y := by
  rw [le_iff hx hy, value, value, ← Int.not_lt, ← Int.not_lt, signedRank_units_lt_iff]

end Calculator.Binary64
