import Calculator.Number.Binary64
import Calculator.Number.Shortest

/-!
# Rounding gives a number back to itself

The rank nearest to the value of a number is the rank of that number, in whatever units the value
is written. So the shortest fraction of a number, which was found by trying which fractions round to
it, does round to it; and where none of the short ones does, the exact value does.

## Main results

* `Calculator.Binary64.nearestRank_mul`: rounding a quotient depends on the quotient alone.
* `Calculator.Binary64.nearestRank_units_mul`: the value of a number rounds to that number.
* `Calculator.Number.nearestRank_shortest`: the shortest fraction of a number rounds to it.
-/

namespace Calculator

namespace Binary64

/-- Rounding a quotient depends on the quotient alone. -/
theorem roundDiv_mul (n d : Nat) {c : Nat} (hc : 0 < c) :
    roundDiv (n * c) (d * c) = roundDiv n d := by
  have hmul : 2 * (n % d * c) = 2 * (n % d) * c := by rw [Nat.mul_assoc]
  have hlt : 2 * (n % d) * c < d * c ↔ 2 * (n % d) < d := Nat.mul_lt_mul_right hc
  have heq : 2 * (n % d) * c = d * c ↔ 2 * (n % d) = d := Nat.mul_left_inj (Nat.ne_of_gt hc)
  rw [roundDiv, roundDiv, Nat.mul_mod_mul_right, Nat.mul_div_mul_right _ _ hc]
  simp only [hmul, hlt, heq]

/-- Rounding a quotient to a number depends on the quotient alone. -/
theorem nearestRank_mul (n d : Nat) {c : Nat} (hc : 0 < c) :
    nearestRank (n * c) (d * c) = nearestRank n d := by
  have hshift (s : Nat) : (d * c) <<< s = (d <<< s) * c := by
    rw [Nat.shiftLeft_eq, Nat.shiftLeft_eq, Nat.mul_right_comm]
  rw [nearestRank, nearestRank, Nat.mul_div_mul_right _ _ hc]
  simp only [hshift, roundDiv_mul _ _ hc]

/-- A quotient without remainder needs no rounding. -/
theorem roundDiv_mul_left (n : Nat) {d : Nat} (hd : 0 < d) : roundDiv (n * d) d = n := by
  rw [roundDiv, Nat.mul_mod_left, Nat.mul_div_cancel _ hd, if_pos (.inl (by omega))]

/-- The block of a number follows from the length of its value. -/
theorem log2_units {k : Nat} (hk : blockSize ≤ k) :
    (units k).log2 = 52 + (k / blockSize - 1) := by
  have hlt := Nat.mod_lt k (show 0 < blockSize by decide)
  have hvalue : units k = (blockSize + k % blockSize) <<< (k / blockSize - 1) := by
    rw [units, if_neg (Nat.not_lt.2 hk)]
  have hlog : (blockSize + k % blockSize).log2 = 52 := by
    rw [Nat.log2_eq_iff (by omega)]
    have hsize : blockSize = 4503599627370496 := rfl
    omega
  rw [hvalue]
  generalize blockSize + k % blockSize = m at hlog
  generalize k / blockSize - 1 = s
  have hm : m ≠ 0 := by
    rintro rfl
    cases hlog
  rw [Nat.log2_eq_iff hm] at hlog
  have hpos := Nat.two_pow_pos s
  rw [Nat.shiftLeft_eq, Nat.log2_eq_iff (Nat.mul_ne_zero hm (Nat.ne_of_gt hpos)),
    Nat.add_right_comm, Nat.pow_add, Nat.pow_add]
  exact ⟨Nat.mul_le_mul_right _ hlog.1, Nat.mul_lt_mul_of_pos_right hlog.2 hpos⟩

/-- The value of a number rounds to that number. -/
theorem nearestRank_units {k : Nat} (hk : k ≤ infinityRank) : nearestRank (units k) 1 = k := by
  rw [nearestRank, Nat.div_one]
  by_cases hsmall : k < blockSize
  · have hvalue : units k = k := if_pos hsmall
    have hblock : k.log2 - 52 = 0 := by
      by_cases hzero : k = 0
      · rw [hzero]
        rfl
      · have hlog : k.log2 < 52 := (Nat.log2_lt hzero).2 hsmall
        omega
    have hround : roundDiv k 1 = k := by
      simpa using roundDiv_mul_left k Nat.one_pos
    simp only [hvalue, hblock, Nat.zero_mul, Nat.zero_add, Nat.shiftLeft_zero, hround]
    exact Nat.min_eq_left hk
  · have hlarge := Nat.le_of_not_lt hsmall
    have hvalue : units k = (blockSize + k % blockSize) * (1 <<< (k / blockSize - 1)) := by
      rw [units, if_neg hsmall, Nat.shiftLeft_eq, Nat.shiftLeft_eq, Nat.one_mul]
    have hpos : 0 < 1 <<< (k / blockSize - 1) := by
      rw [Nat.shiftLeft_eq, Nat.one_mul]
      exact Nat.two_pow_pos _
    have hround : roundDiv (units k) (1 <<< (k / blockSize - 1)) = blockSize + k % blockSize := by
      rw [hvalue, roundDiv_mul_left _ hpos]
    have hquotient : 1 ≤ k / blockSize :=
      (Nat.one_le_div_iff (by decide)).2 hlarge
    have hsum : (k / blockSize - 1) * blockSize + (blockSize + k % blockSize) = k := by
      have hdiv := Nat.div_add_mod k blockSize
      have hstep : (k / blockSize - 1) * blockSize + blockSize = blockSize * (k / blockSize) := by
        rw [← Nat.succ_mul, Nat.succ_eq_add_one, Nat.sub_add_cancel hquotient, Nat.mul_comm]
      omega
    have hblock : (units k).log2 - 52 = k / blockSize - 1 := by
      rw [log2_units hlarge]
      omega
    simp only [hblock, hround, hsum]
    exact Nat.min_eq_left hk

/-- The value of a number, in whatever units, rounds to that number. -/
theorem nearestRank_units_mul {k c : Nat} (hk : k ≤ infinityRank) (hc : 0 < c) :
    nearestRank (units k * c) c = k := by
  have hscaled := nearestRank_mul (units k) 1 hc
  rw [Nat.one_mul] at hscaled
  rw [hscaled, nearestRank_units hk]

end Binary64

/-! ### Decimal fractions -/

theorem powerOfTen_pos (k : Nat) : 0 < powerOfTen k :=
  Nat.lt_of_le_of_lt (Nat.zero_le k) (lt_powerOfTen k)

namespace Decimal

/-- A final zero after the point does not change a fraction. -/
theorem nearestRank_append_zero (digits scale : Nat) :
    nearestRank ⟨digits * 10, scale + 1⟩ = nearestRank ⟨digits, scale⟩ := by
  have hscaled := Binary64.nearestRank_mul (digits * Binary64.unitsPerOne) (powerOfTen scale)
    (show 0 < 10 by decide)
  rw [Nat.mul_right_comm] at hscaled
  exact hscaled

/-- A fraction without its final zeros is the same fraction. -/
theorem nearestRank_strip (digits scale : Nat) :
    (strip digits scale).nearestRank = nearestRank ⟨digits, scale⟩ := by
  fun_induction strip digits scale with
  | case1 => rfl
  | case2 digits scale hzero ih =>
    rw [ih, ← nearestRank_append_zero, Nat.div_mul_cancel (Nat.dvd_of_mod_eq_zero hzero)]
  | case3 => rfl

end Decimal

namespace Number

/-- The units of one divide the power of ten that makes every number whole. -/
theorem powerOfTen_exactScale :
    powerOfTen exactScale / Binary64.unitsPerOne * Binary64.unitsPerOne =
      powerOfTen exactScale := by
  decide +kernel

/-- The exact value of a number rounds to it. -/
theorem nearestRank_exactDigits {k : Nat} (hk : k ≤ Binary64.infinityRank) :
    Decimal.nearestRank ⟨exactDigits k, exactScale⟩ = k := by
  rw [Decimal.nearestRank, exactDigits, Nat.mul_assoc, powerOfTen_exactScale]
  exact Binary64.nearestRank_units_mul hk (powerOfTen_pos exactScale)

/-- The shortest fraction of a number rounds to it. -/
theorem nearestRank_shortest {k : Nat} (hk : k ≤ Binary64.infinityRank) :
    (shortest k).nearestRank = k := by
  unfold shortest
  extract_lets digits count readsBack
  cases hfind : (List.range 17).findSome? fun i =>
      (neighbours digits (count - (i + 1))).find? readsBack with
  | none =>
    rw [Option.getD_none, Decimal.nearestRank_strip]
    exact nearestRank_exactDigits hk
  | some d =>
    obtain ⟨i, _, hi⟩ := List.exists_of_findSome?_eq_some hfind
    have hreads : readsBack d = true := List.find?_some hi
    rw [Option.getD_some]
    exact eq_of_beq hreads

end Number

end Calculator
