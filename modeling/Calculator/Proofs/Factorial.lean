import Calculator.Factorial
import Calculator.Proofs.Number.Sum

/-!
# The control flow of factorials

The factorial of a number is found on one of four routes, and gamma on one of four others. Which
route is taken is decided by comparing rounded numbers. This file shows that the rounding never
leads to a wrong route: the product loop runs over the whole numbers up to its operand and stops, an
operand that is not whole is not rounded onto a pole of gamma, and a reflected number is not
reflected again.

## Main definitions

* `Calculator.Gamma.Route`, `Calculator.Gamma.route`: how gamma is found at a number.
* `Calculator.Factorial.Route`, `Calculator.Factorial.route`: how the factorial of a number is
  found.
* `Calculator.Factorial.Loop`: the product loop with its number of passes.

## Main results

* `Calculator.Gamma.step_eq_answer`, `Calculator.Factorial.factorial_eq_answer`: the routes lead to
  the values.
* `Calculator.Factorial.control_flow_is_safe`: no route is taken for a rounding error.
-/

namespace Calculator

open Binary64

/-! ### Routes -/

namespace Gamma

/-- How gamma is found at a number. -/
inductive Route
  /-- There is no value. -/
  | pole
  /-- The value exceeds all finite numbers. -/
  | overflow
  /-- Gamma is called once more, at the reflected number. -/
  | reflection (mirror : Float)
  /-- The series is summed. -/
  | series
  deriving DecidableEq

/-- The route of gamma at `z`. -/
def route (z : Float) : Route :=
  if isPole z then .pole
  else if finiteLimit < z then .overflow
  else if z < 0.5 then .reflection (1 - z)
  else .series

/-- What gamma is at `z`, where `mirrored` gives gamma at the reflected number. -/
def Route.answer (mirrored : Float → Float) (z : Float) : Route → Float
  | .pole => Elementary.nan
  | .overflow => Elementary.infinity
  | .reflection mirror => Elementary.pi / ((Elementary.pi * z).sin * mirrored mirror)
  | .series => right z

/-- The route leads to the value. -/
theorem step_eq_answer (mirrored : Float → Float) (z : Float) :
    step mirrored z = (route z).answer mirrored z := by
  rw [step, route]
  split
  · rfl
  split
  · rfl
  split <;> rfl

end Gamma

namespace Factorial

/-- How the factorial of a number is found. -/
inductive Route
  /-- There is no value. -/
  | undefined
  /-- The value exceeds all finite numbers. -/
  | overflow
  /-- Gamma is called. -/
  | gamma (z : Float)
  /-- The product loop is run. -/
  | product
  deriving DecidableEq

/-- The route of the factorial of `x`. -/
def route (x : Float) : Route :=
  if x.isNaN then .undefined
  else if x.isInf then (if x < 0 then .undefined else .overflow)
  else if !isIntegral x then .gamma (x + 1)
  else if x < 0 then .undefined
  else if greatest.toFloat < x then .overflow
  else .product

/-- What the factorial of `x` is. -/
def Route.answer (x : Float) : Route → Float
  | .undefined => Elementary.nan
  | .overflow => Elementary.infinity
  | .gamma z => Calculator.gamma z
  | .product => Factorial.product x greatest 2 1

/-- The route leads to the value. -/
theorem factorial_eq_answer (x : Float) : factorial x = (route x).answer x := by
  rw [factorial, route]
  repeat' split
  all_goals rfl

/-- The loop that multiplies `result` by `k`, `k + 1` and so on while they are at most `x` stops
after that many passes, with the answer. -/
inductive Loop (x : Float) : (passes : Nat) → (k result answer : Float) → Prop
  | stop {k result : Float} (hstop : ¬k ≤ x) : Loop x 0 k result result
  | pass {passes : Nat} {k result answer : Float} (hpass : k ≤ x)
      (rest : Loop x passes (k + 1) (result * k) answer) : Loop x (passes + 1) k result answer

/-- A product that has steps enough for the loop is the answer of the loop. -/
theorem Loop.product_eq {x : Float} {passes : Nat} {k result answer : Float}
    (h : Loop x passes k result answer) {steps : Nat} (hsteps : passes ≤ steps) :
    product x steps k result = answer := by
  induction h generalizing steps with
  | stop hstop =>
    cases steps with
    | zero => rfl
    | succ steps => exact if_neg hstop
  | pass hpass _ ih =>
    obtain ⟨steps, rfl⟩ := Nat.exists_eq_succ_of_ne_zero (n := steps) (by omega)
    rw [product, if_pos hpass, ih (Nat.le_of_succ_le_succ hsteps)]

end Factorial

/-! ### Whole numbers -/

theorem isIntegral_iff {x : Float} :
    isIntegral x = true ↔ x.isFinite = true ∧ units (rank x) % unitsPerOne = 0 := by
  rw [isIntegral, Bool.and_eq_true, beq_iff_eq]

theorem natAbs_value (x : Float) : (value x).natAbs = units (rank x) := natAbs_signedRank _ _

theorem value_one : value 1 = unitsPerOne := by decide +kernel

theorem isFinite_one : (1 : Float).isFinite = true := by decide +kernel

theorem unitsPerOne_eq : unitsPerOne = 2 ^ 1074 := by decide +kernel

/-- A number with a whole value that is not too great is finite. -/
theorem isFinite_of_value_eq {x : Float} {n : Nat} (hx : value x = n * unitsPerOne)
    (hn : n < 2 * blockSize) : x.isFinite = true := by
  have hunits : units (rank x) = n * unitsPerOne := by
    rw [← natAbs_value, hx, Int.natAbs_mul, Int.natAbs_natCast, Int.natAbs_natCast]
  rw [isFinite_iff, ← units_lt_units_iff, hunits]
  calc n * unitsPerOne < 2 * blockSize * unitsPerOne :=
        Nat.mul_lt_mul_of_pos_right hn (by decide +kernel)
    _ ≤ units infinityRank := by decide +kernel

/-- Adding one to a whole number that is not too great is exact. -/
theorem value_add_one {x : Float} {n : Nat} (hx : value x = n * unitsPerOne)
    (hn : n + 1 < 2 * blockSize) : value (x + 1) = (n + 1 : Nat) * unitsPerOne := by
  have hsum := signedRank_add (isFinite_of_value_eq hx (Nat.lt_of_succ_lt hn)) isFinite_one
  have hvalue : value x + value 1 = (n + 1 : Nat) * unitsPerOne := by
    rw [hx, value_one, Int.natCast_succ, Int.add_mul, Int.one_mul]
  rw [hvalue] at hsum
  refine value_of_eq_nearest hsum ?_ hn (show 1074 ≤ 2045 by decide)
  rw [Int.natAbs_mul, Int.natAbs_natCast, Int.natAbs_natCast, unitsPerOne_eq]

theorem le_iff_of_value_eq {x y : Float} {m n : Nat} (hx : value x = m * unitsPerOne)
    (hy : value y = n * unitsPerOne) (hm : m < 2 * blockSize) (hn : n < 2 * blockSize) :
    x ≤ y ↔ m ≤ n := by
  have hpos : (0 : Int) < unitsPerOne := by decide +kernel
  rw [le_iff_value (not_isNaN_of_isFinite (isFinite_of_value_eq hx hm))
    (not_isNaN_of_isFinite (isFinite_of_value_eq hy hn)), hx, hy, Int.mul_le_mul_right hpos,
    Int.ofNat_le]

namespace Factorial

/-- From a whole number `m` on, the loop passes through the whole numbers up to `n`. -/
theorem exists_loop {x : Float} {n : Nat} (hx : value x = n * unitsPerOne)
    (hn : n + 2 < 2 * blockSize) (passes : Nat) {k : Float} {m : Nat}
    (hk : value k = m * unitsPerOne) (hm : m ≤ n + 2) (hpasses : passes = n + 1 - m)
    (result : Float) : ∃ answer, Loop x passes k result answer := by
  have hle := le_iff_of_value_eq hk hx (by omega) (by omega)
  induction passes generalizing k m result with
  | zero => exact ⟨result, .stop (by rw [hle]; omega)⟩
  | succ passes ih =>
    have hk' := value_add_one hk (by omega)
    obtain ⟨answer, hloop⟩ := ih hk' (by omega) (by omega) (result * k)
      (le_iff_of_value_eq hk' hx (by omega) (by omega))
    exact ⟨answer, .pass (by rw [hle]; omega) hloop⟩

/-- A whole number has a whole value. -/
theorem exists_value_eq {x : Float} (hwhole : isIntegral x = true) (hlow : 0 ≤ value x) :
    ∃ n : Nat, value x = n * unitsPerOne := by
  obtain ⟨n, hn⟩ := Nat.dvd_of_mod_eq_zero (isIntegral_iff.1 hwhole).2
  have habs := natAbs_value x
  refine ⟨n, ?_⟩
  rw [← Int.natCast_mul, Nat.mul_comm n, ← hn]
  omega

/-- The product loop is run at the whole numbers from `0` to `170`. -/
theorem route_eq_product_iff {x : Float} :
    route x = .product ↔ isIntegral x = true ∧ 0 ≤ x ∧ x ≤ 170 := by
  have hgreatest : greatest.toFloat = 170 := by decide +kernel
  by_cases hwhole : isIntegral x = true
  · have hfinite := (isIntegral_iff.1 hwhole).1
    have hnan := not_isNaN_of_isFinite hfinite
    have hinf : ¬x.isInf = true := fun h => (isInf_iff_not_isFinite hnan).1 h hfinite
    have hlow : ¬x < 0 ↔ 0 ≤ x := by
      rw [lt_iff hnan (by decide +kernel), le_iff (by decide +kernel) hnan, Int.not_lt]
    have hhigh : ¬170 < x ↔ x ≤ 170 := by
      rw [lt_iff (by decide +kernel) hnan, le_iff hnan (by decide +kernel), Int.not_lt]
    rw [route, if_neg hnan, if_neg hinf, if_neg (by simpa using hwhole), hgreatest, ← hlow, ← hhigh]
    constructor
    · intro h
      split at h
      · cases h
      next hlow =>
        split at h
        · cases h
        next hhigh => exact ⟨hwhole, hlow, hhigh⟩
    · rintro ⟨-, hlow, hhigh⟩
      rw [if_neg hlow, if_neg hhigh]
  · refine iff_of_false (fun h => ?_) (fun h => hwhole h.1)
    rw [Bool.not_eq_true] at hwhole
    rw [route, hwhole] at h
    split at h
    · cases h
    split at h
    · split at h <;> cases h
    · cases h

/-- The loop at a whole number from `0` to `170` stops after the passes that the number requires,
and its answer is the factorial. -/
theorem exists_loop_factorial {x : Float} (h : route x = .product) :
    ∃ n : Nat, n ≤ greatest ∧ value x = n * unitsPerOne ∧ Loop x (n - 1) 2 1 (factorial x) := by
  obtain ⟨hwhole, hlow, hhigh⟩ := route_eq_product_iff.1 h
  have hnan := not_isNaN_of_isFinite (isIntegral_iff.1 hwhole).1
  have hzero : value 0 = 0 := by decide +kernel
  have htwo : value 2 = (2 : Nat) * unitsPerOne := by decide +kernel
  have hgreatest : value 170 = greatest * unitsPerOne := by decide +kernel
  rw [le_iff_value (by decide +kernel) hnan, hzero] at hlow
  rw [le_iff_value hnan (by decide +kernel), hgreatest] at hhigh
  obtain ⟨n, hn⟩ := exists_value_eq hwhole hlow
  have hle : n ≤ greatest := by
    rw [hn] at hhigh
    exact Int.ofNat_le.1 (Int.le_of_mul_le_mul_right hhigh (by decide +kernel))
  have hsize : greatest + 2 < 2 * blockSize := by decide
  obtain ⟨answer, hloop⟩ := exists_loop hn (by omega) (n - 1) htwo (by omega) (by omega) 1
  refine ⟨n, hle, hn, ?_⟩
  rw [factorial_eq_answer, h]
  rwa [Route.answer, hloop.product_eq (by omega)]

/-- A finite number that is not whole takes the route through gamma. -/
theorem route_of_not_isIntegral {x : Float} (hx : x.isFinite = true)
    (hwhole : ¬isIntegral x = true) : route x = .gamma (x + 1) := by
  have hnan := not_isNaN_of_isFinite hx
  have hinf : ¬x.isInf = true := fun h => (isInf_iff_not_isFinite hnan).1 h hx
  rw [route, if_neg hnan, if_neg hinf, if_pos (by simpa using hwhole)]

end Factorial

/-! ### Numbers that are not whole -/

theorem isPole_eq_false {z : Float} (hz : ¬z.isNaN = true) (h : ¬(z ≤ 0 ∧ isIntegral z = true)) :
    Gamma.isPole z = false := by
  rw [← Bool.not_eq_true, Gamma.isPole, Bool.or_eq_true, Bool.and_eq_true, decide_eq_true_eq]
  exact not_or.2 ⟨hz, h⟩

theorem not_le_zero_of_pos {z : Float} (hz : ¬z.isNaN = true)
    (hpos : 0 < signedRank (isNegative z) (rank z)) : ¬z ≤ 0 := by
  have hzero : signedRank (isNegative 0) (rank 0) = 0 := by decide +kernel
  rw [le_iff hz (by decide +kernel), hzero]
  exact Int.not_le.2 hpos

/-- Adding one to a number that is not whole does not round it onto a pole of gamma. -/
theorem not_isPole_add_one {x : Float} (hx : x.isFinite = true) (hwhole : ¬isIntegral x = true) :
    ¬(x + 1 ≤ 0 ∧ isIntegral (x + 1) = true) := by
  have hone := unitsPerOne_eq
  have hmod : ¬units (rank x) % unitsPerOne = 0 := fun h => hwhole (isIntegral_iff.2 ⟨hx, h⟩)
  have hsum := signedRank_add hx isFinite_one
  rw [value_one] at hsum
  have habs := natAbs_value x
  rcases Int.lt_trichotomy (value x + unitsPerOne) 0 with hneg | hzero | hpos
  · -- Below minus one the sum is shorter than the number, so that it is exact.
    rintro ⟨-, hz⟩
    obtain ⟨-, hz⟩ := isIntegral_iff.1 hz
    have hlt : unitsPerOne < units (rank x) := by omega
    obtain ⟨mantissa, shift, hparts, hrank⟩ := exists_parts (k := rank x) (by
      intro h
      rw [h, units_zero] at hlt
      omega)
    have hunits := units_parts hparts
    rw [← hrank] at hunits
    have hshift : shift < 1074 := by
      refine Nat.lt_of_not_le fun hle => hmod ?_
      rw [hunits, hone, ← Nat.sub_add_cancel hle, Nat.pow_add, ← Nat.mul_assoc, Nat.mul_mod_left]
    have hunit : unitsPerOne = 2 ^ (1074 - shift) * 2 ^ shift := by
      rw [hone, ← Nat.pow_add, Nat.sub_add_cancel (Nat.le_of_lt hshift)]
    have hdiff : (value x + unitsPerOne).natAbs = (mantissa - 2 ^ (1074 - shift)) * 2 ^ shift := by
      rw [Nat.sub_mul, ← hunit, ← hunits]
      omega
    have hvalue := value_of_eq_nearest hsum hdiff
      (Nat.lt_of_le_of_lt (Nat.sub_le _ _) hparts.mantissa_lt) (by omega)
    have hrest : units (rank (x + 1)) + unitsPerOne = units (rank x) := by
      rw [← natAbs_value (x + 1), hvalue]
      omega
    rw [← hrest, Nat.add_mod_right] at hmod
    exact hmod hz
  · have hunits : units (rank x) = unitsPerOne := by omega
    rw [hunits, Nat.mod_self] at hmod
    exact absurd rfl hmod
  · -- Above minus one the sum is positive, and so is the number that it is rounded to.
    rintro ⟨hle, -⟩
    refine not_le_zero_of_pos (not_isNaN_of_eq_nearest hsum) ?_ hle
    have hnat : value x + unitsPerOne = ((value x + unitsPerOne).natAbs : Int) := by omega
    have hleast : units 1 ≤ (value x + unitsPerOne).natAbs := by
      have hunits : units 1 = 1 := by decide
      rw [hunits]
      omega
    have hnearest := le_nearest (show 1 ≤ infinityRank by decide) hleast
    rw [hsum, hnat]
    exact Int.lt_of_lt_of_le (by decide) hnearest

/-- The reflection of a number to the left of one half is not to the left of one half. -/
theorem half_le_one_sub {z : Float} (hz : z < 0.5) : 0.5 ≤ 1 - z ∧ ¬1 - z ≤ 0 := by
  have hnan : ¬z.isNaN = true := fun h => not_lt_of_isNaN (.inl h) hz
  have hhalf : value 0.5 = units (rank 0.5) := by decide +kernel
  have hunit : units (rank 0.5) + units (rank 0.5) = unitsPerOne := by decide +kernel
  have hle : rank 0.5 ≤ infinityRank := by decide +kernel
  have hrank : signedRank (isNegative 0.5) (rank 0.5) = rank 0.5 := by decide +kernel
  have hpos : 0 < rank 0.5 := by decide +kernel
  have hnanHalf : ¬(0.5 : Float).isNaN = true := by decide +kernel
  have hlt := (lt_iff_value hnan hnanHalf).1 hz
  rw [hhalf] at hlt
  by_cases hfinite : z.isFinite = true
  · have hdiff := signedRank_sub isFinite_one hfinite
    rw [value_one] at hdiff
    have hnat : unitsPerOne - value z = ((unitsPerOne - value z).natAbs : Int) := by omega
    have hnearest := le_nearest (n := (unitsPerOne - value z).natAbs) hle (by omega)
    rw [← hnat, ← hdiff] at hnearest
    have hnan' := not_isNaN_of_eq_nearest hdiff
    refine ⟨?_, not_le_zero_of_pos hnan' (by omega)⟩
    rw [le_iff hnanHalf hnan', hrank]
    exact hnearest
  · -- The only infinity to the left of one half is the negative one.
    have hinfinite := isInf_iff.1 ((isInf_iff_not_isFinite hnan).2 hfinite)
    have hsign : isNegative z = true := by
      by_cases hsign : isNegative z = true
      · exact hsign
      · rw [Bool.not_eq_true] at hsign
        rw [value, hsign, signedRank_false, hinfinite, Int.ofNat_lt, units_lt_units_iff] at hlt
        exact absurd hle (Nat.not_le.2 hlt)
    rw [← ofRank_rank z, hsign, hinfinite]
    decide +kernel

/-! ### Gamma -/

namespace Gamma

theorem route_eq_pole_iff {z : Float} : route z = .pole ↔ isPole z = true := by
  rw [route]
  constructor
  · intro h
    split at h
    next hpole => exact hpole
    split at h
    · cases h
    split at h <;> cases h
  · exact fun hpole => if_pos hpole

theorem of_route_eq_reflection {z mirror : Float} (h : route z = .reflection mirror) :
    z < 0.5 ∧ mirror = 1 - z := by
  rw [route] at h
  split at h
  · cases h
  split at h
  · cases h
  split at h
  next hlt => exact ⟨hlt, (Route.reflection.inj h).symm⟩
  · cases h

/-- A reflected number is not reflected again. -/
theorem route_one_sub_ne_reflection {z : Float} (hz : z < 0.5) (mirror : Float) :
    route (1 - z) ≠ .reflection mirror := by
  intro h
  have hnan : ∀ x : Float, x < 0.5 → ¬x.isNaN = true := fun x hx h => not_lt_of_isNaN (.inl h) hx
  have hlt := (of_route_eq_reflection h).1
  have hle := (half_le_one_sub hz).1
  rw [lt_iff (hnan _ hlt) (by decide +kernel)] at hlt
  rw [le_iff (by decide +kernel) (hnan _ (of_route_eq_reflection h).1)] at hle
  exact Int.not_lt.2 hle hlt

/-- What gamma would be at a number that is reflected twice does not matter. -/
theorem step_step (mirrored : Float → Float) (z : Float) :
    step (step mirrored) z = gamma z := by
  rw [gamma, step_eq_answer, step_eq_answer]
  cases h : route z with
  -- These answers do not use the functions that are handed on; `rfl` would unfold both.
  | pole | overflow | series => simp only [Route.answer]
  | reflection mirror =>
    obtain ⟨hz, rfl⟩ := of_route_eq_reflection h
    simp only [Route.answer, step_eq_answer]
    cases h' : route (1 - z) with
    | pole | overflow | series => dsimp only
    | reflection mirror => exact absurd h' (route_one_sub_ne_reflection hz mirror)

/-- Gamma calls itself. -/
theorem gamma_eq_answer (z : Float) : gamma z = (route z).answer gamma z := by
  rw [← step_eq_answer, ← step_step (step fun _ => Elementary.nan)]
  rfl

end Gamma

/-! ### The control flow -/

/-- For all numbers, the control flow of the factorial is safe. The product loop is run at the whole
numbers from `0` to `170` alone, where it stops after one pass less than the number says, and after
none at zero. A finite number that is not whole is not rounded onto a pole of gamma. The reflection
of a number to the left of one half is neither to the left of one half nor a pole, so that gamma
calls itself at most once. -/
theorem Factorial.control_flow_is_safe :
    (∀ x, factorial x = (Factorial.route x).answer x ∧
      (Factorial.route x = .product ↔ isIntegral x = true ∧ 0 ≤ x ∧ x ≤ 170) ∧
      (Factorial.route x = .product → ∃ n : Nat, n ≤ Factorial.greatest ∧
        value x = n * unitsPerOne ∧ Factorial.Loop x (n - 1) 2 1 (factorial x)) ∧
      (x.isFinite = true → ¬isIntegral x = true →
        Factorial.route x = .gamma (x + 1) ∧ ¬(x + 1 ≤ 0 ∧ isIntegral (x + 1) = true) ∧
          Gamma.route (x + 1) ≠ .pole)) ∧
    ∀ z, gamma z = (Gamma.route z).answer gamma z ∧
      (z < 0.5 → 0.5 ≤ 1 - z ∧ Gamma.isPole (1 - z) = false) ∧
      ∀ mirror, Gamma.route z = .reflection mirror →
        mirror = 1 - z ∧ ∀ mirror', Gamma.route mirror ≠ .reflection mirror' := by
  refine ⟨fun x => ⟨Factorial.factorial_eq_answer x, Factorial.route_eq_product_iff,
    Factorial.exists_loop_factorial, fun hx hwhole => ?_⟩, fun z => ⟨Gamma.gamma_eq_answer z,
      fun hz => ?_, fun mirror h => ?_⟩⟩
  · have hpole := not_isPole_add_one hx hwhole
    have hnan := not_isNaN_of_eq_nearest (signedRank_add hx isFinite_one)
    refine ⟨Factorial.route_of_not_isIntegral hx hwhole, hpole, ?_⟩
    rw [Ne, Gamma.route_eq_pole_iff, isPole_eq_false hnan hpole]
    exact Bool.false_ne_true
  · obtain ⟨hle, hpos⟩ := half_le_one_sub hz
    refine ⟨hle, isPole_eq_false (fun h => not_le_of_isNaN (.inr h) hle) fun h => hpos h.1⟩
  · obtain ⟨hz, rfl⟩ := Gamma.of_route_eq_reflection h
    exact ⟨rfl, Gamma.route_one_sub_ne_reflection hz⟩

/-- The factorial of five, that of the number next to minus one, and gamma to the left of one
half. -/
theorem Factorial.control_flow_is_safe_next_to_pole :
    (∃ n : Nat, n ≤ Factorial.greatest ∧ value 5 = n * unitsPerOne ∧
      Factorial.Loop 5 (n - 1) 2 1 (factorial 5)) ∧
    (Factorial.route (-0.9999999999999999) = .gamma (-0.9999999999999999 + 1) ∧
      ¬(-0.9999999999999999 + 1 ≤ (0 : Float) ∧
        isIntegral (-0.9999999999999999 + 1) = true) ∧
      Gamma.route (-0.9999999999999999 + 1) ≠ .pole) ∧
    ((0.5 : Float) ≤ 1 - 0.25 ∧ Gamma.isPole (1 - 0.25) = false) ∧
    ∀ mirror, Gamma.route (1 - 0.25) ≠ .reflection mirror := by
  obtain ⟨-, hproduct, hloop, -⟩ := Factorial.control_flow_is_safe.1 5
  obtain ⟨-, -, -, hgamma⟩ := Factorial.control_flow_is_safe.1 (-0.9999999999999999)
  obtain ⟨-, hmirror, hreflection⟩ := Factorial.control_flow_is_safe.2 0.25
  exact ⟨hloop (hproduct.2 (by decide +kernel)), hgamma (by decide +kernel) (by decide +kernel),
    hmirror (by decide +kernel), (hreflection _ (by decide +kernel)).2⟩

end Calculator
