import Calculator.Number.Binary64

/-!
# The bits of a number

A number is its bit pattern: a sign bit, eleven bits of exponent and fifty-two of mantissa, of
which the last two make up the rank. This file takes the bit patterns apart and puts them together
again, and derives from it how sign and rank decide about a number: which numbers are finite, and
what negation does.

## Main results

* `Calculator.Binary64.ofBits_toBits`, `Calculator.Binary64.toBits_ofBits`: numbers and their bit
  patterns correspond to each other, up to patterns that are not numbers.
* `Calculator.Binary64.ofRank_rank`, `Calculator.Binary64.rank_ofRank`: numbers and their signs and
  ranks correspond to each other.
* `Calculator.Binary64.isFinite_iff`, `Calculator.Binary64.isInf_iff`,
  `Calculator.Binary64.isNaN_iff`: the rank tells finite numbers, infinities and not-a-number apart.
* `Calculator.Binary64.eq_of_isNaN`: there is one not-a-number.
* `Calculator.Binary64.neg_eq_ofRank`: negation changes the sign and keeps the rank.
-/

namespace Calculator.Binary64

open Float.Model Float.Model.UnpackedFloat

theorem blockSize_eq : blockSize = 0x10000000000000 := rfl

theorem infinityRank_eq : infinityRank = 0x7ff0000000000000 := rfl

theorem signBit_eq : signBit = 0x8000000000000000 := rfl

/-! ### The parts of a bit pattern -/

section

variable {b : BitVec Format.binary64.numBits}

theorem toNat_unpackMantissa : (unpackMantissa b).toNat = b.toNat % blockSize := by
  simp [unpackMantissa, BitVec.extractLsb, BitVec.extractLsb', blockSize_eq]

theorem toNat_unpackExponent : (unpackExponent b).toNat = b.toNat / blockSize % 2048 := by
  simp [unpackExponent, BitVec.extractLsb, BitVec.extractLsb', Nat.shiftRight_eq_div_pow,
    blockSize_eq]

theorem toNat_unpackSign : (unpackSign b).toNat = b.toNat / signBit := by
  have hb : b.toNat < 0x10000000000000000 := b.isLt
  have hbit : (unpackSign b).toNat = (b.extractLsb' 63 1).toNat := rfl
  rw [hbit, BitVec.extractLsb'_toNat, Nat.shiftRight_eq_div_pow, signBit_eq]
  omega

theorem toNat_append_append (s : BitVec 1) (e : BitVec 11) (m : BitVec 52) :
    (s ++ e ++ m).toNat = s.toNat * signBit + e.toNat * blockSize + m.toNat := by
  rw [BitVec.toNat_append, BitVec.toNat_append, ← Nat.shiftLeft_add_eq_or_of_lt m.isLt,
    ← Nat.shiftLeft_add_eq_or_of_lt e.isLt, Nat.shiftLeft_eq, Nat.shiftLeft_eq, signBit_eq,
    blockSize_eq]
  omega

theorem toNat_packComponents (s : Sign) (e : BitVec 11) (m : BitVec 52) :
    (packComponents Format.binary64 s e m).toNat =
      s.toBitVec.toNat * signBit + e.toNat * blockSize + m.toNat :=
  toNat_append_append s.toBitVec e m

theorem toBitVec_ofBitVec (s : BitVec 1) : (Sign.ofBitVec s).toBitVec = s := by
  revert s
  decide

/-- A bit pattern is put together from its parts. -/
theorem packComponents_unpack :
    packComponents Format.binary64 (Sign.ofBitVec (unpackSign b)) (unpackExponent b)
      (unpackMantissa b) = b := by
  have hb : b.toNat < 0x10000000000000000 := b.isLt
  apply BitVec.eq_of_toNat_eq
  rw [toNat_packComponents, toBitVec_ofBitVec, toNat_unpackSign, toNat_unpackExponent,
    toNat_unpackMantissa, signBit_eq, blockSize_eq]
  omega

/-- The rank in a bit pattern. -/
theorem toNat_mod_signBit :
    b.toNat % signBit = (unpackExponent b).toNat * blockSize + (unpackMantissa b).toNat := by
  rw [toNat_unpackExponent, toNat_unpackMantissa, signBit_eq, blockSize_eq]
  omega

/-! ### Unpacking -/

theorem unpack_of_max (he : unpackExponent b = -1#_) :
    UnpackedFloat.unpack Format.binary64 b =
      if unpackMantissa b = 0#_ then .infinity (Sign.ofBitVec (unpackSign b)) else .notANumber := by
  unfold UnpackedFloat.unpack
  exact if_pos he

theorem ne_max_of_zero (he : unpackExponent b = 0#_) : unpackExponent b ≠ -1#_ := by
  rw [he]
  decide

theorem unpack_of_zero (he : unpackExponent b = 0#_) (hm : unpackMantissa b = 0#_) :
    UnpackedFloat.unpack Format.binary64 b = .zero (Sign.ofBitVec (unpackSign b)) := by
  unfold UnpackedFloat.unpack
  exact (if_neg (ne_max_of_zero he)).trans ((if_pos he).trans (dif_pos hm))

theorem unpack_of_subnormal (he : unpackExponent b = 0#_) (hm : unpackMantissa b ≠ 0#_) :
    ∃ hpos, UnpackedFloat.unpack Format.binary64 b =
      .finite (Sign.ofBitVec (unpackSign b)) (unpackMantissa b).toNat (-1074) hpos := by
  have hpos : 0 < (unpackMantissa b).toNat := by
    simpa [BitVec.toNat_pos, BitVec.pos_iff_ne_zero] using hm
  have h : UnpackedFloat.unpack Format.binary64 b =
      .finite (Sign.ofBitVec (unpackSign b)) (unpackMantissa b).toNat
        ((((unpackExponent b).toNat : Nat) : Int) - (Format.binary64.exponentBias + 52) + 1)
        hpos := by
    unfold UnpackedFloat.unpack
    exact (if_neg (ne_max_of_zero he)).trans ((if_pos he).trans (dif_neg hm))
  refine ⟨hpos, ?_⟩
  rw [h, he]
  rfl

theorem unpack_of_normal (he : unpackExponent b ≠ 0#_) (hmax : unpackExponent b ≠ -1#_) :
    ∃ hpos, UnpackedFloat.unpack Format.binary64 b =
      .finite (Sign.ofBitVec (unpackSign b)) (blockSize + (unpackMantissa b).toNat)
        ((unpackExponent b).toNat - 1075) hpos := by
  have hm : (1#1 ++ unpackMantissa b).toNat = blockSize + (unpackMantissa b).toNat := by
    rw [BitVec.toNat_append, ← Nat.shiftLeft_add_eq_or_of_lt (unpackMantissa b).isLt]
    rfl
  have hpos : 0 < blockSize + (unpackMantissa b).toNat := by
    rw [blockSize_eq]
    omega
  have h : UnpackedFloat.unpack Format.binary64 b =
      .finite (Sign.ofBitVec (unpackSign b)) (1#1 ++ unpackMantissa b).toNat
        ((unpackExponent b).toNat - (Format.binary64.exponentBias + 52)) (hm ▸ hpos) := by
    unfold UnpackedFloat.unpack
    exact (if_neg hmax).trans (if_neg he)
  refine ⟨hpos, ?_⟩
  rw [h]
  congr 1

/-- Below the greatest exponent a pattern is a zero or a finite number, with the sign of its sign
bit. -/
theorem unpack_of_ne_max (hmax : unpackExponent b ≠ -1#_) :
    UnpackedFloat.unpack Format.binary64 b = .zero (Sign.ofBitVec (unpackSign b)) ∨
      ∃ m e hpos, UnpackedFloat.unpack Format.binary64 b =
        .finite (Sign.ofBitVec (unpackSign b)) m e hpos := by
  by_cases he : unpackExponent b = 0#_
  · by_cases hm : unpackMantissa b = 0#_
    · exact .inl (unpack_of_zero he hm)
    · exact .inr ⟨_, _, unpack_of_subnormal he hm⟩
  · exact .inr ⟨_, _, unpack_of_normal he hmax⟩

/-! ### Packing -/

theorem pack_of_subnormal (s : Sign) {m : BitVec 52} (hpos : 0 < m.toNat) :
    UnpackedFloat.pack Format.binary64 (.finite s m.toNat (-1074) hpos) =
      packComponents Format.binary64 s 0#_ m := by
  have hlog : ¬m.toNat.log2 + 1 = 53 := by
    have hlt := (Nat.log2_lt (Nat.ne_of_gt hpos)).2 m.isLt
    omega
  have hpack : UnpackedFloat.pack Format.binary64 (.finite s m.toNat (-1074) hpos) =
      packComponents Format.binary64 s 0#_ (BitVec.ofNat 52 m.toNat) := if_neg hlog
  rw [hpack, BitVec.ofNat_toNat, BitVec.setWidth_eq]

theorem pack_of_normal (s : Sign) {e : BitVec 11} {m : BitVec 52} (hmax : e ≠ -1#_)
    (hpos : 0 < blockSize + m.toNat) :
    UnpackedFloat.pack Format.binary64 (.finite s (blockSize + m.toNat) (e.toNat - 1075) hpos) =
      packComponents Format.binary64 s e m := by
  have hm := m.isLt
  have hlog : (blockSize + m.toNat).log2 = 52 := by
    rw [Nat.log2_eq_iff (Nat.ne_of_gt hpos), blockSize_eq]
    omega
  have hexponent : ((e.toNat : Int) - 1075 + 1023 + 52).toNat = e.toNat := by omega
  have hfits : ¬2048 ≤ e.toNat + 1 := by
    intro h
    have he := e.isLt
    refine hmax (BitVec.eq_of_toNat_eq ?_)
    show e.toNat = 2047
    omega
  have hpack :
      UnpackedFloat.pack Format.binary64 (.finite s (blockSize + m.toNat) (e.toNat - 1075) hpos) =
        packComponents Format.binary64 s
          (BitVec.ofNat 11 ((e.toNat : Int) - 1075 + 1023 + 52).toNat)
          (BitVec.ofNat 52 (blockSize + m.toNat)) := by
    refine (if_neg ?_).trans (if_pos ?_)
    · show ¬2048 ≤ ((e.toNat : Int) - 1075 + 1023 + 52).toNat + 1
      rwa [hexponent]
    · show (blockSize + m.toNat).log2 + 1 = 53
      rw [hlog]
  have hmantissa : BitVec.ofNat 52 (blockSize + m.toNat) = m := by
    apply BitVec.eq_of_toNat_eq
    rw [BitVec.toNat_ofNat, blockSize_eq]
    omega
  rw [hpack, hexponent, hmantissa, BitVec.ofNat_toNat, BitVec.setWidth_eq]

/-- The number with another sign. -/
def withSign (s : Sign) : UnpackedFloat → UnpackedFloat
  | .notANumber => .notANumber
  | .infinity _ => .infinity s
  | .zero _ => .zero s
  | .finite _ m e hm => .finite s m e hm

/-- Unless the pattern is not-a-number, unpacking and packing it changes nothing but the sign, if
that is changed in between. -/
theorem pack_withSign (s : Sign) (hb : unpackExponent b = -1#_ → unpackMantissa b = 0#_) :
    UnpackedFloat.pack Format.binary64 (withSign s (UnpackedFloat.unpack Format.binary64 b)) =
      packComponents Format.binary64 s (unpackExponent b) (unpackMantissa b) := by
  by_cases hmax : unpackExponent b = -1#_
  · rw [unpack_of_max hmax, if_pos (hb hmax), hmax, hb hmax]
    rfl
  by_cases he : unpackExponent b = 0#_
  · by_cases hm : unpackMantissa b = 0#_
    · rw [unpack_of_zero he hm, he, hm]
      rfl
    · obtain ⟨hpos, h⟩ := unpack_of_subnormal he hm
      rw [h, he]
      exact pack_of_subnormal s hpos
  · obtain ⟨hpos, h⟩ := unpack_of_normal he hmax
    rw [h]
    exact pack_of_normal s hmax hpos

/-- The sign of a pattern is that of its sign bit. -/
theorem withSign_unpack :
    withSign (Sign.ofBitVec (unpackSign b)) (UnpackedFloat.unpack Format.binary64 b) =
        UnpackedFloat.unpack Format.binary64 b ∧
      (UnpackedFloat.unpack Format.binary64 b).neg =
        withSign (-Sign.ofBitVec (unpackSign b)) (UnpackedFloat.unpack Format.binary64 b) := by
  by_cases hmax : unpackExponent b = -1#_
  · rw [unpack_of_max hmax]
    split <;> exact ⟨rfl, rfl⟩
  · rcases unpack_of_ne_max hmax with h | ⟨m, e, hpos, h⟩ <;> rw [h] <;> exact ⟨rfl, rfl⟩

end

/-! ### Numbers -/

theorem ext_toBits {x y : Float} (h : x.toBits = y.toBits) : x = y := by
  obtain ⟨⟨_, _⟩⟩ := x
  obtain ⟨⟨_, _⟩⟩ := y
  cases (show _ = _ from h)
  rfl

/-- The bit pattern of a number. -/
def pattern (x : Float) : BitVec Format.binary64.numBits := x.toBits.toBitVec

theorem toNat_pattern (x : Float) : (pattern x).toNat = x.toBits.toNat := rfl

theorem rank_eq (x : Float) :
    rank x = (unpackExponent (pattern x)).toNat * blockSize + (unpackMantissa (pattern x)).toNat :=
  toNat_mod_signBit

theorem toNat_eq_max_iff {e : BitVec 11} : e = -1#_ ↔ e.toNat = 2047 :=
  ⟨fun h => h ▸ rfl, fun h => BitVec.eq_of_toNat_eq h⟩

theorem rank_parts (x : Float) :
    (unpackExponent (pattern x)).toNat < 2048 ∧ (unpackMantissa (pattern x)).toNat < blockSize :=
  ⟨(unpackExponent (pattern x)).isLt, (unpackMantissa (pattern x)).isLt⟩

/-- Every rank above that of infinity is that of not-a-number. -/
theorem status_iff (x : Float) :
    (x.isFinite = true ↔ rank x < infinityRank) ∧ (x.isInf = true ↔ rank x = infinityRank) ∧
      (x.isNaN = true ↔ infinityRank < rank x) := by
  obtain ⟨he, hm⟩ := rank_parts x
  have hunpack : x.toModel.unpack = UnpackedFloat.unpack Format.binary64 (pattern x) := rfl
  rw [rank_eq, infinityRank_eq, Float.isFinite, Float.isInf, Float.isNaN, Float.Model.isFinite,
    Float.Model.isInf, Float.Model.isNaN, hunpack]
  rw [blockSize_eq] at hm ⊢
  by_cases hmax : unpackExponent (pattern x) = -1#_
  · have hexponent := toNat_eq_max_iff.1 hmax
    rw [unpack_of_max hmax, hexponent]
    by_cases hzero : unpackMantissa (pattern x) = 0#_
    · rw [if_pos hzero, hzero]
      exact ⟨iff_of_false Bool.false_ne_true (by decide), iff_of_true rfl (by decide),
        iff_of_false Bool.false_ne_true (by decide)⟩
    · have hpos : 0 < (unpackMantissa (pattern x)).toNat := by
        simpa [BitVec.toNat_pos, BitVec.pos_iff_ne_zero] using hzero
      rw [if_neg hzero]
      exact ⟨iff_of_false Bool.false_ne_true (by omega),
        iff_of_false Bool.false_ne_true (by omega), iff_of_true rfl (by omega)⟩
  · have hexponent := mt toNat_eq_max_iff.2 hmax
    have hfinite : (UnpackedFloat.unpack Format.binary64 (pattern x)).isFinite = true ∧
        (UnpackedFloat.unpack Format.binary64 (pattern x)).isInf = false ∧
          (UnpackedFloat.unpack Format.binary64 (pattern x)).isNaN = false := by
      rcases unpack_of_ne_max hmax with h | ⟨m, e, hpos, h⟩ <;> rw [h] <;> exact ⟨rfl, rfl, rfl⟩
    rw [hfinite.1, hfinite.2.1, hfinite.2.2]
    exact ⟨iff_of_true rfl (by omega), iff_of_false Bool.false_ne_true (by omega),
      iff_of_false Bool.false_ne_true (by omega)⟩

theorem isFinite_iff {x : Float} : x.isFinite = true ↔ rank x < infinityRank := (status_iff x).1

theorem isInf_iff {x : Float} : x.isInf = true ↔ rank x = infinityRank := (status_iff x).2.1

theorem isNaN_iff {x : Float} : x.isNaN = true ↔ infinityRank < rank x := (status_iff x).2.2

theorem not_isNaN_of_isFinite {x : Float} (hx : x.isFinite = true) : ¬x.isNaN = true := by
  rw [isFinite_iff] at hx
  rw [isNaN_iff]
  omega

/-- What is not not-a-number is infinite or finite. -/
theorem isInf_iff_not_isFinite {x : Float} (hx : ¬x.isNaN = true) :
    x.isInf = true ↔ ¬x.isFinite = true := by
  rw [isNaN_iff] at hx
  rw [isInf_iff, isFinite_iff]
  omega

/-- A pattern whose rank is at most that of infinity is no not-a-number. -/
theorem mantissa_eq_zero_of_le {b : BitVec Format.binary64.numBits}
    (hb : b.toNat % signBit ≤ infinityRank) (hmax : unpackExponent b = -1#_) :
    unpackMantissa b = 0#_ := by
  rw [toNat_mod_signBit, toNat_eq_max_iff.1 hmax, infinityRank_eq, blockSize_eq] at hb
  apply BitVec.eq_of_toNat_eq
  show (unpackMantissa b).toNat = 0
  omega

/-- A bit pattern is that of a number, unless it is one of the many of not-a-number. -/
theorem toBits_ofBits {u : UInt64} (hu : u.toNat % signBit ≤ infinityRank) :
    (Float.ofBits u).toBits = u := by
  have hpack : UnpackedFloat.pack Format.binary64
      (UnpackedFloat.unpack Format.binary64 u.toBitVec) = u.toBitVec := by
    have hb : u.toBitVec.toNat % signBit ≤ infinityRank := hu
    rw [← withSign_unpack.1, pack_withSign _ (mantissa_eq_zero_of_le hb)]
    exact packComponents_unpack
  exact UInt64.toBitVec_inj.1 hpack

/-- Not-a-number has one bit pattern. -/
theorem pattern_of_isNaN {x : Float} (hx : x.isNaN = true) :
    pattern x = packedNaN Format.binary64 := by
  have hlt := isNaN_iff.1 hx
  have hmax : unpackExponent (pattern x) = -1#_ := by
    obtain ⟨he, hm⟩ := rank_parts x
    rw [rank_eq, infinityRank_eq] at hlt
    rw [blockSize_eq] at hm hlt
    exact toNat_eq_max_iff.2 (by omega)
  have hzero : unpackMantissa (pattern x) ≠ 0#_ := by
    intro hzero
    rw [rank_eq, hzero, toNat_eq_max_iff.1 hmax] at hlt
    exact absurd hlt (by decide)
  exact x.toModel.valid.eq_packedNaN hmax hzero

/-- There is one not-a-number. -/
theorem eq_of_isNaN {x y : Float} (hx : x.isNaN = true) (hy : y.isNaN = true) : x = y :=
  ext_toBits (UInt64.toBitVec_inj.1 ((pattern_of_isNaN hx).trans (pattern_of_isNaN hy).symm))

/-- Not-a-number has no sign. -/
theorem isNegative_of_isNaN {x : Float} (hx : x.isNaN = true) : isNegative x = false := by
  rw [isNegative, ← toNat_pattern, pattern_of_isNaN hx]
  rfl

/-- A number is that of its bit pattern. -/
theorem ofBits_toBits (x : Float) : Float.ofBits x.toBits = x := by
  by_cases hx : rank x ≤ infinityRank
  · exact ext_toBits (toBits_ofBits hx)
  · have hnan := isNaN_iff.2 (Nat.lt_of_not_le hx)
    refine ext_toBits (UInt64.toBitVec_inj.1 ?_)
    show UnpackedFloat.pack Format.binary64 (UnpackedFloat.unpack Format.binary64 (pattern x)) =
      pattern x
    rw [pattern_of_isNaN hnan]
    rfl

/-! ### Signs and ranks -/

/-- A number is that of its sign and its rank. -/
theorem ofRank_rank (x : Float) : ofRank (isNegative x) (rank x) = x := by
  have hlt : x.toBits.toNat < 0x10000000000000000 := x.toBits.toNat_lt
  have hsum : (if isNegative x = true then signBit + rank x else rank x) = x.toBits.toNat := by
    rw [isNegative, rank, signBit_eq]
    by_cases hsign : 0x8000000000000000 ≤ x.toBits.toNat
    · rw [if_pos (decide_eq_true hsign)]
      omega
    · rw [if_neg (by simpa using hsign)]
      omega
  rw [ofRank, hsum, UInt64.ofNat_toNat, ofBits_toBits]

theorem toNat_toBits_ofRank (negative : Bool) {k : Nat} (hk : k ≤ infinityRank) :
    (ofRank negative k).toBits.toNat = if negative = true then signBit + k else k := by
  rw [infinityRank_eq] at hk
  have hu : (UInt64.ofNat (if negative = true then signBit + k else k)).toNat =
      if negative = true then signBit + k else k := by
    rw [UInt64.toNat_ofNat', Nat.mod_eq_of_lt]
    rw [signBit_eq]
    split <;> omega
  have hrank : (UInt64.ofNat (if negative = true then signBit + k else k)).toNat % signBit ≤
      infinityRank := by
    rw [hu, signBit_eq, infinityRank_eq]
    split <;> omega
  rw [ofRank, toBits_ofBits hrank, hu]

theorem rank_ofRank (negative : Bool) {k : Nat} (hk : k ≤ infinityRank) :
    rank (ofRank negative k) = k := by
  rw [rank, toNat_toBits_ofRank negative hk, signBit_eq]
  rw [infinityRank_eq] at hk
  split <;> omega

theorem isNegative_ofRank (negative : Bool) {k : Nat} (hk : k ≤ infinityRank) :
    isNegative (ofRank negative k) = negative := by
  rw [isNegative, toNat_toBits_ofRank negative hk, signBit_eq]
  rw [infinityRank_eq] at hk
  cases negative with
  | false =>
    simp
    omega
  | true => simp

/-- Negation changes the sign and keeps the rank. -/
theorem neg_eq_ofRank {x : Float} (hx : rank x ≤ infinityRank) :
    -x = ofRank (!isNegative x) (rank x) := by
  have hneg : (-x).toBits.toBitVec = packComponents Format.binary64
      (-Sign.ofBitVec (unpackSign (pattern x))) (unpackExponent (pattern x))
        (unpackMantissa (pattern x)) := by
    have hpack : (-x).toBits.toBitVec = UnpackedFloat.pack Format.binary64
        (UnpackedFloat.unpack Format.binary64 (pattern x)).neg := rfl
    have hle : (pattern x).toNat % signBit ≤ infinityRank := hx
    rw [hpack, withSign_unpack.2, pack_withSign _ (mantissa_eq_zero_of_le hle)]
  have hnat : (-x).toBits.toNat = _ := congrArg BitVec.toNat hneg
  have hsign : isNegative x = decide ((unpackSign (pattern x)).toNat = 1) := by
    have hlt : (pattern x).toNat < 0x10000000000000000 := (pattern x).isLt
    rw [toNat_unpackSign, isNegative, ← toNat_pattern, signBit_eq, decide_eq_decide]
    omega
  refine ext_toBits (UInt64.toNat_inj.1 ?_)
  rw [toNat_toBits_ofRank _ hx, hnat, toNat_packComponents, Nat.add_assoc, ← rank_eq, hsign]
  generalize unpackSign (pattern x) = s
  have hcases : s = 0#1 ∨ s = 1#1 := by
    revert s
    decide
  rcases hcases with rfl | rfl <;> simp [Sign.ofBitVec, Sign.toBitVec]

/-- Negating twice gives a finite number back. -/
theorem neg_neg_of_isFinite {x : Float} (hx : x.isFinite = true) : -(-x) = x := by
  have hrank := Nat.le_of_lt (isFinite_iff.1 hx)
  have hneg := neg_eq_ofRank hrank
  have hrank' : rank (-x) = rank x := by rw [hneg, rank_ofRank _ hrank]
  have hsign' : isNegative (-x) = !isNegative x := by rw [hneg, isNegative_ofRank _ hrank]
  rw [neg_eq_ofRank (hrank' ▸ hrank), hrank', hsign', Bool.not_not, ofRank_rank]

end Calculator.Binary64
