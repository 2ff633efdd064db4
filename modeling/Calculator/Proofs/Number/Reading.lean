import Calculator.Number.Literal
import Calculator.Proofs.Number.Bits
import Calculator.Proofs.Number.Rank
import Calculator.Proofs.Token.Rendering

/-!
# Numbers can be read from their texts

A literal denotes the number nearest to the fraction that its digits write. The text of a finite
number is a literal, behind a minus sign if the sign bit is set, and denotes that number again.

## Main results

* `Calculator.Number.read_whole`, `Calculator.Number.read_fraction`: the number that a literal
  denotes.
* `Calculator.Decimal.isLiteral_chars`, `Calculator.Decimal.read_text`: the text of a decimal
  fraction is a literal, and denotes the number nearest to the fraction.
* `Calculator.Number.read_shortest`: the shortest fraction of a finite number denotes its absolute
  value.
-/

namespace Calculator

open Token (takeWhile_append_of_stop)

namespace Number

theorem toLower_of_isDigit {c : Char} (hc : c.isDigit = true) : c.toLower = c := by
  rw [isDigit_iff] at hc
  have hupper : ¬(65 ≤ c.val ∧ c.val ≤ 90) := by grind
  exact dif_neg hupper

/-- What begins with a digit is none of the words for infinity and not-a-number. -/
theorem readUnsigned_of_isDigit {c : Char} (hc : c.isDigit = true) {cs : List Char}
    {parts : List Char × List Char × Int} (hparts : fractionAndExponent (c :: cs) = some parts) :
    readUnsigned (c :: cs) =
      some (Binary64.ofRank false (scaled parts.1 parts.2.1 parts.2.2).nearestRank) := by
  have hword (d : Char) (ds : List Char) (hd : d.isDigit = false) :
      (c :: cs).map Char.toLower ≠ d :: ds := by
    rw [List.map_cons, toLower_of_isDigit hc]
    intro h
    rw [(List.cons.inj h).1, hd] at hc
    cases hc
  have hinf : ¬((c :: cs).map Char.toLower = "inf".toList ∨
      (c :: cs).map Char.toLower = "infinity".toList) := by
    rintro (h | h)
    · exact hword 'i' _ rfl h
    · exact hword 'i' _ rfl h
  have hnan : ¬(c :: cs).map Char.toLower = "nan".toList := hword 'n' _ rfl
  rw [readUnsigned]
  simp only [if_neg hinf, if_neg hnan, hparts, Option.map_some]

/-- Without an exponent the digits are not moved. -/
theorem scaled_zero (whole fraction : List Char) :
    scaled whole fraction 0 = ⟨readDigits (whole ++ fraction), fraction.length⟩ := by
  have hexponent : max (-(whole.length + 400 : Int)) (min 0 (fraction.length + 400)) = 0 := by
    omega
  simp only [scaled, hexponent]
  simp

/-- An unsigned text without an exponent denotes the number nearest to its fraction. -/
theorem read_of_parts {c : Char} (hc : c.isDigit = true) {cs whole fraction : List Char}
    (hparts : fractionAndExponent (c :: cs) = some (whole, fraction, 0)) :
    read (String.ofList (c :: cs)) = some (Binary64.ofRank false
      (Decimal.nearestRank ⟨readDigits (whole ++ fraction), fraction.length⟩)) := by
  have hunsigned : read (String.ofList (c :: cs)) = readUnsigned (c :: cs) := by
    rw [read, String.toList_ofList]
    split
    next h =>
      cases h
      cases hc
    next h =>
      cases h
      cases hc
    next => rfl
  rw [hunsigned, readUnsigned_of_isDigit hc hparts, scaled_zero]

theorem takeWhile_of_isDigits {ds : List Char} (hds : IsDigits ds) :
    ds.takeWhile Char.isDigit = ds ∧ ds.dropWhile Char.isDigit = [] := by
  have hstop : ∀ c ∈ ([] : List Char).head?, c.isDigit = false := nofun
  have hall := takeWhile_append_of_stop hds.2 hstop
  rwa [List.append_nil] at hall

/-- A row of digits denotes the number nearest to it. -/
theorem read_whole {ds : List Char} (hds : IsDigits ds) :
    read (String.ofList ds) =
      some (Binary64.ofRank false (Decimal.nearestRank ⟨readDigits ds, 0⟩)) := by
  obtain ⟨htake, hdrop⟩ := takeWhile_of_isDigits hds
  have hparts : fractionAndExponent ds = some (ds, [], 0) := by
    simp [fractionAndExponent, htake, hdrop, hds.1, readExponent]
  obtain ⟨c, cs, rfl⟩ := List.exists_cons_of_ne_nil hds.1
  rw [read_of_parts (hds.2 c List.mem_cons_self) hparts, List.append_nil]
  rfl

/-- Two rows of digits with a point between them denote the number nearest to the fraction. -/
theorem read_fraction {ds fs : List Char} (hds : IsDigits ds) (hfs : IsDigits fs) :
    read (String.ofList (ds ++ '.' :: fs)) =
      some (Binary64.ofRank false (Decimal.nearestRank ⟨readDigits (ds ++ fs), fs.length⟩)) := by
  have hstop : ∀ c ∈ ('.' :: fs).head?, c.isDigit = false := by
    rintro c ⟨⟩
    rfl
  obtain ⟨htake, hdrop⟩ := takeWhile_append_of_stop hds.2 hstop
  obtain ⟨htake', hdrop'⟩ := takeWhile_of_isDigits hfs
  have hparts : fractionAndExponent (ds ++ '.' :: fs) = some (ds, fs, 0) := by
    simp [fractionAndExponent, htake, hdrop, htake', hdrop', hds.1, readExponent]
  obtain ⟨c, cs, rfl⟩ := List.exists_cons_of_ne_nil hds.1
  exact read_of_parts (hds.2 c List.mem_cons_self) hparts

end Number

/-! ### Texts of decimal fractions -/

namespace Decimal

theorem isDigits_toDigits (n : Nat) : IsDigits (Nat.toDigits 10 n) :=
  ⟨Nat.toDigits_ne_nil, fun _ hc => Nat.isDigit_of_mem_toDigits (by decide) (by decide) hc⟩

/-- The digits after the point. -/
def fractionChars (d : Decimal) : List Char :=
  (Nat.toDigits 10 (d.digits % powerOfTen d.scale)).leftpad d.scale '0'

theorem chars_of_scale_eq_zero {d : Decimal} (hd : d.scale = 0) :
    d.chars = Nat.toDigits 10 d.digits := by
  rw [chars, if_pos hd, List.append_nil, hd, powerOfTen_zero, Nat.div_one]

theorem chars_of_scale_ne_zero {d : Decimal} (hd : d.scale ≠ 0) :
    d.chars = Nat.toDigits 10 (d.digits / powerOfTen d.scale) ++ '.' :: d.fractionChars := by
  rw [chars, if_neg hd, fractionChars]

/-- There are as many digits after the point as the scale says. -/
theorem length_fractionChars {d : Decimal} (hd : d.scale ≠ 0) :
    d.fractionChars.length = d.scale := by
  have hlength : (Nat.toDigits 10 (d.digits % powerOfTen d.scale)).length ≤ d.scale :=
    (Nat.length_toDigits_le_iff (by decide) (Nat.pos_of_ne_zero hd)).2
      (Nat.mod_lt _ (powerOfTen_pos d.scale))
  rw [fractionChars, List.length_leftpad]
  omega

theorem isDigits_fractionChars {d : Decimal} (hd : d.scale ≠ 0) : IsDigits d.fractionChars := by
  refine ⟨List.ne_nil_of_length_pos ?_, fun c hc => ?_⟩
  · rw [length_fractionChars hd]
    exact Nat.pos_of_ne_zero hd
  · rcases List.mem_append.1 hc with hc | hc
    · rw [List.eq_of_mem_replicate hc]
      rfl
    · exact (isDigits_toDigits _).2 c hc

/-- Behind further digits, the digits after the point count as one part of the scale. -/
theorem readDigits_append_fractionChars {d : Decimal} (hd : d.scale ≠ 0) (cs : List Char) :
    Number.readDigits (cs ++ d.fractionChars) =
      powerOfTen d.scale * Number.readDigits cs + d.digits % powerOfTen d.scale := by
  have hzero : Nat.ofDigitChars 10 d.fractionChars 0 = d.digits % powerOfTen d.scale := by
    rw [fractionChars, List.leftpad, Nat.ofDigitChars_append, Nat.ofDigitChars_replicate_zero,
      Nat.mul_zero, Nat.ofDigitChars_ten_toDigits]
  rw [Number.readDigits, Nat.ofDigitChars_append, Nat.ofDigitChars_eq_ofDigitChars_zero, hzero,
    length_fractionChars hd]
  rfl

/-- The text of a fraction is a literal. -/
theorem isLiteral_chars (d : Decimal) : IsLiteral d.chars := by
  by_cases hd : d.scale = 0
  · rw [chars_of_scale_eq_zero hd]
    exact .whole (isDigits_toDigits _)
  · rw [chars_of_scale_ne_zero hd]
    exact .fraction (isDigits_toDigits _) (isDigits_fractionChars hd)

/-- The text of a fraction denotes the number nearest to the fraction. -/
theorem read_text (d : Decimal) :
    Number.read d.text = some (Binary64.ofRank false d.nearestRank) := by
  by_cases hd : d.scale = 0
  · obtain ⟨digits, scale⟩ := d
    obtain rfl : scale = 0 := hd
    rw [text, chars_of_scale_eq_zero rfl, Number.read_whole (isDigits_toDigits _),
      Number.readDigits, Nat.ofDigitChars_ten_toDigits]
  · have hdigits : Number.readDigits
        (Nat.toDigits 10 (d.digits / powerOfTen d.scale) ++ d.fractionChars) = d.digits := by
      rw [readDigits_append_fractionChars hd, Number.readDigits, Nat.ofDigitChars_ten_toDigits,
        Nat.div_add_mod]
    rw [text, chars_of_scale_ne_zero hd,
      Number.read_fraction (isDigits_toDigits _) (isDigits_fractionChars hd), hdigits,
      length_fractionChars hd]

end Decimal

/-! ### Texts of numbers -/

namespace Number

/-- The shortest fraction of a finite number denotes its absolute value. -/
theorem read_shortest {x : Float} (hx : x.isFinite = true) :
    read (shortest (Binary64.rank x)).text =
      some (if Binary64.isNegative x = true then -x else x) := by
  have hrank := Nat.le_of_lt (Binary64.isFinite_iff.1 hx)
  rw [Decimal.read_text, nearestRank_shortest hrank]
  split
  next hsign => rw [Binary64.neg_eq_ofRank hrank, hsign, Bool.not_true]
  next hsign =>
    have hx' := Binary64.ofRank_rank x
    rw [Bool.not_eq_true] at hsign
    rw [hsign] at hx'
    rw [hx']

end Number

end Calculator
