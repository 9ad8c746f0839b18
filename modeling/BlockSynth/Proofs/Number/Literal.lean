import BlockSynth.Proofs.Number.Numeral
import BlockSynth.Proofs.Number.Shortest

/-! # Number literals read back

The decimal that a number is written as in code rounds to that number, without its sign.
-/
namespace BlockSynth.Binary64

variable {significand : Nat} {exponent : Int}

theorem RoundsTo.le (h : significand ≠ 0) {ratio : ℚ} (hround : RoundsTo significand exponent ratio)
    (hleast : leastExponent ≤ exponent) : 2 ^ (leastExponent - 1) ≤ ratio := by
  have hreach := reach_le_half significand exponent
  have hone : (1 : ℚ) ≤ significand := Nat.one_le_cast.mpr (Nat.pos_of_ne_zero h)
  have hunit : (0 : ℚ) < 2 ^ exponent := zpow_pos two_pos exponent
  calc (2 : ℚ) ^ (leastExponent - 1) = 1 / 2 * 2 ^ leastExponent := by
        rw [zpow_sub_one₀ two_ne_zero]
        ring
    _ ≤ 1 / 2 * 2 ^ exponent := by
        have hpow : (2 : ℚ) ^ leastExponent ≤ 2 ^ exponent := zpow_le_zpow_right₀ one_le_two hleast
        linarith
    _ ≤ (significand - reach significand exponent) * 2 ^ exponent :=
        mul_le_mul_of_nonneg_right (by linarith) hunit.le
    _ ≤ ratio := hround.low

/-- No decimal that rounds to a number other than zero is taken for one that vanishes. -/
theorem not_vanishes {digits places : Nat}
    (h : (2 : ℚ) ^ (leastExponent - 1) ≤ (digits : ℚ) / 10 ^ places) :
    (Decimal.mk false digits (-places)).vanishes = false := by
  simp only [Decimal.vanishes, decide_eq_false_iff_not]
  intro hlt
  have hbits : (digits : ℚ) < 2 ^ ((digits.log2 : ℤ) + 1) := by
    rw [← Nat.cast_succ, zpow_natCast]
    exact_mod_cast Nat.lt_log2_self
  have hpow : (2 : ℚ) ^ ((digits.log2 : ℤ) + 1) ≤ 2 ^ (leastExponent - 1) * 8 ^ places := by
    have height : (8 : ℚ) ^ places = 2 ^ (3 * (places : ℤ)) := by
      rw [zpow_mul, zpow_natCast]
      norm_num
    rw [height, ← zpow_add₀ two_ne_zero]
    refine zpow_le_zpow_right₀ one_le_two ?_
    unfold leastExponent
    omega
  have hten : (8 : ℚ) ^ places ≤ 10 ^ places := pow_le_pow_left₀ (by norm_num) (by norm_num) places
  have hpositive : (0 : ℚ) < 2 ^ (leastExponent - 1) := zpow_pos two_pos _
  rw [le_div_iff₀ (by positivity)] at h
  have hless := mul_le_mul_of_nonneg_left hten hpositive.le
  linarith

theorem toBinary64_of_roundsTo (hcanonical : Canonical significand exponent) (h : significand ≠ 0)
    {digits places : Nat} (hround : RoundsTo significand exponent ((digits : ℚ) / 10 ^ places)) :
    (Decimal.mk false digits (-places)).toBinary64 = finite false significand exponent := by
  have hleast := hround.le h hcanonical.least_le
  have hdigits : digits ≠ 0 := by
    rintro rfl
    have hpositive : (0 : ℚ) < 2 ^ (leastExponent - 1) := zpow_pos two_pos _
    rw [Nat.cast_zero, zero_div] at hleast
    linarith
  have hplaces : ¬(-(places : Int) ≥ Decimal.overflowExponent) := by
    unfold Decimal.overflowExponent
    omega
  have hzero : (-(places : Int)).toNat = 0 := by omega
  have hback : (- -(places : Int)).toNat = places := by omega
  have hten : 10 ^ places ≠ 0 := Nat.ne_of_gt (Nat.pow_pos (by decide))
  unfold Decimal.toBinary64
  simp only [hdigits, hplaces, not_vanishes hleast, if_false, Bool.false_eq_true, and_false, hzero,
    hback, Nat.pow_zero, Nat.mul_one]
  exact ofRatio_of_roundsTo hcanonical hdigits hten (by exact_mod_cast hround) false

/-! ### The two ways to write a number -/

theorem roundsTo_self (significand : Nat) (exponent : Int) :
    RoundsTo significand exponent (significand * 2 ^ exponent) := by
  have hunit : (0 : ℚ) < 2 ^ exponent := zpow_pos two_pos exponent
  have hreach : 0 < reach significand exponent := by
    unfold reach
    split <;> norm_num
  have hlow : (significand - reach significand exponent) * 2 ^ exponent <
      significand * 2 ^ exponent :=
    mul_lt_mul_of_pos_right (by linarith) hunit
  have hhigh : (significand : ℚ) * 2 ^ exponent < (significand + 1 / 2) * 2 ^ exponent :=
    mul_lt_mul_of_pos_right (by linarith) hunit
  exact ⟨hlow.le, hhigh.le, .inr ⟨hlow, hhigh⟩⟩

theorem natAbs_of_integer? {negative : Bool} {n : Int}
    (h : (finite negative significand exponent).integer? = some n) :
    (n.natAbs : ℚ) = significand * 2 ^ exponent := by
  have hparts : (2 : ℚ) ^ (-exponent).toNat ≠ 0 := pow_ne_zero _ two_ne_zero
  rw [zpow_eq_div two_ne_zero, ← mul_div_assoc, eq_div_iff hparts]
  exact_mod_cast (natAbs_mul_of_integer? h).1

theorem Canonical.eq_least (h : Canonical 0 exponent) : exponent = leastExponent :=
  h.normal.resolve_left (by decide)

theorem toBinary64_of_integer? (hcanonical : Canonical significand exponent) {negative : Bool}
    {n : Int} (h : (finite negative significand exponent).integer? = some n) :
    (Decimal.mk false n.natAbs 0).toBinary64 = finite false significand exponent := by
  have hvalue := natAbs_of_integer? h
  by_cases hzero : significand = 0
  · subst hzero
    rw [Nat.cast_zero, zero_mul, Nat.cast_eq_zero] at hvalue
    rw [hvalue, hcanonical.eq_least]
    rfl
  · have hround := roundsTo_self significand exponent
    rw [← hvalue] at hround
    exact @toBinary64_of_roundsTo _ _ hcanonical hzero n.natAbs 0 (by simpa using hround)

theorem toBinary64_magnitude (hcanonical : Canonical significand exponent) :
    (magnitude significand exponent).toBinary64 = finite false significand exponent := by
  unfold magnitude
  split
  · rename_i hzero
    subst hzero
    rw [hcanonical.eq_least]
    rfl
  · rename_i hne
    have hround := shortest_roundsTo hcanonical hne
    generalize shortest significand exponent = written at hround ⊢
    obtain ⟨digits, grid⟩ := written
    have hplaces : min grid 0 = -((-grid).toNat : Int) := by omega
    have hratio : (digits : ℚ) * 10 ^ grid =
        ((digits * 10 ^ grid.toNat : Nat) : ℚ) / 10 ^ (-grid).toNat := by
      rw [zpow_eq_div (by norm_num) grid]
      push_cast
      rw [mul_div_assoc]
    dsimp only at hround ⊢
    rw [hratio] at hround
    rw [hplaces]
    exact toBinary64_of_roundsTo hcanonical hne hround

/-- The text of a number in code is its sign and a numeral that reads back as its magnitude. -/
theorem codeText_canonical (negative : Bool) (hcanonical : Canonical significand exponent) :
    let number := finite negative significand exponent
    ∃ body decimal, Chars.Numeral body decimal ∧ decimal.toBinary64 = number.abs ∧
      number.codeText.toList = (if number.isNegative then ['-'] else []) ++ body := by
  intro number
  obtain ⟨body, decimal, hbody, htext, hdecimal⟩ := codeText_finite negative significand exponent
  refine ⟨body, decimal, hbody, ?_, htext⟩
  rcases hdecimal with ⟨n, hinteger, rfl⟩ | rfl
  · exact toBinary64_of_integer? hcanonical hinteger
  · exact toBinary64_magnitude hcanonical

/-- Whatever is read as a decimal has its one form. -/
theorem canonical_toBinary64 (decimal : Decimal) {negative : Bool}
    (h : decimal.toBinary64 = finite negative significand exponent) :
    Canonical significand exponent := by
  have hzero : ∀ sign, zero sign = finite negative significand exponent →
      Canonical significand exponent := by
    intro sign hsame
    obtain ⟨-, rfl, rfl⟩ := finite.inj hsame
    exact ⟨by decide, le_rfl, by decide, .inr rfl⟩
  unfold Decimal.toBinary64 at h
  split at h
  · exact hzero _ h
  · split at h
    · simp at h
    · split at h
      · exact hzero _ h
      · exact canonical_ofRatio (Nat.ne_of_gt (Nat.pow_pos (by decide))) h

end BlockSynth.Binary64
