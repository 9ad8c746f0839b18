import BlockSynth.Number.Binary64
import Mathlib.Algebra.Order.Field.Power
import Mathlib.Algebra.Order.Field.Rat
import Mathlib.Tactic.Linarith
import Mathlib.Tactic.Positivity
import Mathlib.Tactic.Ring

/-! # Rounding to binary64

A ratio rounds to a number if it lies between the midpoints to its neighbours; a
midpoint itself belongs to the number with the even significand. Below a power of two
the neighbour is half as far away.
-/
namespace BlockSynth.Binary64

/-- The finite numbers that binary64 has, each in its one form. -/
structure Canonical (significand : Nat) (exponent : Int) : Prop where
  significand_lt : significand < 2 ^ 53
  least_le : leastExponent ≤ exponent
  le_greatest : exponent ≤ greatestExponent
  normal : 2 ^ 52 ≤ significand ∨ exponent = leastExponent

theorem zpow_eq_div {base : ℚ} (h : base ≠ 0) (exponent : ℤ) :
    base ^ exponent = base ^ exponent.toNat / base ^ (-exponent).toNat := by
  have hsum : exponent + ((-exponent).toNat : ℤ) = (exponent.toNat : ℤ) := by omega
  rw [eq_div_iff (pow_ne_zero _ h), ← zpow_natCast, ← zpow_natCast, ← zpow_add₀ h, hsum]

theorem scaleRatio_pos (num : Nat) {den : Nat} (hden : den ≠ 0) (exponent : Int) :
    0 < (scaleRatio num den exponent).2 :=
  Nat.mul_pos (Nat.pos_of_ne_zero hden) (Nat.two_pow_pos _)

theorem scaleRatio_eq (num den : Nat) (exponent : Int) :
    ((scaleRatio num den exponent).1 : ℚ) / (scaleRatio num den exponent).2 =
      (num : ℚ) / den / 2 ^ exponent := by
  have htwo : (2 : ℚ) ≠ 0 := two_ne_zero
  rw [zpow_eq_div htwo exponent]
  simp only [scaleRatio, Nat.cast_mul, Nat.cast_pow, Nat.cast_ofNat]
  rw [div_div_div_eq, mul_comm (den : ℚ)]

/-! ### Quotients -/

theorem roundQuotient_eq {n d m : Nat} (hd : 0 < d)
    (hlow : 2 * (m * d) ≤ 2 * n + d) (hhigh : 2 * n ≤ 2 * (m * d) + d)
    (htie : m % 2 = 0 ∨ (2 * (m * d) < 2 * n + d ∧ 2 * n < 2 * (m * d) + d)) :
    roundQuotient n d = m := by
  have hsplit := Nat.div_add_mod n d
  have hrest := Nat.mod_lt n hd
  unfold roundQuotient
  dsimp only
  generalize n / d = quotient at *
  generalize n % d = rest at *
  -- The quotient is `m`, or `m - 1` with a rest of at least one half.
  have hle : quotient ≤ m := by
    by_contra hlt
    have hmul : d * (m + 1) ≤ d * quotient := Nat.mul_le_mul_left d (by omega)
    have hexpand : d * (m + 1) = m * d + d := by ring
    omega
  have hge : m ≤ quotient + 1 := by
    by_contra hlt
    have hmul : (quotient + 2) * d ≤ m * d := Nat.mul_le_mul_right d (by omega)
    have hexpand : (quotient + 2) * d = d * quotient + 2 * d := by ring
    omega
  rcases Nat.lt_or_ge quotient m with hlt | hge'
  · obtain rfl : m = quotient + 1 := by omega
    have hexpand : (quotient + 1) * d = d * quotient + d := by ring
    split
    · omega
    · split
      · rfl
      · omega
  · obtain rfl : m = quotient := by omega
    have hexpand : m * d = d * m := Nat.mul_comm m d
    split
    · rfl
    · split
      · omega
      · omega

/-- The same with the quotient as a rational. -/
theorem roundQuotient_of_near {n d m : Nat} (hd : 0 < d)
    (hlow : (m : ℚ) - 1 / 2 ≤ n / d) (hhigh : (n : ℚ) / d ≤ m + 1 / 2)
    (htie : m % 2 = 0 ∨ ((m : ℚ) - 1 / 2 < n / d ∧ (n : ℚ) / d < m + 1 / 2)) :
    roundQuotient n d = m := by
  have hpos : (0 : ℚ) < d := Nat.cast_pos.mpr hd
  rw [le_div_iff₀ hpos] at hlow
  rw [div_le_iff₀ hpos] at hhigh
  refine roundQuotient_eq hd ?_ ?_ (htie.imp_right fun hstrict => ?_)
  · exact_mod_cast (by linarith : (2 : ℚ) * (m * d) ≤ 2 * n + d)
  · exact_mod_cast (by linarith : (2 : ℚ) * n ≤ 2 * (m * d) + d)
  · rw [lt_div_iff₀ hpos, div_lt_iff₀ hpos] at hstrict
    exact ⟨by exact_mod_cast (by linarith : (2 : ℚ) * (m * d) < 2 * n + d),
      by exact_mod_cast (by linarith : (2 : ℚ) * n < 2 * (m * d) + d)⟩

/-! ### Exponents -/

theorem exponent_le {ratio : ℚ} {exponent other : ℤ} (hlow : (2 : ℚ) ^ 52 * 2 ^ exponent ≤ ratio)
    (hhigh : ratio < (2 : ℚ) ^ 53 * 2 ^ other) : exponent ≤ other := by
  have hlt := hlow.trans_lt hhigh
  rw [← zpow_natCast, ← zpow_natCast, ← zpow_add₀ two_ne_zero, ← zpow_add₀ two_ne_zero,
    zpow_lt_zpow_iff_right₀ one_lt_two] at hlt
  push_cast at hlt
  omega

/-- The bit lengths of a ratio place it within two binades. -/
theorem ratio_bounds {num den : Nat} (hnum : num ≠ 0) (hden : den ≠ 0) :
    (2 : ℚ) ^ 52 * 2 ^ ((num.log2 : ℤ) - den.log2 - 53) ≤ (num : ℚ) / den ∧
      (num : ℚ) / den < (2 : ℚ) ^ 53 * 2 ^ ((num.log2 : ℤ) - den.log2 - 52) := by
  have hpos : (0 : ℚ) < den := Nat.cast_pos.mpr (Nat.pos_of_ne_zero hden)
  have hnumLow : (2 : ℚ) ^ (num.log2 : ℤ) ≤ num := by
    rw [zpow_natCast]
    exact_mod_cast Nat.log2_self_le hnum
  have hnumHigh : (num : ℚ) < 2 ^ ((num.log2 : ℤ) + 1) := by
    rw [← Nat.cast_succ, zpow_natCast]
    exact_mod_cast Nat.lt_log2_self
  have hdenLow : (2 : ℚ) ^ (den.log2 : ℤ) ≤ den := by
    rw [zpow_natCast]
    exact_mod_cast Nat.log2_self_le hden
  have hdenHigh : (den : ℚ) < 2 ^ ((den.log2 : ℤ) + 1) := by
    rw [← Nat.cast_succ, zpow_natCast]
    exact_mod_cast Nat.lt_log2_self
  generalize (num.log2 : ℤ) = top at *
  generalize (den.log2 : ℤ) = bottom at *
  have hlow : (2 : ℚ) ^ 52 * 2 ^ (top - bottom - 53) * 2 ^ (bottom + 1) = 2 ^ top := by
    rw [← zpow_natCast, ← zpow_add₀ two_ne_zero, ← zpow_add₀ two_ne_zero]
    congr 1
    push_cast
    omega
  have hhigh : (2 : ℚ) ^ 53 * 2 ^ (top - bottom - 52) * 2 ^ bottom = 2 ^ (top + 1) := by
    rw [← zpow_natCast, ← zpow_add₀ two_ne_zero, ← zpow_add₀ two_ne_zero]
    congr 1
    push_cast
    omega
  rw [le_div_iff₀ hpos, div_lt_iff₀ hpos]
  constructor
  · calc (2 : ℚ) ^ 52 * 2 ^ (top - bottom - 53) * den
        ≤ 2 ^ 52 * 2 ^ (top - bottom - 53) * 2 ^ (bottom + 1) := by gcongr
      _ = 2 ^ top := hlow
      _ ≤ num := hnumLow
  · calc (num : ℚ) < 2 ^ (top + 1) := hnumHigh
      _ = 2 ^ 53 * 2 ^ (top - bottom - 52) * 2 ^ bottom := hhigh.symm
      _ ≤ 2 ^ 53 * 2 ^ (top - bottom - 52) * den := by gcongr

theorem ratioExponent_eq {num den : Nat} (hnum : num ≠ 0) (hden : den ≠ 0) {exponent : Int}
    (hlow : (2 : ℚ) ^ 52 * 2 ^ exponent ≤ (num : ℚ) / den)
    (hhigh : (num : ℚ) / den < (2 : ℚ) ^ 53 * 2 ^ exponent) :
    ratioExponent num den = max leastExponent exponent := by
  obtain ⟨hbelow, habove⟩ := ratio_bounds hnum hden
  have hscale := scaleRatio_eq num den ((num.log2 : Int) - (den.log2 : Int) - 52)
  unfold ratioExponent
  dsimp only
  have hhalf : (num.log2 : ℤ) - den.log2 - 53 = (num.log2 : ℤ) - den.log2 - 52 - 1 := by ring
  rw [hhalf] at hbelow
  generalize (num.log2 : Int) - (den.log2 : Int) - 52 = guess at *
  have hpositive := scaleRatio_pos num hden guess
  have hcast : (0 : ℚ) < (scaleRatio num den guess).2 := Nat.cast_pos.mpr hpositive
  have hunit : (0 : ℚ) < 2 ^ guess := zpow_pos two_pos guess
  have hquotient : (scaleRatio num den guess).1 / (scaleRatio num den guess).2 < 2 ^ 52 ↔
      (num : ℚ) / den < 2 ^ 52 * 2 ^ guess := by
    rw [Nat.div_lt_iff_lt_mul hpositive, ← div_lt_iff₀ hunit, ← hscale, div_lt_iff₀ hcast]
    exact_mod_cast Iff.rfl
  congr 1
  split
  · rename_i hlt
    have hlt' := hquotient.mp hlt
    have hdouble : (2 : ℚ) ^ 52 * 2 ^ guess = 2 ^ 53 * 2 ^ (guess - 1) := by
      rw [zpow_sub_one₀ two_ne_zero]
      ring
    rw [hdouble] at hlt'
    exact le_antisymm (exponent_le hbelow hhigh) (exponent_le hlow hlt')
  · rename_i hge
    have hge' := not_lt.mp (mt hquotient.mpr hge)
    exact le_antisymm (exponent_le hge' hhigh) (exponent_le hlow habove)

theorem exists_binade {num den : Nat} (hnum : num ≠ 0) (hden : den ≠ 0) :
    ∃ exponent : ℤ, (2 : ℚ) ^ 52 * 2 ^ exponent ≤ (num : ℚ) / den ∧
      (num : ℚ) / den < (2 : ℚ) ^ 53 * 2 ^ exponent := by
  obtain ⟨hbelow, habove⟩ := ratio_bounds hnum hden
  rcases lt_or_ge ((num : ℚ) / den) ((2 : ℚ) ^ 52 * 2 ^ ((num.log2 : ℤ) - den.log2 - 52))
    with hlt | hge
  · refine ⟨_, hbelow, hlt.trans_eq ?_⟩
    have hstep : (num.log2 : ℤ) - den.log2 - 52 = (num.log2 : ℤ) - den.log2 - 53 + 1 := by ring
    rw [hstep, zpow_add_one₀ two_ne_zero]
    ring
  · exact ⟨_, hge, habove⟩

theorem ratioExponent_least {num den : Nat} (hnum : num ≠ 0) (hden : den ≠ 0)
    (h : (num : ℚ) / den < (2 : ℚ) ^ 53 * 2 ^ leastExponent) :
    ratioExponent num den = leastExponent := by
  obtain ⟨exponent, hlow, hhigh⟩ := exists_binade hnum hden
  rw [ratioExponent_eq hnum hden hlow hhigh]
  exact max_eq_left (exponent_le hlow h)

/-! ### Midpoints -/

/-- How far below a number, in units of its last place, the ratios begin that round to it. -/
def reach (significand : Nat) (exponent : Int) : ℚ :=
  if significand = 2 ^ 52 ∧ exponent > leastExponent then 1 / 4 else 1 / 2

structure RoundsTo (significand : Nat) (exponent : Int) (ratio : ℚ) : Prop where
  low : (significand - reach significand exponent) * 2 ^ exponent ≤ ratio
  high : ratio ≤ (significand + 1 / 2) * 2 ^ exponent
  tie : significand % 2 = 0 ∨
    ((significand - reach significand exponent) * 2 ^ exponent < ratio ∧
      ratio < (significand + 1 / 2) * 2 ^ exponent)

variable {significand num den : Nat} {exponent : Int}

theorem reach_le_half (significand : Nat) (exponent : Int) :
    reach significand exponent ≤ 1 / 2 := by
  unfold reach
  split <;> norm_num

/-- The significand and exponent that a ratio is rounded to, before the carry into the
next binade. -/
theorem ofRatio_eq (hnum : num ≠ 0) (negative : Bool) {rounded : Nat}
    (hexponent : ratioExponent num den = exponent)
    (hrounded :
      roundQuotient (scaleRatio num den exponent).1 (scaleRatio num den exponent).2 = rounded) :
    ofRatio negative num den =
      if rounded = 2 ^ 53 then
        if exponent + 1 > greatestExponent then infinite negative
          else finite negative (2 ^ 52) (exponent + 1)
      else if exponent > greatestExponent then infinite negative
        else finite negative rounded exponent := by
  unfold ofRatio
  rw [if_neg hnum]
  dsimp only
  rw [hexponent, hrounded]
  split <;> rfl

theorem RoundsTo.roundQuotient_eq (hden : den ≠ 0)
    (h : RoundsTo significand exponent ((num : ℚ) / den)) :
    roundQuotient (scaleRatio num den exponent).1 (scaleRatio num den exponent).2 =
      significand := by
  have hunit : (0 : ℚ) < 2 ^ exponent := zpow_pos two_pos exponent
  have hreach := reach_le_half significand exponent
  have hhalf : ((significand : ℚ) - 1 / 2) * 2 ^ exponent ≤
      (significand - reach significand exponent) * 2 ^ exponent :=
    mul_le_mul_of_nonneg_right (by linarith) hunit.le
  refine roundQuotient_of_near (scaleRatio_pos num hden exponent) ?_ ?_
    (h.tie.imp_right fun hstrict => ?_) <;>
    rw [scaleRatio_eq]
  · rw [le_div_iff₀ hunit]
    exact hhalf.trans h.low
  · rw [div_le_iff₀ hunit]
    exact h.high
  · rw [lt_div_iff₀ hunit, div_lt_iff₀ hunit]
    exact ⟨hhalf.trans_lt hstrict.1, hstrict.2⟩

theorem RoundsTo.lt_binade (hlt : significand < 2 ^ 53)
    (h : RoundsTo significand exponent ((num : ℚ) / den)) :
    (num : ℚ) / den < 2 ^ 53 * 2 ^ exponent := by
  have hsize : (significand : ℚ) + 1 ≤ 2 ^ 53 := by exact_mod_cast hlt
  exact h.high.trans_lt (mul_lt_mul_of_pos_right (by linarith) (zpow_pos two_pos exponent))

/-- Only the least significand of a binade is rounded to from below the binade. -/
theorem RoundsTo.eq_of_below (hnormal : 2 ^ 52 ≤ significand)
    (h : RoundsTo significand exponent ((num : ℚ) / den))
    (hbelow : (num : ℚ) / den < 2 ^ 52 * 2 ^ exponent) : significand = 2 ^ 52 := by
  have hunit : (0 : ℚ) < 2 ^ exponent := zpow_pos two_pos exponent
  have hreach := reach_le_half significand exponent
  have hlow := h.low
  by_contra hother
  have hmore : (2 : ℚ) ^ 52 + 1 ≤ significand := by
    exact_mod_cast (by omega : 2 ^ 52 + 1 ≤ significand)
  have hmul := mul_le_mul_of_nonneg_right
    (by linarith : (2 : ℚ) ^ 52 ≤ significand - reach significand exponent) hunit.le
  linarith

/-- A ratio just below a power of two is rounded in the binade below it, with a carry. -/
theorem ofRatio_of_carry (hnum : num ≠ 0) (hden : den ≠ 0) (hgreater : exponent > leastExponent)
    (hgreatest : exponent ≤ greatestExponent) (h : RoundsTo (2 ^ 52) exponent ((num : ℚ) / den))
    (hbelow : (num : ℚ) / den < 2 ^ 52 * 2 ^ exponent) (negative : Bool) :
    ofRatio negative num den = finite negative (2 ^ 52) exponent := by
  have hlow := h.low
  have hquarter : reach (2 ^ 52) exponent = 1 / 4 := if_pos ⟨rfl, hgreater⟩
  have hhalf : (2 : ℚ) ^ exponent = 2 * 2 ^ (exponent - 1) := by
    rw [zpow_sub_one₀ two_ne_zero]
    ring
  have hunit : (0 : ℚ) < 2 ^ (exponent - 1) := zpow_pos two_pos _
  rw [hquarter, hhalf] at hlow
  rw [hhalf] at hbelow
  push_cast at hlow
  have hexponent : ratioExponent num den = exponent - 1 := by
    rw [@ratioExponent_eq num den hnum hden (exponent - 1) (by linarith) (by linarith)]
    exact max_eq_right (by omega)
  have hrounded : roundQuotient (scaleRatio num den (exponent - 1)).1
      (scaleRatio num den (exponent - 1)).2 = 2 ^ 53 := by
    refine roundQuotient_of_near (scaleRatio_pos num hden _) ?_ ?_ (.inl (by decide)) <;>
      rw [scaleRatio_eq] <;> push_cast
    · rw [le_div_iff₀ hunit]
      linarith
    · rw [div_le_iff₀ hunit]
      linarith
  rw [ofRatio_eq hnum negative hexponent hrounded, if_pos rfl]
  have hback : exponent - 1 + 1 = exponent := by omega
  rw [hback, if_neg (not_lt.mpr hgreatest)]

theorem ofRatio_of_roundsTo (hcanonical : Canonical significand exponent) (hnum : num ≠ 0)
    (hden : den ≠ 0) (h : RoundsTo significand exponent ((num : ℚ) / den)) (negative : Bool) :
    ofRatio negative num den = finite negative significand exponent := by
  obtain ⟨hlt, hleast, hgreatest, hnormal⟩ := hcanonical
  have hbinade := h.lt_binade hlt
  by_cases hcase : (2 : ℚ) ^ 52 * 2 ^ exponent ≤ (num : ℚ) / den ∨ exponent = leastExponent
  · -- The ratio is in the binade of the number.
    have hexponent : ratioExponent num den = exponent := by
      rcases hcase with hin | rfl
      · rw [ratioExponent_eq hnum hden hin hbinade]
        exact max_eq_right hleast
      · exact ratioExponent_least hnum hden hbinade
    rw [ofRatio_eq hnum negative hexponent (h.roundQuotient_eq hden), if_neg hlt.ne,
      if_neg (not_lt.mpr hgreatest)]
  · -- The ratio is just below a power of two, and is rounded up to it.
    rw [not_or, not_le] at hcase
    obtain ⟨hbelow, hne⟩ := hcase
    obtain rfl := h.eq_of_below (hnormal.resolve_right hne) hbelow
    exact ofRatio_of_carry hnum hden (lt_of_le_of_ne hleast (Ne.symm hne))
      hgreatest h hbelow negative

/-! ### The form of what is rounded -/

theorem roundQuotient_bounds (n d : Nat) :
    n / d ≤ roundQuotient n d ∧ roundQuotient n d ≤ n / d + 1 := by
  unfold roundQuotient
  dsimp only
  split
  · omega
  · split <;> omega

theorem canonical_ofRatio (hden : den ≠ 0) {negative sign : Bool}
    (h : ofRatio negative num den = finite sign significand exponent) :
    Canonical significand exponent := by
  by_cases hnum : num = 0
  · simp only [ofRatio, hnum, if_true, zero, finite.injEq] at h
    obtain ⟨-, rfl, rfl⟩ := h
    exact ⟨by decide, le_rfl, by decide, .inr rfl⟩
  obtain ⟨binade, hlow, hhigh⟩ := exists_binade hnum hden
  have hexponent := ratioExponent_eq hnum hden hlow hhigh
  generalize hchosen : max leastExponent binade = chosen at hexponent
  rw [ofRatio_eq hnum negative hexponent rfl] at h
  have hpositive := scaleRatio_pos num hden chosen
  have hcast : (0 : ℚ) < (scaleRatio num den chosen).2 := Nat.cast_pos.mpr hpositive
  have hunit : (0 : ℚ) < 2 ^ chosen := zpow_pos two_pos chosen
  have hscale := scaleRatio_eq num den chosen
  have hlt : (scaleRatio num den chosen).1 / (scaleRatio num den chosen).2 < 2 ^ 53 := by
    have hle : (2 : ℚ) ^ binade ≤ 2 ^ chosen :=
      zpow_le_zpow_right₀ one_le_two (hchosen ▸ le_max_right _ _)
    have hratio : (num : ℚ) / den / 2 ^ chosen < 2 ^ 53 := by
      rw [div_lt_iff₀ hunit]
      linarith
    rw [← hscale, div_lt_iff₀ hcast] at hratio
    rw [Nat.div_lt_iff_lt_mul hpositive]
    exact_mod_cast hratio
  have hge : chosen = leastExponent ∨
      2 ^ 52 ≤ (scaleRatio num den chosen).1 / (scaleRatio num den chosen).2 := by
    rcases max_choice leastExponent binade with hleast | hbinade
    · exact .inl (hchosen.symm.trans hleast)
    · refine .inr ?_
      obtain rfl : binade = chosen := hbinade.symm.trans hchosen
      have hratio : (2 : ℚ) ^ 52 ≤ (num : ℚ) / den / 2 ^ binade := by
        rw [le_div_iff₀ hunit]
        exact hlow
      rw [← hscale, le_div_iff₀ hcast] at hratio
      rw [Nat.le_div_iff_mul_le hpositive]
      exact_mod_cast hratio
  obtain ⟨hbelow, habove⟩ :=
    roundQuotient_bounds (scaleRatio num den chosen).1 (scaleRatio num den chosen).2
  have hleast : leastExponent ≤ chosen := hchosen ▸ le_max_left _ _
  split at h
  · split at h
    · simp at h
    · rename_i hgreatest
      obtain ⟨-, rfl, rfl⟩ := finite.inj h
      exact ⟨by decide, by omega, by omega, .inl le_rfl⟩
  · rename_i hcarry
    split at h
    · simp at h
    · rename_i hgreatest
      obtain ⟨-, rfl, rfl⟩ := finite.inj h
      exact ⟨by omega, hleast, by omega, hge.symm.imp_left fun hmin => hmin.trans hbelow⟩

end BlockSynth.Binary64
