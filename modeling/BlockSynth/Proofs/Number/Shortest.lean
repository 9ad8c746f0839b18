import BlockSynth.Number.Shortest
import BlockSynth.Proofs.Number.Rounding

/-! # The shortest text reads back

The digits that a number is written with lie among the ratios that round to it. The search for them
ends in time, since twenty-three places below its start the grid is finer than the span.
-/
namespace BlockSynth.Binary64

/-- A span around its value. -/
structure Span.Proper (s : Span) : Prop where
  low_lt : s.low < s.value
  lt_high : s.value < s.high
  denominator_pos : 0 < s.denominator

structure Span.Holds (s : Span) (ratio : ℚ) : Prop where
  low : (s.low : ℚ) / s.denominator ≤ ratio
  high : ratio ≤ (s.high : ℚ) / s.denominator
  tie :
    s.closed = true ∨ ((s.low : ℚ) / s.denominator < ratio ∧ ratio < (s.high : ℚ) / s.denominator)

section

variable {s : Span} {grid : Int}

/-- What lies on the grid and what lies in the span, over their common denominator. -/
theorem Span.holds_iff (h : 0 < s.denominator) (digits : Nat) :
    let scale := 10 ^ (-grid).toNat
    let point := digits * (s.denominator * 10 ^ grid.toNat)
    s.Holds (digits * 10 ^ grid) ↔ s.low * scale ≤ point ∧ point ≤ s.high * scale ∧
      (s.closed = true ∨ (s.low * scale < point ∧ point < s.high * scale)) := by
  intro scale point
  have hscale : 0 < scale := Nat.pow_pos (by decide)
  have hcommon : (0 : ℚ) < ((s.denominator * scale : Nat) : ℚ) :=
    Nat.cast_pos.mpr (Nat.mul_pos h hscale)
  have hscaled : (scale : ℚ) ≠ 0 := Nat.cast_ne_zero.mpr hscale.ne'
  have hdenominator : (s.denominator : ℚ) ≠ 0 := Nat.cast_ne_zero.mpr h.ne'
  have hend : ∀ n : Nat,
      (n : ℚ) / s.denominator = ((n * scale : Nat) : ℚ) / ((s.denominator * scale : Nat) : ℚ) := by
    intro n
    push_cast
    rw [mul_div_mul_right _ _ hscaled]
  have hpoint : (digits : ℚ) * 10 ^ grid = (point : ℚ) / ((s.denominator * scale : Nat) : ℚ) := by
    rw [zpow_eq_div (by norm_num) grid]
    simp only [point, scale]
    push_cast
    rw [mul_left_comm, mul_div_mul_left _ _ hdenominator, mul_div_assoc]
  constructor
  · rintro ⟨hlow, hhigh, htie⟩
    simp only [hend, hpoint, div_le_div_iff_of_pos_right hcommon,
      div_lt_div_iff_of_pos_right hcommon, Nat.cast_le, Nat.cast_lt] at hlow hhigh htie
    exact ⟨hlow, hhigh, htie⟩
  · rintro ⟨hlow, hhigh, htie⟩
    refine ⟨?_, ?_, ?_⟩ <;>
      simp only [hend, hpoint, div_le_div_iff_of_pos_right hcommon,
        div_lt_div_iff_of_pos_right hcommon, Nat.cast_le, Nat.cast_lt]
    · exact hlow
    · exact hhigh
    · exact htie

theorem Span.holds_of_onGrid? (hs : s.Proper) {digits : Nat} (h : s.onGrid? grid = some digits) :
    s.Holds (digits * 10 ^ grid) := by
  obtain ⟨hlow, hhigh, hdenominator⟩ := hs
  have hscale : 0 < 10 ^ (-grid).toNat := Nat.pow_pos (by decide)
  have hlow' : s.low * 10 ^ (-grid).toNat < s.value * 10 ^ (-grid).toNat :=
    Nat.mul_lt_mul_of_pos_right hlow hscale
  have hhigh' : s.value * 10 ^ (-grid).toNat < s.high * 10 ^ (-grid).toNat :=
    Nat.mul_lt_mul_of_pos_right hhigh hscale
  have hstep : 0 < s.denominator * 10 ^ grid.toNat :=
    Nat.mul_pos hdenominator (Nat.pow_pos (by decide))
  refine (holds_iff hdenominator digits).mpr ?_
  unfold onGrid? at h
  dsimp only at h ⊢
  have hfloor :=
    Nat.div_mul_le_self (s.value * 10 ^ (-grid).toNat) (s.denominator * 10 ^ grid.toNat)
  have hnext := @Nat.lt_div_mul_add (s.value * 10 ^ (-grid).toNat) _ hstep
  generalize s.value * 10 ^ (-grid).toNat = value at *
  generalize s.low * 10 ^ (-grid).toNat = low at *
  generalize s.high * 10 ^ (-grid).toNat = high at *
  generalize s.denominator * 10 ^ grid.toNat = step at *
  generalize value / step = floor at *
  have hsucc : (floor + 1) * step = floor * step + step := Nat.succ_mul floor step
  -- The point below the value has to reach the low end, and the point above it the high end.
  cases hclosed : s.closed <;>
    simp only [hclosed, Bool.false_eq_true, if_false, if_true, false_or, true_or, and_true]
      at h ⊢ <;>
    split at h
  · split at h <;> obtain rfl := Option.some.inj h <;> omega
  · split at h
    · obtain rfl := Option.some.inj h
      omega
    · split at h
      · obtain rfl := Option.some.inj h
        omega
      · simp at h
  · split at h <;> obtain rfl := Option.some.inj h <;> omega
  · split at h
    · obtain rfl := Option.some.inj h
      omega
    · split at h
      · obtain rfl := Option.some.inj h
        omega
      · simp at h

/-- A grid that is finer than the upper half of the span has a point in it. -/
theorem Span.isSome_onGrid?
    (hfine : s.value * 10 ^ (-grid).toNat + s.denominator * 10 ^ grid.toNat <
      s.high * 10 ^ (-grid).toNat) :
    (s.onGrid? grid).isSome = true := by
  have hfloor :=
    Nat.div_mul_le_self (s.value * 10 ^ (-grid).toNat) (s.denominator * 10 ^ grid.toNat)
  unfold onGrid?
  dsimp only
  generalize s.value * 10 ^ (-grid).toNat = value at *
  generalize s.low * 10 ^ (-grid).toNat = low at *
  generalize s.high * 10 ^ (-grid).toNat = high at *
  generalize s.denominator * 10 ^ grid.toNat = step at *
  generalize value / step = floor at *
  have hsucc : (floor + 1) * step = floor * step + step := Nat.succ_mul floor step
  have hlt : (floor + 1) * step < high := by omega
  cases s.closed <;> simp only [Bool.false_eq_true, if_false, if_true, hlt, hlt.le, and_true] <;>
    split <;> rfl

theorem Span.holds_of_search (hs : s.Proper) {fuel : Nat}
    (h : ∃ below : Nat, below < fuel ∧ (s.onGrid? (grid - below)).isSome = true) :
    s.Holds ((s.search grid fuel).1 * 10 ^ (s.search grid fuel).2) := by
  induction fuel generalizing grid with
  | zero =>
    obtain ⟨below, hlt, -⟩ := h
    omega
  | succ fuel ih =>
    unfold search
    cases hgrid : s.onGrid? grid with
    | some digits => exact holds_of_onGrid? hs hgrid
    | none =>
      obtain ⟨below, hlt, hsome⟩ := h
      cases below with
      | zero =>
        rw [Nat.cast_zero, sub_zero, hgrid] at hsome
        simp at hsome
      | succ below =>
        refine ih ⟨below, by omega, ?_⟩
        have hsame : grid - 1 - (below : ℤ) = grid - ((below + 1 : ℕ) : ℤ) := by push_cast; ring
        rw [hsame]
        exact hsome

end

/-! ### The span of a number -/

section

variable {significand : Nat} {exponent : Int}

theorem span_proper (h : significand ≠ 0) (exponent : Int) :
    (span significand exponent).Proper := by
  have hunit := Nat.two_pow_pos (exponent - 2).toNat
  refine ⟨?_, ?_, Nat.two_pow_pos _⟩
  · refine Nat.mul_lt_mul_of_pos_right ?_ hunit
    split <;> omega
  · exact Nat.mul_lt_mul_of_pos_right (by omega) hunit

theorem span_unit (exponent : Int) :
    ((2 ^ (exponent - 2).toNat : ℕ) : ℚ) / ((2 ^ (2 - exponent).toNat : ℕ) : ℚ) =
      2 ^ exponent / 4 := by
  have hneg : 2 - exponent = -(exponent - 2) := by ring
  rw [hneg]
  push_cast
  rw [← zpow_eq_div two_ne_zero, zpow_sub₀ two_ne_zero]
  norm_num

theorem roundsTo_of_holds (h : significand ≠ 0) {ratio : ℚ}
    (hholds : (span significand exponent).Holds ratio) :
    RoundsTo significand exponent ratio := by
  have hunit := span_unit exponent
  have hlow : ((span significand exponent).low : ℚ) / (span significand exponent).denominator =
      (significand - reach significand exponent) * 2 ^ exponent := by
    unfold span reach
    dsimp only
    split
    · rw [Nat.cast_mul, mul_div_assoc, hunit, Nat.cast_sub (by omega)]
      push_cast
      ring
    · rw [Nat.cast_mul, mul_div_assoc, hunit, Nat.cast_sub (by omega)]
      push_cast
      ring
  have hhigh : ((span significand exponent).high : ℚ) / (span significand exponent).denominator =
      (significand + 1 / 2) * 2 ^ exponent := by
    unfold span
    dsimp only
    rw [Nat.cast_mul, mul_div_assoc, hunit]
    push_cast
    ring
  obtain ⟨hbelow, habove, htie⟩ := hholds
  rw [hlow] at hbelow htie
  rw [hhigh] at habove htie
  have hclosed : (span significand exponent).closed = true ↔ significand % 2 = 0 := by
    simp [span]
  exact ⟨hbelow, habove, htie.imp_left hclosed.mp⟩

/-! ### The end of the search -/

/-- The decimal estimate of a power of two is off by less than fifteen bits, because the
twenty-eighth power of ten lies between the ninety-third and the ninety-fourth power of two. -/
theorem ten_zpow_le {places bits : ℤ} (h : 100000 * places ≤ 30103 * bits) (hlow : -99000 ≤ bits)
    (hhigh : bits ≤ 1400) : (10 : ℚ) ^ places ≤ 2 ^ (bits + 15) := by
  have hpower : ∀ (base : ℚ) (power : ℕ) (exponent : ℤ),
      (base ^ exponent) ^ power = base ^ (power * exponent) := by
    intro base power exponent
    rw [← zpow_natCast, ← zpow_mul, mul_comm]
  have hten : (10 : ℚ) ^ (28 * places) ≤ 2 ^ (28 * (bits + 15)) := by
    rcases le_or_gt 0 places with hnonneg | hneg
    · calc (10 : ℚ) ^ (28 * places) = (10 ^ 28) ^ places := by rw [zpow_mul]; norm_cast
        _ ≤ (2 ^ 94) ^ places := zpow_le_zpow_left₀ hnonneg (by norm_num) (by norm_num)
        _ = 2 ^ (94 * places) := by rw [zpow_mul]; norm_cast
        _ ≤ 2 ^ (28 * (bits + 15)) := zpow_le_zpow_right₀ one_le_two (by omega)
    · have hnonneg : 0 ≤ -places := by omega
      have hinverse : (2 : ℚ) ^ (93 * -places) ≤ 10 ^ (28 * -places) := by
        calc (2 : ℚ) ^ (93 * -places) = (2 ^ 93) ^ (-places) := by rw [zpow_mul]; norm_cast
          _ ≤ (10 ^ 28) ^ (-places) := zpow_le_zpow_left₀ hnonneg (by norm_num) (by norm_num)
          _ = 10 ^ (28 * -places) := by rw [zpow_mul]; norm_cast
      have hback := inv_anti₀ (zpow_pos two_pos _) hinverse
      rw [← zpow_neg, ← zpow_neg, ← mul_neg, ← mul_neg, neg_neg] at hback
      exact hback.trans (zpow_le_zpow_right₀ one_le_two (by omega))
  have hnonneg : (0 : ℚ) ≤ 2 ^ (bits + 15) := (zpow_pos two_pos _).le
  refine (pow_le_pow_iff_left₀ (zpow_pos (by norm_num) _).le hnonneg (by norm_num : 28 ≠ 0)).mp ?_
  rw [hpower, hpower]
  exact hten

theorem shortest_holds (hcanonical : Canonical significand exponent) (h : significand ≠ 0) :
    (span significand exponent).Holds
      ((shortest significand exponent).1 * 10 ^ (shortest significand exponent).2) := by
  obtain ⟨hlt, hleast, hgreatest, -⟩ := hcanonical
  have hbits : significand.log2 < 53 := (Nat.log2_lt h).mpr hlt
  unfold leastExponent at hleast
  unfold greatestExponent at hgreatest
  unfold shortest
  refine Span.holds_of_search (span_proper h exponent) ⟨23, by decide, Span.isSome_onGrid? ?_⟩
  have hdiv := Int.mul_ediv_self_le (x := ((significand.log2 : ℤ) + 1 + exponent) * 30103)
    (k := 100000) (by decide)
  generalize ((significand.log2 : ℤ) + 1 + exponent) * 30103 / 100000 = places at *
  have hten := @ten_zpow_le places (exponent + 53) (by omega) (by omega) (by omega)
  have hgrid : places + 2 - ((23 : ℕ) : ℤ) = places - 21 := by push_cast; ring
  rw [hgrid]
  -- The grid is finer than half a unit in the last place.
  have hfine : (10 : ℚ) ^ (places - 21) < 2 * (2 ^ exponent / 4) := by
    have hunit : (0 : ℚ) < 2 ^ exponent := zpow_pos two_pos exponent
    have hshift : (2 : ℚ) ^ (exponent + 53 + 15) = 2 ^ exponent * 2 ^ 68 := by
      rw [add_assoc, zpow_add₀ two_ne_zero]
      norm_num
    rw [hshift] at hten
    rw [zpow_sub₀ (by norm_num), div_lt_iff₀ (by positivity)]
    calc (10 : ℚ) ^ places ≤ 2 ^ exponent * 2 ^ 68 := hten
      _ < 2 ^ exponent * (10 ^ 21 / 2) := mul_lt_mul_of_pos_left (by norm_num) hunit
      _ = 2 * (2 ^ exponent / 4) * 10 ^ (21 : ℤ) := by norm_num; ring
  rw [← span_unit, zpow_eq_div (by norm_num), ← mul_div_assoc,
    div_lt_div_iff₀ (by positivity) (Nat.cast_pos.mpr (Nat.two_pow_pos _))] at hfine
  have hcross : 10 ^ (places - 21).toNat * 2 ^ (2 - exponent).toNat <
      2 * 2 ^ (exponent - 2).toNat * 10 ^ (-(places - 21)).toNat := by exact_mod_cast hfine
  simp only [span]
  generalize 10 ^ (-(places - 21)).toNat = scale at *
  generalize 10 ^ (places - 21).toNat = power at *
  generalize 2 ^ (exponent - 2).toNat = unit at *
  calc 4 * significand * unit * scale + 2 ^ (2 - exponent).toNat * power
      = 4 * significand * unit * scale + power * 2 ^ (2 - exponent).toNat := by ring
    _ < 4 * significand * unit * scale + 2 * unit * scale := by omega
    _ = (4 * significand + 2) * unit * scale := by ring

theorem shortest_roundsTo (hcanonical : Canonical significand exponent) (h : significand ≠ 0) :
    RoundsTo significand exponent
      ((shortest significand exponent).1 * 10 ^ (shortest significand exponent).2) :=
  roundsTo_of_holds h (shortest_holds hcanonical h)

end

end BlockSynth.Binary64
