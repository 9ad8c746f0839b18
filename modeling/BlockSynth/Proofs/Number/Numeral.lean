import BlockSynth.Number.Decimal
import BlockSynth.Number.Shortest

/-! # The form of number text

A number is written as digits, or as digits, a point and digits, with a minus sign in front if it is
negative. Such text says a decimal.
-/
namespace BlockSynth

-- Powers of numbers are the ones of the core library, whatever else is imported.
attribute [local instance (high)] instPowNat

namespace Chars

/-- Digits, perhaps with a point among them, and the decimal that they say. -/
inductive Numeral : List Char → Decimal → Prop
  | whole (digits : List Char) : isDigits digits = true →
    Numeral digits (.ofParts false digits [] 0)
  | point (whole fraction : List Char) : isDigits whole = true → isDigits fraction = true →
    Numeral (whole ++ '.' :: fraction) (.ofParts false whole fraction 0)

theorem isDigits_iff {text : List Char} :
    isDigits text = true ↔ text ≠ [] ∧ ∀ c ∈ text, c.isDigit = true := by
  simp [isDigits]

theorem isDigits_toString (n : Nat) : isDigits (toString n).toList = true := by
  rw [isDigits_iff, Nat.toString_eq_repr, Nat.toList_repr]
  exact ⟨Nat.toDigits_ne_nil, fun c hc => Nat.isDigit_of_mem_toDigits (by omega) (by omega) hc⟩

theorem isDigits_append_zeros {text : List Char} (h : isDigits text = true) (count : Nat) :
    isDigits (text ++ List.replicate count '0') = true := by
  rw [isDigits_iff] at h ⊢
  refine ⟨by simp [h.1], fun c hc => ?_⟩
  rcases List.mem_append.mp hc with hc | hc
  · exact h.2 c hc
  · rw [List.eq_of_mem_replicate hc]
    rfl

theorem isDigits_zeros_append {text : List Char} (h : isDigits text = true) (count : Nat) :
    isDigits (List.replicate count '0' ++ text) = true := by
  rw [isDigits_iff] at h ⊢
  refine ⟨by simp [h.1], fun c hc => ?_⟩
  rcases List.mem_append.mp hc with hc | hc
  · rw [List.eq_of_mem_replicate hc]
    rfl
  · exact h.2 c hc

theorem natOfDigits_eq (text : List Char) : natOfDigits text = Nat.ofDigitChars 10 text 0 := by
  rw [Nat.ofDigitChars_eq_foldl]
  rfl

theorem natOfDigits_toString (n : Nat) : natOfDigits (toString n).toList = n := by
  rw [natOfDigits_eq, Nat.toString_eq_repr, Nat.toList_repr,
    Nat.ofDigitChars_toDigits (by decide) (by decide)]

theorem natOfDigits_append_zeros (text : List Char) (count : Nat) :
    natOfDigits (text ++ List.replicate count '0') = natOfDigits text * 10 ^ count := by
  rw [natOfDigits_eq, natOfDigits_eq, Nat.ofDigitChars_append,
    Nat.ofDigitChars_replicate_zero, Nat.mul_comm]

theorem natOfDigits_zeros_append (text : List Char) (count : Nat) :
    natOfDigits (List.replicate count '0' ++ text) = natOfDigits text := by
  rw [natOfDigits_eq, natOfDigits_eq, Nat.ofDigitChars_append,
    Nat.ofDigitChars_replicate_zero, Nat.mul_zero]

theorem numeral_toString (n : Nat) : Numeral (toString n).toList ⟨false, n, 0⟩ := by
  have hnumeral := Numeral.whole _ (isDigits_toString n)
  rw [Decimal.ofParts, List.append_nil, natOfDigits_toString] at hnumeral
  exact hnumeral

end Chars

namespace Binary64

open Chars

theorem numeral_pointText {digits : String} (h : isDigits digits.toList = true) {places : Nat}
    (hplaces : 0 < places) :
    Numeral (pointText digits places).toList ⟨false, natOfDigits digits.toList, -places⟩ := by
  generalize hshown : List.replicate (places + 1 - digits.length) '0' ++ digits.toList = shown
  have hdigits : isDigits shown = true := hshown ▸ isDigits_zeros_append h _
  have hvalue : natOfDigits shown = natOfDigits digits.toList :=
    hshown ▸ natOfDigits_zeros_append _ _
  have hlength : places < shown.length := by
    rw [← hshown, List.length_append, List.length_replicate, String.length_toList]
    omega
  have htext : (pointText digits places).toList =
      shown.take (shown.length - places) ++ '.' :: shown.drop (shown.length - places) := by
    simp [pointText, ← hshown, String.length_toList]
  rw [isDigits_iff] at hdigits
  have hnumeral :=
    Numeral.point (shown.take (shown.length - places)) (shown.drop (shown.length - places))
    (isDigits_iff.mpr ⟨List.ne_nil_of_length_pos (by rw [List.length_take]; omega),
      fun c hc => hdigits.2 c (List.mem_of_mem_take hc)⟩)
    (isDigits_iff.mpr ⟨List.ne_nil_of_length_pos (by rw [List.length_drop]; omega),
      fun c hc => hdigits.2 c (List.mem_of_mem_drop hc)⟩)
  have hplaces' : ((shown.length - (shown.length - places) : Nat) : Int) = places := by omega
  rw [Decimal.ofParts, List.take_append_drop, List.length_drop, hvalue, hplaces', Int.zero_sub]
    at hnumeral
  rw [htext]
  exact hnumeral

theorem numeral_positional (digits : Nat) (grid : Int) :
    Numeral (positional digits grid).toList ⟨false, digits * 10 ^ grid.toNat, min grid 0⟩ := by
  unfold positional
  split
  · rename_i hgrid
    have hnumeral := Numeral.whole _ (isDigits_append_zeros (isDigits_toString digits) grid.toNat)
    rw [Decimal.ofParts, List.append_nil, natOfDigits_append_zeros, natOfDigits_toString]
      at hnumeral
    rw [String.toList_append, String.toList_ofList, Int.min_eq_right hgrid]
    exact hnumeral
  · rename_i hgrid
    have hnumeral := @numeral_pointText _ (isDigits_toString digits) (-grid).toNat (by omega)
    have hzero : grid.toNat = 0 := by omega
    have hplaces : -((-grid).toNat : Int) = min grid 0 := by omega
    rw [natOfDigits_toString, hplaces] at hnumeral
    rw [hzero, Nat.pow_zero, Nat.mul_one]
    exact hnumeral

/-- The decimal that the text of a magnitude says. -/
def magnitude (significand : Nat) (exponent : Int) : Decimal :=
  if significand = 0 then ⟨false, 0, 0⟩
  else
    let (digits, grid) := shortest significand exponent
    ⟨false, digits * 10 ^ grid.toNat, min grid 0⟩

theorem numeral_magnitudeText (significand : Nat) (exponent : Int) :
    Numeral (magnitudeText significand exponent).toList (magnitude significand exponent) := by
  unfold magnitudeText magnitude
  split
  · exact numeral_toString 0
  · exact numeral_positional _ _

/-- An integral number is its integer, in sign and magnitude. -/
theorem natAbs_mul_of_integer? {negative : Bool} {significand : Nat} {exponent n : Int}
    (h : (finite negative significand exponent).integer? = some n) :
    n.natAbs * 2 ^ (-exponent).toNat = significand * 2 ^ exponent.toNat ∧
      n = if negative then -(n.natAbs : Int) else n.natAbs := by
  simp only [integer?] at h
  split at h
  · rename_i hmod
    have hparts := Nat.div_mul_cancel (Nat.dvd_of_mod_eq_zero hmod)
    generalize significand * 2 ^ exponent.toNat / 2 ^ (-exponent).toNat = quotient at h hparts
    obtain rfl := Option.some.inj h
    cases negative with
    | false => exact ⟨hparts, rfl⟩
    | true => exact ⟨by simpa using hparts, by simp⟩
  · simp at h

/-- The sign of an integral number is that of its integer. -/
theorem isNegative_of_integer? {negative : Bool} {significand : Nat} {exponent n : Int}
    (h : (finite negative significand exponent).integer? = some n) :
    (finite negative significand exponent).isNegative = decide (n < 0) := by
  obtain ⟨hparts, hsign⟩ := natAbs_mul_of_integer? h
  have hzero : n.natAbs = 0 ↔ significand = 0 := by
    have hproducts : n.natAbs * 2 ^ (-exponent).toNat = 0 ↔
        significand * 2 ^ exponent.toNat = 0 := by rw [hparts]
    simpa [Nat.mul_eq_zero] using hproducts
  rw [hsign]
  generalize n.natAbs = magnitude at hzero
  cases negative with
  | false => simp [isNegative]
  | true =>
    by_cases hmagnitude : magnitude = 0
    · simp [isNegative, hmagnitude, hzero.mp hmagnitude]
    · simp [isNegative, mt hzero.mpr hmagnitude, Nat.pos_of_ne_zero hmagnitude]

theorem toString_toList_int (n : Int) :
    (toString n).toList = (if n < 0 then ['-'] else []) ++ (toString n.natAbs).toList := by
  rw [Int.toString_eq_repr, Int.repr_eq_if, Nat.toString_eq_repr]
  split
  · rename_i hn
    have habs : n.toNat = n.natAbs := by omega
    simp [habs, Int.not_lt.mpr hn]
  · rename_i hn
    have habs : (-n).toNat = n.natAbs := by omega
    simp [habs, Int.not_le.mp hn]

/-- The text of a finite number in code. A zero has no sign. -/
theorem codeText_finite (negative : Bool) (significand : Nat) (exponent : Int) :
    let number := finite negative significand exponent
    ∃ body decimal, Numeral body decimal ∧
      number.codeText.toList = (if number.isNegative then ['-'] else []) ++ body ∧
      ((∃ n, number.integer? = some n ∧ decimal = ⟨false, n.natAbs, 0⟩) ∨
        decimal = magnitude significand exponent) := by
  intro number
  have htext : number.isNegative = negative →
      number.toText.toList = (if number.isNegative then ['-'] else []) ++
        (magnitudeText significand exponent).toList := by
    intro hsign
    rw [hsign]
    cases negative <;> simp [number, toText]
  unfold codeText
  split
  · rename_i n hinteger
    have hsign := isNegative_of_integer? hinteger
    split
    · refine ⟨_, _, numeral_toString n.natAbs, ?_, .inl ⟨n, hinteger, rfl⟩⟩
      rw [toString_toList_int, hsign]
      simp only [decide_eq_true_eq]
    · rename_i hbound
      refine ⟨_, _, numeral_magnitudeText significand exponent, htext ?_, .inr rfl⟩
      have hne : significand ≠ 0 := by
        rintro rfl
        have hzero : n = 0 := by simpa [number, integer?, eq_comm] using hinteger
        simp [hzero, integerBound] at hbound
      simp [number, isNegative, hne]
  · rename_i hinteger
    refine ⟨_, _, numeral_magnitudeText significand exponent, htext ?_, .inr rfl⟩
    have hne : significand ≠ 0 := by
      rintro rfl
      simp [number, integer?] at hinteger
    simp [number, isNegative, hne]

end Binary64

end BlockSynth
