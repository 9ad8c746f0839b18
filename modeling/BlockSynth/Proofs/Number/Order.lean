import BlockSynth.Proofs.Number.Literal
import Mathlib.Data.List.TakeWhile

/-! # The order of integer literals

Numbers that are written as integers are in the order of these integers, though they may be none of
them: what is written is the shortest text that rounds to the number.
-/
namespace BlockSynth.Binary64

-- Powers of numbers are the ones of the core library, whatever else is imported.
attribute [local instance (high)] instPowNat

variable {significand significand' : Nat} {exponent exponent' : Int} {ratio ratio' : ℚ}

/-! ### Ratios that round to a number -/

theorem RoundsTo.pos (hsignificand : significand ≠ 0) (hcanonical : Canonical significand exponent)
    (h : RoundsTo significand exponent ratio) : 0 < ratio :=
  (zpow_pos two_pos (leastExponent - 1)).trans_le (h.le hsignificand hcanonical.least_le)

/-- A ratio rounds to one number. -/
theorem RoundsTo.unique (hsignificand : significand ≠ 0)
    (hcanonical : Canonical significand exponent) (hcanonical' : Canonical significand' exponent')
    (h : RoundsTo significand exponent ratio) (h' : RoundsTo significand' exponent' ratio) :
    significand = significand' ∧ exponent = exponent' := by
  have hpos := h.pos hsignificand hcanonical
  have hnum : ratio.num.toNat ≠ 0 := by
    have hnumerator := Rat.num_pos.mpr hpos
    omega
  have hratio : ratio = (ratio.num.toNat : ℚ) / ratio.den := by
    have hcast : ((ratio.num.toNat : ℤ) : ℚ) = ratio.num := by
      rw [Int.toNat_of_nonneg (Rat.num_nonneg.mpr hpos.le)]
    rw [Int.cast_natCast] at hcast
    rw [hcast, Rat.num_div_den]
  rw [hratio] at h h'
  have hround := ofRatio_of_roundsTo hcanonical hnum ratio.den_nz h false
  rw [ofRatio_of_roundsTo hcanonical' hnum ratio.den_nz h' false] at hround
  obtain ⟨-, rfl, rfl⟩ := finite.inj hround
  exact ⟨rfl, rfl⟩

/-- What lies between ratios that round to a number rounds to it as well. -/
theorem RoundsTo.between {middle : ℚ} (h : RoundsTo significand exponent ratio)
    (h' : RoundsTo significand exponent ratio') (hlow : ratio ≤ middle) (hhigh : middle ≤ ratio') :
    RoundsTo significand exponent middle :=
  ⟨h.low.trans hlow, hhigh.trans h'.high, h.tie.elim .inl fun hstrict =>
    h'.tie.imp_right fun hstrict' => ⟨hstrict.1.trans_le hlow, hhigh.trans_lt hstrict'.2⟩⟩

/-- Rounding keeps the order. -/
theorem RoundsTo.mono (hsignificand : significand ≠ 0) (hcanonical : Canonical significand exponent)
    (hcanonical' : Canonical significand' exponent') (h : RoundsTo significand exponent ratio)
    (h' : RoundsTo significand' exponent' ratio') (hle : ratio ≤ ratio') :
    (significand : ℚ) * 2 ^ exponent ≤ significand' * 2 ^ exponent' := by
  have hself := roundsTo_self significand exponent
  have hself' := roundsTo_self significand' exponent'
  by_contra hlt
  rw [not_le] at hlt
  -- Both numbers would be what a ratio between them rounds to.
  have hcommon : ∃ middle,
      RoundsTo significand exponent middle ∧ RoundsTo significand' exponent' middle := by
    rcases le_total ratio (significand' * 2 ^ exponent') with hlow | hhigh
    · exact ⟨_, h.between hself hlow hlt.le, hself'⟩
    · exact ⟨ratio, h, hself'.between h' hhigh hle⟩
  obtain ⟨middle, hmiddle, hmiddle'⟩ := hcommon
  obtain ⟨rfl, rfl⟩ := hmiddle.unique hsignificand hcanonical hcanonical' hmiddle'
  exact absurd hlt (lt_irrefl _)

/-! ### Numbers that are written as integers -/

/-- The text of a number is its sign, if it is not zero, and the text of its magnitude. -/
theorem codeText_eq_append (negative : Bool) (significand : Nat) (exponent : Int) :
    (finite negative significand exponent).codeText.toList =
      (if (finite negative significand exponent).isNegative then ['-'] else []) ++
        (finite false significand exponent).codeText.toList := by
  cases negative with
  | false => simp [isNegative]
  | true =>
    cases hinteger : (finite false significand exponent).integer? with
    | none =>
      have hinteger' : (finite true significand exponent).integer? = none := by
        simpa [integer?] using hinteger
      have hne : significand ≠ 0 := by
        rintro rfl
        simp [integer?] at hinteger
      simp [codeText, hinteger, hinteger', toText, isNegative, hne]
    | some n =>
      have hinteger' : (finite true significand exponent).integer? = some (-n) := by
        simp only [integer?] at hinteger ⊢
        split at hinteger
        · rename_i hmod
          obtain rfl := Option.some.inj hinteger
          simp [hmod]
        · simp at hinteger
      have hsign := isNegative_of_integer? hinteger'
      have hpositive := isNegative_of_integer? hinteger
      have hn : 0 ≤ n := by simpa [isNegative] using hpositive
      unfold codeText
      rw [hinteger, hinteger']
      simp only [Int.natAbs_neg, hsign]
      split
      · rw [toString_toList_int, toString_toList_int]
        simp [Int.not_lt.mpr hn]
      · rename_i hbound
        have hne : n ≠ 0 := by
          rintro rfl
          exact hbound (by decide)
        have hlt : -n < 0 := by omega
        rw [decide_eq_true hlt]
        simp [toText]

/-- A magnitude, and a natural number that rounds to it. -/
structure Rounded (significand : Nat) (exponent : Int) (n : Nat) : Prop where
  canonical : Canonical significand exponent
  eq_zero : significand = 0 → n = 0
  rounds : significand ≠ 0 → RoundsTo significand exponent n

variable {n n' : Nat} {z z' : Int} {negative negative' : Bool}

theorem Rounded.pos (h : Rounded significand exponent n) (hne : significand ≠ 0) : 0 < n := by
  have hpos := (h.rounds hne).pos hne h.canonical
  exact_mod_cast hpos

theorem Rounded.value_eq_zero (h : Rounded significand exponent n)
    (hvalue : (significand : ℚ) * 2 ^ exponent = 0) :
    n = 0 := by
  rcases mul_eq_zero.mp hvalue with hzero | hunit
  · exact h.eq_zero (Nat.cast_eq_zero.mp hzero)
  · exact absurd hunit (zpow_pos two_pos exponent).ne'

theorem Chars.Numeral.toString_eq {decimal : Decimal}
    (h : Chars.Numeral (toString n).toList decimal) :
    decimal = ⟨false, n, 0⟩ := by
  have hdigits := (Chars.isDigits_iff.mp (Chars.isDigits_toString n)).2
  generalize htext : (toString n).toList = text at h hdigits
  cases h with
  | whole _ _ =>
    rw [Decimal.ofParts, List.append_nil, ← htext, Chars.natOfDigits_toString]
    rfl
  | point whole fraction _ _ => exact absurd (hdigits '.' (by simp)) (by decide)

theorem rounded_of_codeText (hcanonical : Canonical significand exponent)
    (h : (finite false significand exponent).codeText = toString n) :
    Rounded significand exponent n := by
  obtain ⟨body, decimal, hbody, htext, hdecimal⟩ := codeText_finite false significand exponent
  rw [h] at htext
  have hsame : (toString n).toList = body := by simpa [isNegative] using htext
  subst hsame
  obtain rfl := Chars.Numeral.toString_eq hbody
  rcases hdecimal with ⟨k, hinteger, hk⟩ | hmagnitude
  · have hvalue := natAbs_of_integer? hinteger
    have hn : n = k.natAbs := congrArg Decimal.digits hk
    rw [← hn] at hvalue
    refine ⟨hcanonical, ?_, fun _ => ?_⟩
    · rintro rfl
      simpa using hvalue
    · rw [hvalue]
      exact roundsTo_self significand exponent
  · unfold magnitude at hmagnitude
    refine ⟨hcanonical, fun hzero => ?_, fun hne => ?_⟩
    · rw [if_pos hzero] at hmagnitude
      exact congrArg Decimal.digits hmagnitude
    · rw [if_neg hne] at hmagnitude
      have hround := shortest_roundsTo hcanonical hne
      generalize shortest significand exponent = written at *
      obtain ⟨digits, grid⟩ := written
      obtain ⟨-, hdigits, hgrid⟩ := Decimal.mk.inj hmagnitude
      dsimp only at hround
      have hnonneg : ((grid.toNat : ℕ) : ℤ) = grid := by omega
      rw [hdigits]
      rw [← hnonneg, zpow_natCast] at hround
      push_cast
      exact hround

/-- The sign and the magnitude of a number that is written as an integer. -/
theorem written (h : (finite negative significand exponent).codeText = toString z) :
    (finite negative significand exponent).isNegative = decide (z < 0) ∧
      (finite false significand exponent).codeText = toString z.natAbs := by
  have htext := codeText_eq_append negative significand exponent
  rw [h, toString_toList_int] at htext
  obtain ⟨body, decimal, hbody, hmagnitude, -⟩ := codeText_finite false significand exponent
  have hnone : (finite false significand exponent).isNegative = false := by simp [isNegative]
  rw [hnone, if_neg Bool.false_ne_true, List.nil_append] at hmagnitude
  have hdigit : ∀ c, body.head? = some c → c ≠ '-' := by
    rintro c hc rfl
    cases hbody with
    | whole digits hdigits =>
      have hall := (Chars.isDigits_iff.mp hdigits).2 '-' (List.mem_of_mem_head? hc)
      exact absurd hall (by decide)
    | point whole fraction hwhole _ =>
      obtain ⟨hne, hall⟩ := Chars.isDigits_iff.mp hwhole
      rw [List.head?_append_of_ne_nil _ hne] at hc
      exact absurd (hall '-' (List.mem_of_mem_head? hc)) (by decide)
  have hother : ∀ c, (toString z.natAbs).toList.head? = some c → c ≠ '-' := by
    rintro c hc rfl
    have hall :=
      (Chars.isDigits_iff.mp (Chars.isDigits_toString z.natAbs)).2 '-' (List.mem_of_mem_head? hc)
    exact absurd hall (by decide)
  rw [hmagnitude] at htext
  rw [← String.toList_inj, hmagnitude]
  cases hsign : (finite negative significand exponent).isNegative with
  | false =>
    by_cases hz : z < 0
    · rw [if_pos hz, hsign] at htext
      exact absurd rfl (hdigit '-' (by simpa using (congrArg List.head? htext).symm))
    · rw [if_neg hz, hsign] at htext
      exact ⟨by simpa using hz, by simpa using htext.symm⟩
  | true =>
    by_cases hz : z < 0
    · rw [if_pos hz, hsign] at htext
      exact ⟨by simpa using hz, by simpa using htext.symm⟩
    · rw [if_neg hz, hsign] at htext
      exact absurd rfl (hother '-' (by simpa using congrArg List.head? htext))

theorem ofRatio_sign {num den : Nat}
    (h : ofRatio false num den = finite false significand exponent) :
    ofRatio negative num den = finite negative significand exponent := by
  by_cases hnum : num = 0
  · simp only [ofRatio, hnum, if_true, zero] at h ⊢
    obtain ⟨-, rfl, rfl⟩ := finite.inj h
    rfl
  · rw [ofRatio_eq hnum _ rfl rfl] at h ⊢
    split at h
    · rename_i hcarry
      split at h
      · simp at h
      · rename_i hgreatest
        obtain ⟨-, rfl, rfl⟩ := finite.inj h
        rw [if_pos hcarry, if_neg hgreatest]
    · rename_i hcarry
      split at h
      · simp at h
      · rename_i hgreatest
        obtain ⟨-, rfl, rfl⟩ := finite.inj h
        rw [if_neg hcarry, if_neg hgreatest]

theorem Rounded.toBinary64_eq (h : Rounded significand exponent n) :
    (Decimal.mk negative n 0).toBinary64 = finite negative significand exponent := by
  by_cases hne : significand = 0
  · obtain rfl := h.eq_zero hne
    subst hne
    rw [h.canonical.eq_least]
    rfl
  · have hround := h.rounds hne
    have hdecimal := @toBinary64_of_roundsTo _ _ h.canonical hne n 0 (by simpa using hround)
    have hn := (h.pos hne).ne'
    unfold Decimal.toBinary64 at hdecimal ⊢
    simp only [Nat.cast_zero, neg_zero, hn, if_false] at hdecimal ⊢
    have hexponent : ¬(0 : Int) ≥ Decimal.overflowExponent := by decide
    simp only [hexponent, if_false, lt_self_iff_false, false_and] at hdecimal ⊢
    exact ofRatio_sign hdecimal

theorem splitAnySign_toString (z : Int) :
    Chars.splitAnySign (toString z).toList = (decide (z < 0), (toString z.natAbs).toList) := by
  rw [toString_toList_int]
  split
  · rename_i hz
    simp [Chars.splitAnySign, hz]
  · rename_i hz
    obtain ⟨hne, hdigits⟩ := Chars.isDigits_iff.mp (Chars.isDigits_toString z.natAbs)
    obtain ⟨c, rest, hlist⟩ := List.exists_cons_of_ne_nil hne
    have hc := hdigits c (hlist ▸ List.mem_cons_self)
    rw [List.nil_append, hlist]
    unfold Chars.splitAnySign
    split
    · rename_i heq
      obtain ⟨rfl, -⟩ := List.cons.inj heq
      exact absurd hc (by decide)
    · rename_i heq
      obtain ⟨rfl, -⟩ := List.cons.inj heq
      exact absurd hc (by decide)
    · simp [hz]

/-- Digits are none of the words for numbers. -/
theorem ofList_map_toLower_ne {text : List Char} (h : Chars.isDigits text = true)
    {word : String} {c : Char} (hhead : word.toList.head? = some c) (hc : c.isDigit = false) :
    String.ofList (text.map Char.toLower) ≠ word := by
  rintro rfl
  obtain ⟨hne, hdigits⟩ := Chars.isDigits_iff.mp h
  obtain ⟨d, rest, rfl⟩ := List.exists_cons_of_ne_nil hne
  have hd := hdigits d List.mem_cons_self
  have hlower : d.toLower = d := by
    unfold Char.toLower
    unfold Char.isDigit at hd
    simp only [Bool.and_eq_true, decide_eq_true_eq] at hd
    split
    · rename_i hupper
      exact absurd (UInt32.le_trans hupper.1 hd.2) (by decide)
    · rfl
  rw [String.toList_ofList, List.map_cons, List.head?_cons, hlower] at hhead
  obtain rfl := Option.some.inj hhead
  simp [hd] at hc

/-- An integer literal is read as the number that is written so. -/
theorem ofText?_toString (h : Rounded significand exponent z.natAbs) :
    ofText? (toString z) = some (finite (decide (z < 0)) significand exponent) := by
  have hdigits := Chars.isDigits_toString z.natAbs
  have hspan : Chars.spanDigits (toString z.natAbs).toList = ((toString z.natAbs).toList, []) := by
    have hall := (Chars.isDigits_iff.mp hdigits).2
    rw [Chars.spanDigits, List.takeWhile_eq_self_iff.mpr hall, List.dropWhile_eq_nil_iff.mpr hall]
  have hnonempty : (toString z.natAbs).toList.isEmpty = false := by
    rw [List.isEmpty_eq_false_iff]
    exact (Chars.isDigits_iff.mp hdigits).1
  have hinf : String.ofList ((toString z.natAbs).toList.map Char.toLower) ≠ "inf" :=
    ofList_map_toLower_ne hdigits rfl (by decide)
  have hinfinity : String.ofList ((toString z.natAbs).toList.map Char.toLower) ≠ "infinity" :=
    ofList_map_toLower_ne hdigits rfl (by decide)
  have hnan : String.ofList ((toString z.natAbs).toList.map Char.toLower) ≠ "nan" :=
    ofList_map_toLower_ne hdigits rfl (by decide)
  have hparts : Decimal.ofParts (decide (z < 0)) (toString z.natAbs).toList [] 0 =
      ⟨decide (z < 0), z.natAbs, 0⟩ := by
    rw [Decimal.ofParts, List.append_nil, Chars.natOfDigits_toString]
    rfl
  unfold ofText?
  rw [splitAnySign_toString]
  simp only [hinf, hinfinity, hnan, or_self, if_false, hspan, Chars.spanFraction, hnonempty,
    Bool.false_and, Bool.false_eq_true, Chars.exponent?, Option.map_some, hparts, h.toBinary64_eq]

/-- How many times the least positive number a finite number is, as a ratio. -/
theorem scaled_eq (hcanonical : Canonical significand exponent) :
    ((scaled negative significand exponent : ℤ) : ℚ) =
      (if negative then -1 else 1) * (significand * 2 ^ exponent) / 2 ^ leastExponent := by
  have hshift : ((exponent - leastExponent).toNat : ℤ) = exponent - leastExponent := by
    have hleast := hcanonical.least_le
    omega
  have hpow : (2 : ℚ) ^ (exponent - leastExponent).toNat = 2 ^ exponent / 2 ^ leastExponent := by
    rw [← zpow_natCast, hshift, zpow_sub₀ two_ne_zero]
  unfold scaled
  cases negative <;> simp [hpow, mul_div_assoc, neg_div]

theorem Rounded.le_iff (h : Rounded significand exponent n) (h' : Rounded significand' exponent' n')
    (hsame : significand = significand' → exponent = exponent' → n = n') :
    (significand : ℚ) * 2 ^ exponent ≤ significand' * 2 ^ exponent' ↔ n ≤ n' := by
  by_cases hzero : significand = 0
  · rw [h.eq_zero hzero, hzero, Nat.cast_zero, zero_mul]
    exact iff_of_true (by positivity) (Nat.zero_le n')
  by_cases hzero' : significand' = 0
  · have hpos : (0 : ℚ) < significand * 2 ^ exponent :=
      mul_pos (Nat.cast_pos.mpr (Nat.pos_of_ne_zero hzero)) (zpow_pos two_pos exponent)
    rw [h'.eq_zero hzero', hzero', Nat.cast_zero, zero_mul]
    exact iff_of_false (not_le.mpr hpos) (not_le.mpr (h.pos hzero))
  have hround := h.rounds hzero
  have hround' := h'.rounds hzero'
  constructor
  · intro hle
    by_contra hlt
    rw [not_le] at hlt
    have hmono := hround'.mono hzero' h'.canonical h.canonical hround (by exact_mod_cast hlt.le)
    have hequal := le_antisymm hle hmono
    have hself := roundsTo_self significand exponent
    have hself' := roundsTo_self significand' exponent'
    rw [← hequal] at hself'
    obtain ⟨hs, he⟩ := hself.unique hzero h.canonical h'.canonical hself'
    exact absurd (hsame hs he) hlt.ne'
  · intro hle
    exact hround.mono hzero h.canonical h'.canonical hround' (by exact_mod_cast hle)

/-! ### Integer literals -/

/-- A number and the integer that is read as it, and that it is written as. -/
structure IsLiteral (number : Binary64) (z : Int) : Prop where
  number_eq : ∃ significand exponent, number = finite (decide (z < 0)) significand exponent ∧
    Rounded significand exponent z.natAbs ∧
    (finite false significand exponent).codeText = toString z.natAbs

variable {number number' : Binary64}

/-- A number that is written as an integer is what the integer is read as, up to the
sign of zero. -/
theorem exists_isLiteral (hcanonical : Canonical significand exponent)
    (h : (finite negative significand exponent).codeText = toString z) :
    ∃ number, ofText? (toString z) = some number ∧ IsLiteral number z := by
  have hmagnitude := (written h).2
  have hrounded := rounded_of_codeText hcanonical hmagnitude
  exact ⟨_, ofText?_toString hrounded, ⟨_, _, rfl, hrounded, hmagnitude⟩⟩

theorem IsLiteral.codeText_abs (h : IsLiteral number z) :
    number.abs.codeText = toString z.natAbs := by
  obtain ⟨significand, exponent, rfl, -, hmagnitude⟩ := h.number_eq
  exact hmagnitude

theorem IsLiteral.le_iff (h : IsLiteral number z) (h' : IsLiteral number' z') :
    number.le number' = true ↔ z ≤ z' := by
  obtain ⟨significand, exponent, rfl, hrounded, hmagnitude⟩ := h.number_eq
  obtain ⟨significand', exponent', rfl, hrounded', hmagnitude'⟩ := h'.number_eq
  have hsame : significand = significand' → exponent = exponent' → z.natAbs = z'.natAbs := by
    rintro rfl rfl
    have htext := congrArg (fun text : String => Chars.natOfDigits text.toList)
      (hmagnitude.symm.trans hmagnitude')
    simpa only [Chars.natOfDigits_toString] using htext
  have hle := hrounded.le_iff hrounded' hsame
  have hge := hrounded'.le_iff hrounded fun hs he => (hsame hs.symm he.symm).symm
  have hunit : (0 : ℚ) < 2 ^ leastExponent := zpow_pos two_pos _
  have hscaled : ∀ {a b : Int}, a ≤ b ↔ (a : ℚ) ≤ b := Int.cast_le.symm
  have hzero := hrounded'.value_eq_zero
  have hnonneg : 0 ≤ (significand : ℚ) * 2 ^ exponent := by positivity
  have hnonneg' : 0 ≤ (significand' : ℚ) * 2 ^ exponent' := by positivity
  rw [le, decide_eq_true_iff, hscaled, scaled_eq hrounded.canonical, scaled_eq hrounded'.canonical,
    div_le_div_iff_of_pos_right hunit]
  generalize (significand : ℚ) * 2 ^ exponent = value at *
  generalize (significand' : ℚ) * 2 ^ exponent' = value' at *
  by_cases hz : z < 0 <;> by_cases hz' : z' < 0
    <;> simp only [hz, hz', decide_true, decide_false, if_true,
    Bool.false_eq_true, if_false, neg_one_mul, one_mul]
  · rw [neg_le_neg_iff, hge]
    omega
  · exact iff_of_true (by linarith) (by omega)
  · refine iff_of_false (fun hbelow => ?_) (by omega)
    have hnone := hzero (by linarith)
    omega
  · rw [hle]
    omega

end BlockSynth.Binary64
