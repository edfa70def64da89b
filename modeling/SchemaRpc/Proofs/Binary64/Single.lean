import SchemaRpc.Proofs.Binary64.Rounding

/-!
# Single precision is rounded once

A double that has been rounded to single precision is left alone by rounding it again. A finite one is at most `2 ^ 24`
steps of a power of two from `2 ^ (-149)` on (`singleOf`); what comes out depends on the number behind it only, and such a
number is a whole number of the steps that it is rounded to.
-/

namespace SchemaRpc.Binary64

variable {num den num' den' : Nat} {e : Int}

/-! ## Quotients tell the result -/

theorem roundDiv_mul_right {c : Nat} (positive : 0 < c) : roundDiv (num * c) (den * c) = roundDiv num den := by
  have more : 2 * (num % den * c) > den * c ↔ 2 * (num % den) > den := by
    rw [← Nat.mul_assoc]
    exact Nat.mul_lt_mul_right positive
  have tie : 2 * (num % den * c) = den * c ↔ 2 * (num % den) = den := by
    rw [← Nat.mul_assoc]
    exact Nat.mul_right_cancel_iff positive
  simp only [roundDiv, Nat.mul_div_mul_right _ _ positive, Nat.mul_mod_mul_right, more, Bool.or_eq_true,
    Bool.and_eq_true, decide_eq_true_eq, beq_iff_eq, tie]

theorem roundDiv_congr (positive : 0 < den) (positive' : 0 < den') (same : (num : ℚ) / den = num' / den') :
    roundDiv num den = roundDiv num' den' := by
  have nonzero : (den : ℚ) ≠ 0 := by
    exact_mod_cast positive.ne'
  have nonzero' : (den' : ℚ) ≠ 0 := by
    exact_mod_cast positive'.ne'
  have products : num * den' = num' * den := by
    exact_mod_cast (div_eq_div_iff nonzero nonzero').mp same
  rw [← roundDiv_mul_right positive', products, Nat.mul_comm den den', roundDiv_mul_right positive]

/-- Only one exponent does what `binaryExponent_spec` says. -/
theorem binaryExponent_eq {precision : Nat} {least : Int} (numPositive : 0 < num) (denPositive : 0 < den) (atLeast : least ≤ e)
    (below : (num : ℚ) / den < 2 ^ ((precision : Int) + e))
    (above : e = least ∨ 2 ^ ((precision : Int) - 1 + e) ≤ (num : ℚ) / den) :
    binaryExponent precision least num den = e := by
  obtain ⟨belowChosen, aboveChosen⟩ := binaryExponent_spec precision least numPositive denPositive
  have chosenAtLeast : least ≤ binaryExponent precision least num den := le_max_left _ _
  have order : ∀ {i j : Int}, 2 ^ ((precision : Int) - 1 + i) ≤ (num : ℚ) / den →
      (num : ℚ) / den < 2 ^ ((precision : Int) + j) → i ≤ j := by
    intro i j least most
    have powers := (zpow_lt_zpow_iff_right₀ (one_lt_two (α := ℚ))).mp (least.trans_lt most)
    omega
  have le : binaryExponent precision least num den ≤ e := by
    rcases aboveChosen with same | aboveChosen
    · omega
    · exact order aboveChosen below
  have ge : e ≤ binaryExponent precision least num den := by
    rcases above with same | above
    · omega
    · exact order above belowChosen
  exact le_antisymm le ge

theorem binaryExponent_congr (precision : Nat) (least : Int) (numPositive : 0 < num) (denPositive : 0 < den)
    (numPositive' : 0 < num') (denPositive' : 0 < den') (same : (num : ℚ) / den = num' / den') :
    binaryExponent precision least num den = binaryExponent precision least num' den' := by
  obtain ⟨below, above⟩ := binaryExponent_spec precision least numPositive' denPositive'
  rw [← same] at below above
  exact binaryExponent_eq numPositive denPositive (le_max_left _ _) below above

theorem roundedMagnitude_congr (denPositive : 0 < den) (denPositive' : 0 < den') (same : (num : ℚ) / den = num' / den') :
    roundedMagnitude num den = roundedMagnitude num' den' := by
  have nonzero : (den : ℚ) ≠ 0 := by
    exact_mod_cast denPositive.ne'
  have nonzero' : (den' : ℚ) ≠ 0 := by
    exact_mod_cast denPositive'.ne'
  have products : num * den' = num' * den := by
    exact_mod_cast (div_eq_div_iff nonzero nonzero').mp same
  have zero : num = 0 ↔ num' = 0 := by
    constructor <;> rintro rfl
    · simpa [denPositive.ne'] using products.symm
    · simpa [denPositive'.ne'] using products
  by_cases isZero : num = 0
  · simp [roundedMagnitude, isZero, zero.mp isZero]
  have isZero' : num' ≠ 0 := mt zero.mpr isZero
  have sameExponent := binaryExponent_congr 53 (-1074) (Nat.pos_of_ne_zero isZero) denPositive
    (Nat.pos_of_ne_zero isZero') denPositive' same
  have sameSteps (e : Int) : roundDiv (scaleDown num den e).1 (scaleDown num den e).2 =
      roundDiv (scaleDown num' den' e).1 (scaleDown num' den' e).2 :=
    roundDiv_congr (scaleDown_den_pos denPositive) (scaleDown_den_pos denPositive')
      (by rw [scaleDown_eq, scaleDown_eq, same])
  simp only [roundedMagnitude, beq_iff_eq, isZero, isZero', if_false, sameExponent, sameSteps]

/-- A whole number of steps is one of finer steps. -/
theorem exists_eq_mul_of_le (k : Nat) {fine : Int} (le : fine ≤ e) : ∃ m : Nat, (k : ℚ) * 2 ^ e = m * 2 ^ fine := by
  refine ⟨k * 2 ^ (e - fine).toNat, ?_⟩
  rw [Nat.cast_mul, Nat.cast_pow, Nat.cast_ofNat, mul_assoc, ← zpow_natCast, ← zpow_add₀ two_ne_zero]
  congr 2
  omega

/-- What has few bits at some exponent is a whole number of steps at the exponent that is chosen for it. -/
theorem exists_eq_mul_binaryExponent (precision : Nat) (least : Int) {k : Nat} (bits : 0 < precision)
    (numPositive : 0 < num) (denPositive : 0 < den) (few : k ≤ 2 ^ precision) (atLeast : least ≤ e)
    (whole : (num : ℚ) / den = k * 2 ^ e) :
    ∃ m : Nat, (num : ℚ) / den = m * 2 ^ binaryExponent precision least num den := by
  obtain ⟨-, above⟩ := binaryExponent_spec precision least numPositive denPositive
  generalize binaryExponent precision least num den = chosen at above
  rw [whole] at above ⊢
  rcases above with rfl | above
  · exact exists_eq_mul_of_le k atLeast
  by_cases le : chosen ≤ e
  · exact exists_eq_mul_of_le k le
  have fewCast : (k : ℚ) ≤ 2 ^ (precision : Int) := by
    exact_mod_cast few
  have most : (k : ℚ) * 2 ^ e ≤ 2 ^ ((precision : Int) + e) := by
    rw [zpow_add₀ two_ne_zero]
    gcongr
  -- one bit too many: the quotient is the next power of two
  have next : chosen = e + 1 := by
    have powers := (zpow_le_zpow_iff_right₀ (one_lt_two (α := ℚ))).mp (above.trans most)
    omega
  refine ⟨2 ^ (precision - 1), ?_⟩
  rw [next] at above ⊢
  rw [show (precision : Int) - 1 + (e + 1) = precision + e by ring] at above
  rw [le_antisymm most above, Nat.cast_pow, Nat.cast_ofNat, ← zpow_natCast, ← zpow_add₀ two_ne_zero]
  congr 1
  omega

/-! ## Steps of single precision -/

/-- So many steps of `2 ^ e` in single precision, and infinity where they are too many. -/
def singleOf (negative : Bool) (count : Nat) (e : Int) : Binary64 :=
  if count * 2 ^ (e + 149).toNat ≥ 2 ^ 277 then ofMagnitude negative infinityMagnitude
  else ofRatio negative (if e ≥ 0 then count * 2 ^ e.toNat else count) (if e ≥ 0 then 1 else 2 ^ (-e).toNat)

variable {negative : Bool} {count count' : Nat} {e' : Int}

theorem steps_eq (count : Nat) (e : Int) :
    ((if e ≥ 0 then count * 2 ^ e.toNat else count : Nat) : ℚ) / (if e ≥ 0 then 1 else 2 ^ (-e).toNat : Nat) =
      count * 2 ^ e := by
  rw [ofNat_zpow_eq_div]
  split
  · simp
  · simp [div_eq_mul_inv]

theorem steps_den_pos (e : Int) : 0 < (if e ≥ 0 then 1 else 2 ^ (-e).toNat : Nat) := by
  split
  · exact Nat.one_pos
  · exact Nat.two_pow_pos _

/-- The steps in units of the least one. -/
theorem cast_steps (least : -149 ≤ e) :
    ((count * 2 ^ (e + 149).toNat : Nat) : ℚ) = count * 2 ^ e * 2 ^ (149 : Int) := by
  rw [Nat.cast_mul, Nat.cast_pow, Nat.cast_ofNat, mul_assoc, ← zpow_add₀ two_ne_zero, ← zpow_natCast]
  congr 2
  omega

theorem singleOf_congr (least : -149 ≤ e) (least' : -149 ≤ e') (same : (count : ℚ) * 2 ^ e = count' * 2 ^ e') :
    singleOf negative count e = singleOf negative count' e' := by
  have sameSteps : count * 2 ^ (e + 149).toNat = count' * 2 ^ (e' + 149).toNat := by
    have cast : ((count * 2 ^ (e + 149).toNat : Nat) : ℚ) = (count' * 2 ^ (e' + 149).toNat : Nat) := by
      rw [cast_steps least, cast_steps least', same]
    exact_mod_cast cast
  have sameMagnitude := roundedMagnitude_congr (steps_den_pos e) (steps_den_pos e')
    ((steps_eq count e).trans (same.trans (steps_eq count' e').symm))
  rw [singleOf, singleOf, sameSteps, ofRatio, ofRatio, sameMagnitude]

/-- The exponent of the steps to which a finite double is rounded, and how many they are. -/
def singleExponent (x : Binary64) : Int :=
  binaryExponent 24 (-149) x.ratio.1 x.ratio.2

def singleCount (x : Binary64) : Nat :=
  roundDiv (scaleDown x.ratio.1 x.ratio.2 x.singleExponent).1 (scaleDown x.ratio.1 x.ratio.2 x.singleExponent).2

variable {x : Binary64}

theorem isNaN_of_isFinite (finite : x.isFinite = true) : x.isNaN = false := by
  simp only [isFinite, decide_eq_true_eq] at finite
  simp only [isNaN, Bool.and_eq_false_iff, beq_eq_false_iff_ne]
  exact .inl finite.ne

theorem ratio_num_pos (nonzero : x.magnitude ≠ 0) : 0 < x.ratio.1 := by
  have positive : 0 < x.significand := by
    simp only [significand, exponentField, fractionField, beq_iff_eq]
    split <;> omega
  unfold ratio
  split
  · exact Nat.mul_pos positive (Nat.two_pow_pos _)
  · exact positive

theorem roundToSingle_of_isFinite (finite : x.isFinite = true) (nonzero : x.magnitude ≠ 0) :
    x.roundToSingle = singleOf x.isNegative x.singleCount x.singleExponent := by
  have notNaN := isNaN_of_isFinite finite
  simp only [roundToSingle, notNaN, finite, beq_false_of_ne nonzero, Bool.false_eq_true, if_false, Bool.not_true,
    Bool.or_self]
  rfl

/-- Zeros and infinities are left alone. -/
theorem roundToSingle_of_bare (notNaN : x.isNaN = false) (bare : x.magnitude = 0 ∨ x.isFinite = false) :
    x.roundToSingle = x := by
  have taken : (x.magnitude == 0 || !x.isFinite) = true := by
    simpa using bare
  simp only [roundToSingle, notNaN, taken, Bool.false_eq_true, if_false, if_true]

theorem least_le_singleExponent (x : Binary64) : -149 ≤ x.singleExponent :=
  le_max_left _ _

theorem singleCount_le (nonzero : x.magnitude ≠ 0) : x.singleCount ≤ 2 ^ 24 := by
  obtain ⟨below, -⟩ := binaryExponent_spec 24 (-149) (ratio_num_pos nonzero) x.ratio_den_pos
  have half : (x.singleCount : ℚ) ≤ _ := roundDiv_le_add_half (scaleDown_den_pos x.ratio_den_pos)
  have fits : (x.ratio.1 : ℚ) / x.ratio.2 / 2 ^ x.singleExponent < 2 ^ 24 := by
    rw [div_lt_iff₀ (by positivity)]
    calc
      (x.ratio.1 : ℚ) / x.ratio.2 < 2 ^ (24 + x.singleExponent) := below
      _ = 2 ^ 24 * 2 ^ x.singleExponent := by
        rw [zpow_add₀ two_ne_zero]
        norm_cast
  rw [scaleDown_eq] at half
  have strict : (x.singleCount : ℚ) < (2 ^ 24 + 1 : Nat) := by
    push_cast
    exact half.trans_lt (by linarith)
  exact Nat.lt_succ_iff.mp (by exact_mod_cast strict)

/-- Few steps of single precision are rounded to themselves, at whichever exponent they are counted. -/
theorem singleCount_of_whole (nonzero : x.magnitude ≠ 0) (few : count ≤ 2 ^ 24) (least : -149 ≤ e)
    (whole : x.value = count * 2 ^ e) : (x.singleCount : ℚ) * 2 ^ x.singleExponent = count * 2 ^ e := by
  rw [← ratio_eq_value] at whole
  obtain ⟨m, steps⟩ := exists_eq_mul_binaryExponent 24 (-149) (by decide) (ratio_num_pos nonzero) x.ratio_den_pos few
    least whole
  have counted : x.singleCount = m := by
    refine roundDiv_of_eq (scaleDown_den_pos x.ratio_den_pos) ?_
    rw [scaleDown_eq, steps]
    exact mul_div_cancel_right₀ _ (zpow_ne_zero _ two_ne_zero)
  rw [counted, ← whole]
  exact steps.symm

/-! ## Rounding twice -/

theorem isNegative_ofMagnitude {magnitude : Nat} (fits : magnitude < 2 ^ 63) :
    (ofMagnitude negative magnitude).isNegative = negative := by
  simp only [isNegative, ofMagnitude, UInt64.toNat_ofNat', ge_iff_le]
  cases negative with
  | false =>
      simp only [Bool.false_eq_true, if_false, decide_eq_false_iff_not]
      omega
  | true =>
      simp only [if_true, decide_eq_true_eq]
      omega

/-- A number of few steps, if it is not too large for single precision, is a finite double. -/
theorem ofRatio_of_few (negative : Bool) (positive : 0 < den) (few : count ≤ 2 ^ 24) (least : -149 ≤ e)
    (whole : (num : ℚ) / den = count * 2 ^ e) (small : (num : ℚ) / den < 2 ^ (128 : Int)) :
    (ofRatio negative num den).isFinite = true ∧ (ofRatio negative num den).isNegative = negative ∧
      (ofRatio negative num den).value = num / den := by
  have below : (num : ℚ) / den < limit := by
    have steps : (2 : ℚ) ^ (128 : Int) ≤ step 2045 := zpow_le_zpow_right₀ one_le_two (by decide)
    have stepPositive := step_pos 2045
    rw [limit]
    generalize step 2045 = s at steps stepPositive
    linarith
  have finite := roundedMagnitude_lt_of_lt positive below
  refine ⟨isFinite_ofMagnitude finite, isNegative_ofMagnitude (finite.trans infinityMagnitude_lt), ?_⟩
  rcases Nat.eq_zero_or_pos num with rfl | numPositive
  · simp [ofRatio, roundedMagnitude, value, significand, fractionField, exponentField, magnitude_ofMagnitude]
  obtain ⟨field, rounded, rounds⟩ := exists_rounds numPositive positive
  rw [rounds.value_eq (rounds.field_le (below.trans limit_lt))]
  have finer : (field : Int) - 1074 ≤ e := by
    rcases rounds.full with rfl | ⟨-, full⟩
    · omega
    · have fewCast : (count : ℚ) ≤ 2 ^ (24 : Int) := by
        exact_mod_cast few
      have most : (2 : ℚ) ^ ((52 : Int) + (field - 1074)) ≤ 2 ^ (24 + e) := by
        rw [zpow_add₀ two_ne_zero, zpow_add₀ two_ne_zero]
        calc
          (2 : ℚ) ^ (52 : Int) * 2 ^ ((field : Int) - 1074) = 2 ^ 52 * step field := by
            norm_cast
          _ ≤ count * 2 ^ e := whole ▸ full
          _ ≤ 2 ^ (24 : Int) * 2 ^ e := by
            gcongr
      have powers := (zpow_le_zpow_iff_right₀ (one_lt_two (α := ℚ))).mp most
      omega
  obtain ⟨m, steps⟩ := exists_eq_mul_of_le count finer
  rw [rounds.whole m (whole.trans steps)]
  exact (whole.trans steps).symm

theorem roundToSingle_singleOf (few : count ≤ 2 ^ 24) (least : -149 ≤ e) :
    (singleOf negative count e).roundToSingle = singleOf negative count e := by
  by_cases large : count * 2 ^ (e + 149).toNat ≥ 2 ^ 277
  · have infinite : singleOf negative count e = ofMagnitude negative infinityMagnitude := if_pos large
    have magnitude : (ofMagnitude negative infinityMagnitude).magnitude = infinityMagnitude :=
      magnitude_ofMagnitude infinityMagnitude_lt
    rw [infinite]
    refine roundToSingle_of_bare ?_ (.inr ?_)
    · rw [isNaN, fractionField, magnitude]
      exact Bool.and_eq_false_iff.mpr (.inr (by decide))
    · rw [← Bool.not_eq_true, isFinite_iff, magnitude]
      exact Nat.lt_irrefl _
  · have small : ((if e ≥ 0 then count * 2 ^ e.toNat else count : Nat) : ℚ) /
        (if e ≥ 0 then 1 else 2 ^ (-e).toNat : Nat) < 2 ^ (128 : Int) := by
      have units : ((count * 2 ^ (e + 149).toNat : Nat) : ℚ) < (2 ^ 277 : Nat) :=
        Nat.cast_lt.mpr (Nat.lt_of_not_le large)
      have power (k : Nat) : ((2 ^ k : Nat) : ℚ) = 2 ^ (k : Int) := by
        rw [Nat.cast_pow, Nat.cast_ofNat, zpow_natCast]
      rw [cast_steps least, power 277, show ((277 : Nat) : Int) = 128 + 149 from rfl, zpow_add₀ two_ne_zero] at units
      rw [steps_eq]
      exact lt_of_mul_lt_mul_right units (by positivity)
    have rounded : singleOf negative count e = ofRatio negative (if e ≥ 0 then count * 2 ^ e.toNat else count)
        (if e ≥ 0 then 1 else 2 ^ (-e).toNat) := if_neg large
    obtain ⟨finite, sameSign, value⟩ := ofRatio_of_few negative (steps_den_pos e) few least (steps_eq count e) small
    rw [← rounded] at finite sameSign value
    rw [steps_eq] at value
    by_cases zero : (singleOf negative count e).magnitude = 0
    · exact roundToSingle_of_bare (isNaN_of_isFinite finite) (.inl zero)
    · rw [roundToSingle_of_isFinite finite zero, sameSign]
      exact singleOf_congr (least_le_singleExponent _) least (singleCount_of_whole zero few least value)

/-- A quiet NaN keeps the bits that single precision has room for. -/
theorem roundToSingle_of_isNaN (isNaN : x.isNaN = true) :
    x.roundToSingle =
      ofMagnitude x.isNegative (infinityMagnitude + (x.fractionField / 2 ^ 29 * 2 ^ 29) % 2 ^ 51 + 2 ^ 51) :=
  if_pos isNaN

theorem roundToSingle_roundToSingle_of_isNaN (isNaN : x.isNaN = true) :
    x.roundToSingle.roundToSingle = x.roundToSingle := by
  have fits : infinityMagnitude + (x.fractionField / 2 ^ 29 * 2 ^ 29) % 2 ^ 51 + 2 ^ 51 < 2 ^ 63 := by
    simp only [infinityMagnitude]
    omega
  have rounded := roundToSingle_of_isNaN isNaN
  have magnitude : x.roundToSingle.magnitude =
      infinityMagnitude + (x.fractionField / 2 ^ 29 * 2 ^ 29) % 2 ^ 51 + 2 ^ 51 := by
    rw [rounded, magnitude_ofMagnitude fits]
  have sameSign : x.roundToSingle.isNegative = x.isNegative := by
    rw [rounded, isNegative_ofMagnitude fits]
  have fields : x.roundToSingle.exponentField = 2047 ∧
      x.roundToSingle.fractionField = (x.fractionField / 2 ^ 29 * 2 ^ 29) % 2 ^ 51 + 2 ^ 51 := by
    simp only [exponentField, fractionField, magnitude, infinityMagnitude]
    omega
  have isNaNAgain : x.roundToSingle.isNaN = true := by
    simp [Binary64.isNaN, fields.1, fields.2]
  have sameBits : ((x.fractionField / 2 ^ 29 * 2 ^ 29) % 2 ^ 51 + 2 ^ 51) / 2 ^ 29 * 2 ^ 29 % 2 ^ 51 =
      (x.fractionField / 2 ^ 29 * 2 ^ 29) % 2 ^ 51 := by
    omega
  rw [roundToSingle_of_isNaN isNaNAgain, fields.2, sameSign, sameBits, rounded]

/-- What has been rounded to single precision is left alone. -/
theorem roundToSingle_roundToSingle (x : Binary64) : x.roundToSingle.roundToSingle = x.roundToSingle := by
  cases isNaN : x.isNaN with
  | true =>
      exact roundToSingle_roundToSingle_of_isNaN isNaN
  | false =>
      by_cases bare : x.magnitude = 0 ∨ x.isFinite = false
      · rw [roundToSingle_of_bare isNaN bare, roundToSingle_of_bare isNaN bare]
      · obtain ⟨nonzero, finite⟩ := not_or.mp bare
        rw [roundToSingle_of_isFinite (by simpa using finite) nonzero]
        exact roundToSingle_singleOf (singleCount_le nonzero) (least_le_singleExponent x)

end SchemaRpc.Binary64
