import Mathlib.Algebra.Order.Field.Power
import Mathlib.Data.Rat.Cast.Order
import Mathlib.Tactic.FieldSimp
import Mathlib.Tactic.GCongr
import Mathlib.Tactic.Linarith
import Mathlib.Tactic.NormNum
import Mathlib.Tactic.Positivity
import Mathlib.Tactic.Ring
import SchemaRpc.Proofs.Binary64.Finite

/-!
# How far rounding goes

The number behind a double (`Binary64.value`) and the quotient that it is rounded from. `Rounds` says all that is used of
`roundedMagnitude`: the fields of the result and that they are at most half a step above the quotient. An integer grows
by at most its `2 ^ 53`th part (`value_ofNat_le`), and what stays below the middle between the greatest double and the
next power of two is finite (`roundedMagnitude_lt_of_lt`).
-/

namespace SchemaRpc.Binary64

/-- A power as the quotient of natural numbers in which it is computed. -/
theorem zpow_eq_div (base : Nat) (e : Int) :
    (base : ℚ) ^ e =
      ((if e ≥ 0 then base ^ e.toNat else 1 : Nat) : ℚ) / (if e ≥ 0 then 1 else base ^ (-e).toNat : Nat) := by
  split
  · next nonneg =>
    obtain ⟨k, rfl⟩ := Int.eq_ofNat_of_zero_le nonneg
    simp
  · next negative =>
    obtain ⟨k, exponent⟩ := Int.eq_ofNat_of_zero_le (Int.neg_nonneg_of_nonpos (Int.le_of_not_le negative))
    rw [show e = -(k : Int) by omega]
    simp

theorem ofNat_zpow_eq_div (base : Nat) [base.AtLeastTwo] (e : Int) :
    (OfNat.ofNat base : ℚ) ^ e =
      ((if e ≥ 0 then base ^ e.toNat else 1 : Nat) : ℚ) / (if e ≥ 0 then 1 else base ^ (-e).toNat : Nat) := by
  rw [← Nat.cast_ofNat]
  exact zpow_eq_div base e

/-- The absolute value of a finite double. -/
def value (x : Binary64) : ℚ :=
  x.significand * 2 ^ x.exponent

theorem value_nonneg (x : Binary64) : 0 ≤ x.value := by
  unfold value
  positivity

theorem ratio_eq_value (x : Binary64) : (x.ratio.1 : ℚ) / x.ratio.2 = x.value := by
  rw [value, ofNat_zpow_eq_div]
  unfold ratio
  split
  · simp
  · simp [div_eq_mul_inv]

theorem ratio_den_pos (x : Binary64) : 0 < x.ratio.2 := by
  unfold ratio
  split
  · exact Nat.one_pos
  · exact Nat.two_pow_pos _

variable {num den : Nat} {e : Int}

/-! ## Quotients of natural numbers -/

theorem scaleDown_den_pos (positive : 0 < den) : 0 < (scaleDown num den e).2 := by
  unfold scaleDown
  split
  · exact Nat.mul_pos positive (Nat.two_pow_pos _)
  · exact positive

theorem scaleDown_eq (num den : Nat) (e : Int) :
    ((scaleDown num den e).1 : ℚ) / (scaleDown num den e).2 = num / den / 2 ^ e := by
  rw [ofNat_zpow_eq_div]
  unfold scaleDown
  split
  · simp [div_div]
  · simp [mul_div_right_comm]

theorem roundDiv_le_add_half (positive : 0 < den) : (roundDiv num den : ℚ) ≤ num / den + 1 / 2 := by
  have doubled : 2 * (den * roundDiv num den) ≤ 2 * num + den := by
    have parts := Nat.div_add_mod num den
    simp only [roundDiv, Bool.or_eq_true, Bool.and_eq_true, decide_eq_true_eq, beq_iff_eq]
    split
    · rw [Nat.mul_add]
      omega
    · omega
  have cast : (2 * (den * roundDiv num den) : ℚ) ≤ 2 * num + den := by
    exact_mod_cast doubled
  have denPositive : (0 : ℚ) < den := by
    exact_mod_cast positive
  rw [div_add_div _ _ denPositive.ne' two_ne_zero, le_div_iff₀ (by positivity)]
  linarith

theorem le_roundDiv {k : Nat} (positive : 0 < den) (below : (k : ℚ) ≤ num / den) : k ≤ roundDiv num den := by
  have denPositive : (0 : ℚ) < den := by
    exact_mod_cast positive
  have floor : k ≤ num / den := by
    rw [Nat.le_div_iff_mul_le positive]
    exact_mod_cast (le_div_iff₀ denPositive).mp below
  simp only [roundDiv]
  split
  · exact Nat.le_succ_of_le floor
  · exact floor

/-- A whole quotient is rounded to itself. -/
theorem roundDiv_of_eq {k : Nat} (positive : 0 < den) (whole : (num : ℚ) / den = k) : roundDiv num den = k := by
  have denPositive : (0 : ℚ) < den := by
    exact_mod_cast positive
  have product : num = k * den := by
    exact_mod_cast (div_eq_iff denPositive.ne').mp whole
  have quotient : num / den = k := by
    rw [product, Nat.mul_div_cancel k positive]
  have rest : num % den = 0 := by
    rw [product, Nat.mul_mod_left]
  simp [roundDiv, quotient, rest, positive.ne]

/-! ## The exponent -/

theorem two_pow_log2_le {n : Nat} (positive : 0 < n) : (2 : ℚ) ^ (n.log2 : Int) ≤ n := by
  exact_mod_cast Nat.log2_self_le positive.ne'

theorem lt_two_pow_log2 (n : Nat) : (n : ℚ) < 2 ^ ((n.log2 : Int) + 1) := by
  exact_mod_cast @Nat.lt_log2_self n

/-- The lengths of two numbers tell their quotient up to a factor of four. -/
theorem div_lt_two_pow (num : Nat) (denPositive : 0 < den) :
    (num : ℚ) / den < 2 ^ ((num.log2 : Int) - den.log2 + 1) := by
  have positive : (0 : ℚ) < den := by
    exact_mod_cast denPositive
  rw [div_lt_iff₀ positive]
  calc
    (num : ℚ) < 2 ^ ((num.log2 : Int) + 1) := lt_two_pow_log2 num
    _ = 2 ^ ((num.log2 : Int) - den.log2 + 1) * 2 ^ (den.log2 : Int) := by
      rw [← zpow_add₀ two_ne_zero]
      congr 1
      omega
    _ ≤ 2 ^ ((num.log2 : Int) - den.log2 + 1) * den := by
      gcongr
      exact two_pow_log2_le denPositive

theorem two_pow_le_div (numPositive : 0 < num) (denPositive : 0 < den) :
    (2 : ℚ) ^ ((num.log2 : Int) - den.log2 - 1) ≤ num / den := by
  have positive : (0 : ℚ) < den := by
    exact_mod_cast denPositive
  rw [le_div_iff₀ positive]
  calc
    (2 : ℚ) ^ ((num.log2 : Int) - den.log2 - 1) * den
        ≤ 2 ^ ((num.log2 : Int) - den.log2 - 1) * 2 ^ ((den.log2 : Int) + 1) := by
      gcongr
      exact (lt_two_pow_log2 den).le
    _ = 2 ^ (num.log2 : Int) := by
      rw [← zpow_add₀ two_ne_zero]
      congr 1
      omega
    _ ≤ num := two_pow_log2_le numPositive

/-- The exponent is chosen so that the scaled quotient has the bits of the precision, or fewer at the least exponent. -/
theorem binaryExponent_spec (precision : Nat) (least : Int) (numPositive : 0 < num) (denPositive : 0 < den) :
    (num : ℚ) / den < 2 ^ ((precision : Int) + binaryExponent precision least num den) ∧
      (binaryExponent precision least num den = least ∨
        2 ^ ((precision : Int) - 1 + binaryExponent precision least num den) ≤ (num : ℚ) / den) := by
  have above := div_lt_two_pow num denPositive
  have below := two_pow_le_div numPositive denPositive
  unfold binaryExponent
  generalize guessed : (num.log2 : Int) - (den.log2 : Int) - (precision : Int) = guess
  rw [show (num.log2 : Int) - den.log2 = precision + guess by omega] at above below
  have scaledPositive : (0 : ℚ) < (scaleDown num den guess).2 := by
    exact_mod_cast scaleDown_den_pos denPositive
  have decides : (scaleDown num den guess).1 < 2 ^ precision * (scaleDown num den guess).2 ↔
      (num : ℚ) / den < 2 ^ ((precision : Int) + guess) := by
    rw [zpow_add₀ two_ne_zero, ← div_lt_iff₀ (by positivity), ← scaleDown_eq, div_lt_iff₀ scaledPositive]
    norm_cast
  simp only [decides]
  split
  · next small =>
    refine ⟨small.trans_le (zpow_le_zpow_right₀ one_le_two (by omega)), ?_⟩
    rcases le_total guess least with low | high
    · exact .inl (max_eq_left low)
    · rw [max_eq_right high, sub_add_eq_add_sub]
      exact .inr below
  · next large =>
    refine ⟨above.trans_le (zpow_le_zpow_right₀ one_le_two (by omega)), ?_⟩
    rcases le_total (guess + 1) least with low | high
    · exact .inl (max_eq_left low)
    · rw [max_eq_right high, show (precision : Int) - 1 + (guess + 1) = precision + guess by ring]
      exact .inr (not_lt.mp large)

/-! ## The fields of the result -/

/-- The distance of neighbouring doubles whose exponent field is at most one more. -/
def step (field : Nat) : ℚ :=
  2 ^ ((field : Int) - 1074)

theorem step_pos (field : Nat) : 0 < step field := by
  unfold step
  positivity

theorem step_eq_natCast (k : Nat) : step (k + 1074) = ((2 ^ k : Nat) : ℚ) := by
  have exponent : ((k + 1074 : Nat) : Int) - 1074 = k := by
    omega
  rw [step, exponent, zpow_natCast, Nat.cast_pow, Nat.cast_ofNat]

theorem step_succ (field : Nat) : step (field + 1) = 2 * step field := by
  rw [step, step, ← zpow_one_add₀ two_ne_zero]
  congr 1
  omega

theorem step_le {field more : Nat} (le : field ≤ more) : step field ≤ step more :=
  zpow_le_zpow_right₀ one_le_two (by omega)

/-- A quotient is rounded to `count` steps: as many as a significand has, unless the steps are the least ones, and at
most half a step more than the quotient. A whole number of steps stays the same. -/
structure Rounds (num den field count : Nat) : Prop where
  magnitude : roundedMagnitude num den = min infinityMagnitude (field * 2 ^ 52 + count)
  most : count ≤ 2 ^ 53
  full : field = 0 ∨ 2 ^ 52 ≤ count ∧ 2 ^ 52 * step field ≤ (num : ℚ) / den
  near : count * step field ≤ (num : ℚ) / den + step field / 2
  whole : ∀ k : Nat, (num : ℚ) / den = k * step field → count = k

theorem exists_rounds (numPositive : 0 < num) (denPositive : 0 < den) : ∃ field count, Rounds num den field count := by
  obtain ⟨below, above⟩ := binaryExponent_spec 53 (-1074) numPositive denPositive
  have least : -1074 ≤ binaryExponent 53 (-1074) num den := le_max_left _ _
  have magnitude : roundedMagnitude num den = min infinityMagnitude
      ((binaryExponent 53 (-1074) num den + 1074).toNat * 2 ^ 52 +
        roundDiv (scaleDown num den (binaryExponent 53 (-1074) num den)).1
          (scaleDown num den (binaryExponent 53 (-1074) num den)).2) := by
    simp [roundedMagnitude, numPositive.ne']
  generalize binaryExponent 53 (-1074) num den = e at below above least magnitude
  have size : step (e + 1074).toNat = 2 ^ e := by
    rw [step]
    congr 1
    omega
  have positive : (0 : ℚ) < 2 ^ e := by
    positivity
  have scaledPositive : 0 < (scaleDown num den e).2 := scaleDown_den_pos denPositive
  have scaledEq := scaleDown_eq num den e
  have half := @roundDiv_le_add_half (scaleDown num den e).1 _ scaledPositive
  rw [scaledEq] at half
  refine ⟨(e + 1074).toNat, _, magnitude, ?_, ?_, ?_, ?_⟩
  · have fits : (num : ℚ) / den / 2 ^ e < 2 ^ 53 := by
      rw [div_lt_iff₀ positive]
      calc
        (num : ℚ) / den < 2 ^ (53 + e) := below
        _ = 2 ^ 53 * 2 ^ e := by
          rw [zpow_add₀ two_ne_zero]
          norm_cast
    have strict : (roundDiv (scaleDown num den e).1 (scaleDown num den e).2 : ℚ) < (2 ^ 53 + 1 : Nat) := by
      push_cast
      linarith
    exact Nat.lt_succ_iff.mp (by exact_mod_cast strict)
  · rcases above with same | above
    · exact .inl (by omega)
    · have full : (2 ^ 52 : ℚ) * 2 ^ e ≤ num / den := by
        calc
          (2 ^ 52 : ℚ) * 2 ^ e = 2 ^ ((53 : Nat) - 1 + e) := by
            rw [zpow_add₀ two_ne_zero]
            norm_num
          _ ≤ num / den := above
      refine .inr ⟨le_roundDiv scaledPositive ?_, size ▸ full⟩
      rw [scaledEq, le_div_iff₀ positive]
      exact_mod_cast full
  · rw [size]
    calc
      (roundDiv (scaleDown num den e).1 (scaleDown num den e).2 : ℚ) * 2 ^ e
          ≤ (num / den / 2 ^ e + 1 / 2) * 2 ^ e := by
        gcongr
      _ = num / den + 2 ^ e / 2 := by
        field_simp
  · intro k whole
    refine roundDiv_of_eq scaledPositive ?_
    rw [scaledEq, whole, size, mul_div_cancel_right₀ _ positive.ne']

namespace Rounds

variable {field count : Nat}

/-- Steps that are too large for the quotient are not taken. -/
theorem field_le (rounds : Rounds num den field count) (below : (num : ℚ) / den < 2 ^ 53 * step 2045) :
    field ≤ 2045 := by
  rcases rounds.full with rfl | ⟨-, full⟩
  · exact Nat.zero_le _
  · by_contra large
    have steps : step 2046 ≤ step field := step_le (by omega)
    rw [step_succ] at steps
    linarith

theorem magnitude_eq (rounds : Rounds num den field count) (small : field ≤ 2045) :
    roundedMagnitude num den = field * 2 ^ 52 + count := by
  have most := rounds.most
  rw [rounds.magnitude, infinityMagnitude]
  omega

/-- Also where the count has one bit too many: then the exponent field is one more. -/
theorem value_eq (rounds : Rounds num den field count) (small : field ≤ 2045) (negative : Bool) :
    (ofRatio negative num den).value = count * step field := by
  have most := rounds.most
  have fits : field * 2 ^ 52 + count < 2 ^ 63 := by
    omega
  have magnitude : (ofRatio negative num den).magnitude = field * 2 ^ 52 + count := by
    rw [ofRatio, rounds.magnitude_eq small, magnitude_ofMagnitude fits]
  have full : field = 0 ∨ 2 ^ 52 ≤ count := rounds.full.imp_right And.left
  unfold value significand exponent fractionField exponentField
  rw [magnitude, step]
  by_cases less : count < 2 ^ 52
  · obtain rfl : field = 0 := by
      omega
    have zero : (0 * 2 ^ 52 + count) / 2 ^ 52 = 0 := by
      omega
    have fraction : (0 * 2 ^ 52 + count) % 2 ^ 52 = count := by
      omega
    simp only [zero, fraction, beq_self_eq_true, if_true]
    rfl
  by_cases carried : count = 2 ^ 53
  · subst carried
    have next : (field * 2 ^ 52 + 2 ^ 53) / 2 ^ 52 = field + 2 := by
      omega
    have fraction : (field * 2 ^ 52 + 2 ^ 53) % 2 ^ 52 = 0 := by
      omega
    have exponent : ((field + 2 : Nat) : Int) - 1075 = (field : Int) - 1074 + 1 := by
      omega
    simp only [next, fraction, exponent, Nat.add_eq_zero_iff, OfNat.ofNat_ne_zero, and_false, beq_iff_eq, if_false]
    rw [zpow_add_one₀ two_ne_zero]
    norm_num
    ring
  · have same : (field * 2 ^ 52 + count) / 2 ^ 52 = field + 1 := by
      omega
    have fraction : 2 ^ 52 + (field * 2 ^ 52 + count) % 2 ^ 52 = count := by
      omega
    have exponent : ((field + 1 : Nat) : Int) - 1075 = (field : Int) - 1074 := by
      omega
    simp only [same, fraction, exponent, Nat.add_eq_zero_iff, Nat.one_ne_zero, and_false, beq_iff_eq, if_false]

end Rounds

/-! ## Bounds -/

/-- The middle between the greatest double and the next power of two: from here on everything is rounded to infinity. -/
def limit : ℚ :=
  (2 ^ 53 - 1 / 2) * step 2045

theorem limit_lt : limit < 2 ^ 53 * step 2045 := by
  have positive := step_pos 2045
  rw [limit]
  linarith

theorem roundedMagnitude_lt_of_lt (positive : 0 < den) (below : (num : ℚ) / den < limit) :
    roundedMagnitude num den < infinityMagnitude := by
  rcases Nat.eq_zero_or_pos num with rfl | numPositive
  · simp [roundedMagnitude, infinityMagnitude]
  obtain ⟨field, count, rounds⟩ := exists_rounds numPositive positive
  have small := rounds.field_le (below.trans limit_lt)
  have most := rounds.most
  rw [rounds.magnitude_eq small, infinityMagnitude]
  rcases Nat.lt_or_eq_of_le small with lower | rfl
  · omega
  · have fewer : (count : ℚ) < (2 ^ 53 : Nat) := by
      have near := rounds.near
      rw [limit] at below
      have scaled : count * step 2045 < 2 ^ 53 * step 2045 := by
        linarith
      exact_mod_cast lt_of_mul_lt_mul_right scaled (step_pos 2045).le
    have : count < 2 ^ 53 := by
      exact_mod_cast fewer
    omega

theorem isFinite_absMul {x y : Binary64} (below : x.value * y.value < limit) :
    (x.absMul y).isFinite = true := by
  refine isFinite_ofMagnitude (roundedMagnitude_lt_of_lt (Nat.mul_pos x.ratio_den_pos y.ratio_den_pos) ?_)
  rw [Nat.cast_mul, Nat.cast_mul, mul_div_mul_comm, ratio_eq_value, ratio_eq_value]
  exact below

/-- An integer is a whole number of steps that are small beside it. -/
theorem value_ofNat_le {n : Nat} (below : (n : ℚ) < limit) :
    (ofNat n).value ≤ n * (1 + 1 / 2 ^ 53) := by
  rcases Nat.eq_zero_or_pos n with rfl | positive
  · simp [ofNat, ofRatio, roundedMagnitude, value, significand, fractionField, exponentField,
      magnitude_ofMagnitude]
  obtain ⟨field, count, rounds⟩ := exists_rounds positive Nat.one_pos
  have near := rounds.near
  have full := rounds.full
  rw [Nat.cast_one, div_one] at near full
  have small := rounds.field_le (by simpa using below.trans limit_lt)
  rw [ofNat, rounds.value_eq small]
  have steps : 2 ^ 52 * step field ≤ n := by
    rcases full with rfl | ⟨-, full⟩
    · calc
        2 ^ 52 * step 0 ≤ 2 ^ 52 * step 1022 := by
          gcongr
          exact step_le (Nat.zero_le _)
        _ = 1 := by
          norm_num [step]
        _ ≤ (n : ℚ) := by
          exact_mod_cast positive
    · exact full
  calc
    count * step field ≤ n + step field / 2 := near
    _ ≤ n * (1 + 1 / 2 ^ 53) := by
      linarith

/-- Half a step above a finite double there is room for two more roundings, unless the double is one of the greatest two. -/
theorem twice_rounded_lt_limit {x : Binary64} (lower : x.magnitude + 2 < infinityMagnitude) :
    (x.significand + 1 / 2) * 2 ^ x.exponent * (1 + 1 / 2 ^ 53) ^ 2 < limit := by
  have fields : (x.exponent ≤ 970 ∧ x.significand + 1 ≤ 2 ^ 53) ∨ (x.exponent = 971 ∧ x.significand + 3 ≤ 2 ^ 53) := by
    rw [infinityMagnitude] at lower
    simp only [exponent, significand, exponentField, fractionField, beq_iff_eq]
    split <;> omega
  have size : (x.exponent ≤ 970 → (2 : ℚ) ^ x.exponent ≤ step 2044) ∧
      (x.exponent = 971 → (2 : ℚ) ^ x.exponent = 2 * step 2044) := by
    refine ⟨fun exponent => zpow_le_zpow_right₀ one_le_two exponent, fun exponent => ?_⟩
    rw [← step_succ, step, exponent]
    congr 1
  rw [limit, step_succ 2044]
  have positive := step_pos 2044
  have powerPositive : (0 : ℚ) < 2 ^ x.exponent := by
    positivity
  -- the numerals behind the steps are too large to compute with
  generalize step 2044 = s at size positive
  generalize (2 : ℚ) ^ x.exponent = power at size powerPositive
  rcases fields with ⟨exponent, significand⟩ | ⟨exponent, significand⟩
  · have small := size.1 exponent
    have bound : (x.significand : ℚ) + 1 ≤ 2 ^ 53 := by
      exact_mod_cast significand
    calc
      (x.significand + 1 / 2) * power * (1 + 1 / 2 ^ 53) ^ 2
          ≤ (2 ^ 53 - 1 / 2) * s * (1 + 1 / 2 ^ 53 : ℚ) ^ 2 := by
        gcongr
        linarith
      _ < (2 ^ 53 - 1 / 2) * (2 * s) := by
        norm_num
        linarith
  · have bound : (x.significand : ℚ) + 3 ≤ 2 ^ 53 := by
      exact_mod_cast significand
    rw [size.2 exponent]
    calc
      (x.significand + 1 / 2) * (2 * s) * (1 + 1 / 2 ^ 53) ^ 2
          ≤ (2 ^ 53 - 5 / 2) * (2 * s) * (1 + 1 / 2 ^ 53 : ℚ) ^ 2 := by
        gcongr
        linarith
      _ < (2 ^ 53 - 1 / 2) * (2 * s) := by
        norm_num
        linarith

end SchemaRpc.Binary64
