import SchemaRpc.Decimal.Shortest
import SchemaRpc.Proofs.Binary64.Rounding

/-!
# The shortest digits stay near the double

The decimal that is written for a double lies in the interval of the reals that round to it, so it exceeds the double by
half a step at most (`Binary64.value_shortest_le`). The search for a grid with a point in the interval may give up; then
the decimal is zero.
-/

namespace SchemaRpc

namespace Decimal

/-- The number that a decimal stands for. -/
def value (d : Decimal) : ℚ :=
  d.digits * 10 ^ d.exponent

/-- A zero less among the digits is one more in the exponent. -/
theorem value_trimZeros (fuel : Nat) (d : Decimal) : (trimZeros fuel d).value = d.value := by
  induction fuel generalizing d with
  | zero =>
      rfl
  | succ fuel inductionHypothesis =>
      rw [trimZeros]
      split
      · next trailing =>
        simp only [Bool.and_eq_true, bne_iff_ne, beq_iff_eq] at trailing
        have digits : (d.digits : ℚ) = (d.digits / 10 : Nat) * 10 := by
          exact_mod_cast (Nat.div_mul_cancel (Nat.dvd_of_mod_eq_zero trailing.2)).symm
        rw [inductionHypothesis, value, value, digits, zpow_add_one₀ (by norm_num)]
        ring
      · rfl

end Decimal

namespace Binary64

namespace Interval

variable {i : Interval} {k : Int} {d : Decimal}

theorem le_high_of_contains {num den : Nat} (denPositive : 0 < den) (positive : 0 < i.den)
    (inside : i.contains num den = true) : (num : ℚ) / den ≤ i.high / i.den := by
  have le : num * i.den ≤ i.high * den := by
    unfold contains at inside
    dsimp only at inside
    split at inside
    · simp only [Bool.and_eq_true, decide_eq_true_eq] at inside
      exact inside.2
    · simp only [Bool.and_eq_true, decide_eq_true_eq] at inside
      exact inside.2.le
  have cast : (num * i.den : ℚ) ≤ i.high * den := by
    exact_mod_cast le
  rw [div_le_div_iff₀ (by exact_mod_cast denPositive) (by exact_mod_cast positive)]
  exact cast

theorem value_le_of_contains_grid (k : Int) (digits : Nat) (positive : 0 < i.den)
    (inside : i.contains (digits * if k ≥ 0 then 10 ^ k.toNat else 1) (if k ≥ 0 then 1 else 10 ^ (-k).toNat) = true) :
    (⟨digits, k⟩ : Decimal).value ≤ i.high / i.den := by
  refine le_trans (le_of_eq ?_) (le_high_of_contains ?_ positive inside)
  · rw [Decimal.value, ofNat_zpow_eq_div, Nat.cast_mul, mul_div_assoc]
  · split
    · exact Nat.one_pos
    · exact Nat.pow_pos (by decide)

/-- Each of the two points is tested before it is taken. -/
theorem value_le_of_gridPoint? (positive : 0 < i.den) (found : i.gridPoint? k = some d) :
    d.value ≤ i.high / i.den := by
  have grid (digits : Nat) := value_le_of_contains_grid k digits positive
  unfold gridPoint? at found
  dsimp only at found
  generalize (if k ≥ 0 then 10 ^ k.toNat else 1) = scaleDen at grid found
  generalize (if k ≥ 0 then 1 else 10 ^ (-k).toNat) = scaleNum at grid found
  split at found
  · next below above =>
    rw [Bool.and_eq_true] at below
    cases found
    split
    · exact grid _ below.1
    · exact grid _ above
  · next below above =>
    rw [Bool.and_eq_true] at below
    cases found
    exact grid _ below.1
  · next below above =>
    cases found
    exact grid _ above
  · cases found

theorem value_le_of_search (positive : 0 < i.den) {fuel : Nat} (found : i.search fuel k = some d) :
    d.value ≤ i.high / i.den := by
  induction fuel generalizing k with
  | zero =>
      cases found
  | succ fuel inductionHypothesis =>
      rw [search] at found
      split at found
      · next here =>
        cases found
        exact value_le_of_gridPoint? positive here
      · exact inductionHypothesis found

end Interval

theorem interval_den_pos (x : Binary64) : 0 < x.interval.den := by
  simp only [interval]
  split
  · decide
  · exact Nat.mul_pos (by decide) (Nat.two_pow_pos _)

theorem interval_high (x : Binary64) :
    (x.interval.high : ℚ) / x.interval.den = (x.significand + 1 / 2) * 2 ^ x.exponent := by
  rw [ofNat_zpow_eq_div, interval]
  push_cast
  rw [mul_div_mul_comm]
  congr 1
  ring

/-- The decimal written for a double is half a step above it at most. -/
theorem value_shortest_le (x : Binary64) : x.shortest.value ≤ (x.significand + 1 / 2) * 2 ^ x.exponent := by
  have zero : (⟨0, 0⟩ : Decimal).value ≤ (x.significand + 1 / 2) * 2 ^ x.exponent := by
    rw [Decimal.value]
    norm_num
    positivity
  unfold shortest
  split
  · exact zero
  · rw [Decimal.value_trimZeros]
    cases found : x.interval.search 25 x.decimalCeiling with
    | none =>
        exact zero
    | some d =>
        rw [← interval_high]
        exact Interval.value_le_of_search x.interval_den_pos found

end Binary64

end SchemaRpc
