import SchemaRpc.Json.NumberReading
import SchemaRpc.Proofs.Decimal.Shortest

/-!
# Scaling the digits of a double

The reader of numbers rounds a coefficient and a power of ten, multiplies them, and refuses an infinite product. The
shortest digits of a finite double exceed it by so little that the product of the two rounded factors is finite as well
(`Json.scales_shortest`); the greatest two doubles, for which this is too coarse, are looked at one by one.
-/

namespace SchemaRpc.Json

open Binary64

theorem isSome_scaled?_of_neg (negative : Bool) (coefficient : Nat) {exponent : Int} (small : exponent < 0) :
    (scaled? negative coefficient exponent).isSome = true := by
  unfold scaled?
  dsimp only
  rw [if_pos small]
  rfl

theorem limit_le_ten_pow : limit ≤ 10 ^ 309 := by
  have power (base k : Nat) : ((base ^ k : Nat) : ℚ) = (base : ℚ) ^ k := Nat.cast_pow base k
  have powers : 2 ^ 53 * 2 ^ 971 ≤ 10 ^ 309 := by
    decide +kernel
  calc
    limit ≤ 2 ^ 53 * step 2045 := limit_lt.le
    _ = ((2 ^ 53 : Nat) : ℚ) * ((2 ^ 971 : Nat) : ℚ) := congrArg₂ _ (power 2 53).symm (step_eq_natCast 971)
    _ = ((2 ^ 53 * 2 ^ 971 : Nat) : ℚ) := (Nat.cast_mul _ _).symm
    _ ≤ ((10 ^ 309 : Nat) : ℚ) := Nat.cast_le.mpr powers
    _ = 10 ^ 309 := power 10 309

/-- Both factors are rounded before they are multiplied. -/
theorem isSome_scaled? (negative : Bool) {coefficient : Nat} {exponent : Int}
    (below : coefficient * 10 ^ exponent * (1 + 1 / 2 ^ 53) ^ 2 < limit) :
    (scaled? negative coefficient exponent).isSome = true := by
  unfold scaled?
  dsimp only
  split
  · rfl
  split
  · rfl
  next nonneg positive =>
  rw [beq_iff_eq] at positive
  obtain ⟨k, rfl⟩ := Int.eq_ofNat_of_zero_le (Int.not_lt.mp nonneg)
  rw [zpow_natCast] at below
  have one : (1 : ℚ) ≤ coefficient := by
    exact_mod_cast Nat.one_le_iff_ne_zero.mpr positive
  have power : (1 : ℚ) ≤ 10 ^ k := one_le_pow₀ (by norm_num)
  have product : (coefficient : ℚ) * 10 ^ k < limit := by
    refine lt_of_le_of_lt (le_mul_of_one_le_right (by positivity) ?_) below
    norm_num
  split
  · next large =>
    have tooLarge : limit ≤ coefficient * 10 ^ k := by
      calc
        limit ≤ 10 ^ 309 := limit_le_ten_pow
        _ ≤ 10 ^ k := pow_le_pow_right₀ (by norm_num) (by omega)
        _ ≤ coefficient * 10 ^ k := le_mul_of_one_le_left (by positivity) one
    exact absurd product (not_lt.mpr tooLarge)
  · have first : (Binary64.ofNat coefficient).value ≤ coefficient * (1 + 1 / 2 ^ 53) :=
      value_ofNat_le (lt_of_le_of_lt (le_mul_of_one_le_right (by positivity) power) product)
    have second : (powerOfTen k).value ≤ 10 ^ k * (1 + 1 / 2 ^ 53) := by
      have bound : ((10 ^ k : Nat) : ℚ) < limit := by
        push_cast
        exact lt_of_le_of_lt (le_mul_of_one_le_left (by positivity) one) product
      exact_mod_cast value_ofNat_le bound
    have finite : ((Binary64.ofNat coefficient).absMul (powerOfTen k)).isFinite = true := by
      apply isFinite_absMul
      calc
        (Binary64.ofNat coefficient).value * (powerOfTen k).value
            ≤ (coefficient * (1 + 1 / 2 ^ 53)) * (10 ^ k * (1 + 1 / 2 ^ 53)) := by
          gcongr
          exact value_nonneg _
        _ = coefficient * 10 ^ k * (1 + 1 / 2 ^ 53) ^ 2 := by
          ring
        _ < limit := below
    simp [finite]

/-- Whatever the reader makes of the digits of a scientific text can be scaled: a number that is no greater, and the
decimal itself when all its digits fit into a coefficient. -/
structure Scales (d : Decimal) : Prop where
  below : d.value < 10 ^ 309
  isSome : ∀ (negative : Bool) (coefficient : Nat) (exponent : Int), coefficient * 10 ^ exponent ≤ d.value →
    (d.digits ≤ maxCoefficient → coefficient = d.digits ∧ exponent = d.exponent) →
    (scaled? negative coefficient exponent).isSome = true

/-- Seventeen digits are all read, and then it is for these digits alone to be scaled. -/
theorem scales_of_digits {d : Decimal} (fits : d.digits < 10 ^ 17) (exponent : d.exponent = 292)
    (isSome : ∀ negative, (scaled? negative d.digits d.exponent).isSome = true) : Scales d := by
  refine ⟨?_, fun negative coefficient k _ whole => ?_⟩
  · calc
      d.value < (10 ^ 17 : Nat) * 10 ^ (292 : Int) := by
        rw [Decimal.value, exponent]
        gcongr
      _ = 10 ^ (309 : Int) := by
        rw [Nat.cast_pow, Nat.cast_ofNat, ← zpow_natCast, ← zpow_add₀ (by norm_num)]
        rfl
  · obtain ⟨rfl, rfl⟩ := whole (by rw [maxCoefficient]; omega)
    exact isSome negative

theorem scales_shortest {x : Binary64} (finite : x.isFinite = true) : Scales x.shortest := by
  by_cases lower : x.magnitude + 2 < infinityMagnitude
  · have room := twice_rounded_lt_limit lower
    have high := value_shortest_le x
    refine ⟨?_, fun negative coefficient exponent le _ => isSome_scaled? negative ?_⟩
    · calc
        x.shortest.value ≤ (x.significand + 1 / 2) * 2 ^ x.exponent := high
        _ ≤ (x.significand + 1 / 2) * 2 ^ x.exponent * (1 + 1 / 2 ^ 53) ^ 2 := by
          refine le_mul_of_one_le_right (by positivity) ?_
          norm_num
        _ < limit := room
        _ ≤ 10 ^ 309 := limit_le_ten_pow
    · exact lt_of_le_of_lt (mul_le_mul_of_nonneg_right (le.trans high) (by positivity)) room
  · have greatest : ∀ gap ∈ [1, 2], ∀ negative,
        (ofMagnitude negative (infinityMagnitude - gap)).shortest = ⟨17976931348623159 - 2 * gap, 292⟩ := by
      decide +kernel
    have isSome : ∀ gap ∈ [1, 2], ∀ negative, (scaled? negative (17976931348623159 - 2 * gap) 292).isSome = true := by
      decide +kernel
    rw [isFinite_iff] at finite
    have close : infinityMagnitude - x.magnitude = 1 ∨ infinityMagnitude - x.magnitude = 2 := by
      omega
    have gap : infinityMagnitude - x.magnitude ∈ [1, 2] := by
      simpa using close
    have digits := greatest _ gap x.isNegative
    rw [show infinityMagnitude - (infinityMagnitude - x.magnitude) = x.magnitude by omega, ofMagnitude_magnitude] at digits
    rw [digits]
    exact scales_of_digits (by dsimp only; omega) rfl (isSome _ gap)

end SchemaRpc.Json
