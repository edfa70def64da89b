import SchemaRpc.Binary64

/-!
# Finite doubles

An integer of sixty-four bits is rounded to a finite double: its exponent stays far below that of infinity.
-/

namespace SchemaRpc.Binary64

variable {num den : Nat} {e : Int}

theorem roundDiv_le : roundDiv num den ≤ num / den + 1 := by
  simp only [roundDiv]
  split
  · exact Nat.le_refl _
  · exact Nat.le_succ _

/-- A bound on the scaled quotient that any exponent as large as that of the leading bit gives. -/
theorem scaleDown_le (large : (num.log2 : Int) - 53 ≤ e) :
    (scaleDown num 1 e).1 / (scaleDown num 1 e).2 ≤ 2 ^ 54 := by
  have leading : num < 2 ^ (num.log2 + 1) := Nat.lt_log2_self
  unfold scaleDown
  by_cases nonneg : e ≥ 0
  · rw [if_pos nonneg, Nat.one_mul]
    refine Nat.div_le_of_le_mul (Nat.le_of_lt ?_)
    calc
      num < 2 ^ (num.log2 + 1) := leading
      _ ≤ 2 ^ (e.toNat + 54) := Nat.pow_le_pow_right (by decide) (by omega)
      _ = 2 ^ e.toNat * 2 ^ 54 := Nat.pow_add 2 _ _
  · rw [if_neg nonneg, Nat.div_one]
    calc
      num * 2 ^ (-e).toNat ≤ 2 ^ (num.log2 + 1) * 2 ^ (-e).toNat := Nat.mul_le_mul_right _ (Nat.le_of_lt leading)
      _ = 2 ^ (num.log2 + 1 + (-e).toNat) := (Nat.pow_add 2 _ _).symm
      _ ≤ 2 ^ 54 := Nat.pow_le_pow_right (by decide) (by omega)

theorem binaryExponent_bounds (positive : num ≠ 0) (small : num < 2 ^ 64) :
    (num.log2 : Int) - 53 ≤ binaryExponent 53 (-1074) num 1 ∧ binaryExponent 53 (-1074) num 1 ≤ 12 := by
  have leading : num.log2 < 64 := (Nat.log2_lt positive).2 small
  have unit : Nat.log2 1 = 0 := by
    decide
  simp only [binaryExponent, unit]
  split <;> omega

theorem roundedMagnitude_lt (small : num < 2 ^ 64) : roundedMagnitude num 1 < infinityMagnitude := by
  unfold roundedMagnitude
  by_cases zero : num = 0
  · simp [zero, infinityMagnitude]
  · obtain ⟨least, most⟩ := binaryExponent_bounds zero small
    have scaled := scaleDown_le least
    generalize binaryExponent 53 (-1074) num 1 = e at least most scaled
    have rounded : roundDiv (scaleDown num 1 e).1 (scaleDown num 1 e).2 ≤ 2 ^ 54 + 1 :=
      Nat.le_trans roundDiv_le (Nat.succ_le_succ scaled)
    have field : (e + 1074).toNat ≤ 1086 := by
      omega
    simp only [beq_iff_eq, zero, if_false, infinityMagnitude]
    omega

theorem magnitude_ofMagnitude {negative : Bool} {magnitude : Nat} (fits : magnitude < 2 ^ 63) :
    (ofMagnitude negative magnitude).magnitude = magnitude := by
  simp only [Binary64.magnitude, ofMagnitude, UInt64.toNat_ofNat']
  cases negative
  · simp only [Bool.false_eq_true, if_false]
    omega
  · simp only [if_true]
    omega

theorem infinityMagnitude_lt : infinityMagnitude < 2 ^ 63 := by
  decide

/-- A double is its sign and the bits below it. -/
theorem ofMagnitude_magnitude (x : Binary64) : ofMagnitude x.isNegative x.magnitude = x := by
  have most : x.bits.toNat < 2 ^ 64 := x.bits.toNat_lt
  have whole : (if x.isNegative then 2 ^ 63 else 0) + x.magnitude = x.bits.toNat := by
    simp only [isNegative, magnitude, ge_iff_le, decide_eq_true_eq]
    split <;> omega
  rw [ofMagnitude, whole, UInt64.ofNat_toNat]

theorem isFinite_iff {x : Binary64} : x.isFinite = true ↔ x.magnitude < infinityMagnitude := by
  rw [isFinite, exponentField, decide_eq_true_eq, infinityMagnitude, Nat.div_lt_iff_lt_mul (by decide)]

theorem isFinite_ofMagnitude {negative : Bool} {magnitude : Nat} (finite : magnitude < infinityMagnitude) :
    (ofMagnitude negative magnitude).isFinite = true := by
  rw [isFinite_iff, magnitude_ofMagnitude (Nat.lt_trans finite infinityMagnitude_lt)]
  exact finite

theorem isFinite_ofInt {n : Int} (small : n.natAbs < 2 ^ 64) : (ofInt n).isFinite = true :=
  isFinite_ofMagnitude (roundedMagnitude_lt small)

end SchemaRpc.Binary64
