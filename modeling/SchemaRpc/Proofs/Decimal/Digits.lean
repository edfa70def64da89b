import SchemaRpc.Decimal.Reading
import SchemaRpc.Timestamp.Basic

/-!
# Written numbers are read back

The decimal text of an integer, with or without leading zeros, gives the integer again.
-/

namespace SchemaRpc

namespace Decimal

theorem isDigit_toDigits {n : Nat} {c : Char} (member : c ∈ Nat.toDigits 10 n) : c.isDigit = true :=
  Nat.isDigit_of_mem_toDigits (by decide) (by decide) member

theorem digitsValue_toDigits (n : Nat) : digitsValue (Nat.toDigits 10 n) = n :=
  Nat.ofDigitChars_ten_toDigits

/-- The sign is taken off before the digits are looked at, and no digit is a sign. -/
theorem readInt?_natural (n : Nat) : readInt? (toString n) = some (n : Int) := by
  have digits : (toString n).toList = Nat.toDigits 10 n := Nat.toList_repr
  have allDigits : (Nat.toDigits 10 n).all Char.isDigit = true :=
    List.all_eq_true.2 fun c member => isDigit_toDigits member
  unfold readInt?
  rw [digits]
  cases written : Nat.toDigits 10 n with
  | nil =>
      exact absurd written Nat.toDigits_ne_nil
  | cons first rest =>
      have firstDigit : first.isDigit = true :=
        isDigit_toDigits (written ▸ List.mem_cons_self)
      have notMinus : first ≠ '-' := by
        rintro rfl
        exact absurd firstDigit (by decide)
      have notPlus : first ≠ '+' := by
        rintro rfl
        exact absurd firstDigit (by decide)
      have value : digitsValue (first :: rest) = n := written ▸ digitsValue_toDigits n
      rw [written] at allDigits
      split
      next sign body equality =>
        split at equality
        · next minus => injection minus with same; exact absurd same notMinus
        · next plus => injection plus with same; exact absurd same notPlus
        · cases equality
          simp [allDigits, value]

theorem readInt?_negative (n : Nat) : readInt? ("-" ++ toString n) = some (-(n : Int)) := by
  have digits : ("-" ++ toString n).toList = '-' :: Nat.toDigits 10 n := by
    rw [String.toList_append]
    exact congrArg _ Nat.toList_repr
  have allDigits : (Nat.toDigits 10 n).all Char.isDigit = true :=
    List.all_eq_true.2 fun c member => isDigit_toDigits member
  unfold readInt?
  rw [digits]
  simp [allDigits, digitsValue_toDigits]

theorem readInt?_toString (n : Int) : readInt? (toString n) = some n := by
  cases n with
  | ofNat n =>
      exact readInt?_natural n
  | negSucc n =>
      exact readInt?_negative (n + 1)

theorem readInt128?_toString {n : Int} (least : -(2 ^ 127) ≤ n) (most : n < 2 ^ 127) :
    readInt128? (toString n) = some n := by
  have fits : (decide (-(2 ^ 127 : Int) ≤ n) && decide (n < 2 ^ 127)) = true := by
    rw [Bool.and_eq_true, decide_eq_true_eq, decide_eq_true_eq]
    exact ⟨least, most⟩
  rw [readInt128?, readInt?_toString, Option.filter_some, if_pos fits]

end Decimal

namespace Timestamp

/-! ## Numbers of a fixed width -/

theorem isDigit_padded {width n : Nat} {c : Char} (member : c ∈ padded width n) :
    c.isDigit = true := by
  rcases List.mem_append.1 member with zero | digit
  · rw [List.eq_of_mem_replicate zero]
    decide
  · exact Decimal.isDigit_toDigits (Nat.toList_repr ▸ digit)

theorem length_padded {width n : Nat} (positive : 0 < width) (fits : n < 10 ^ width) :
    (padded width n).length = width := by
  have digits : (toString n).toList = Nat.toDigits 10 n := Nat.toList_repr
  have short : (Nat.toDigits 10 n).length ≤ width :=
    (Nat.length_toDigits_le_iff (by decide) positive).2 fits
  simp only [padded, digits, List.length_append, List.length_replicate]
  omega

theorem digitsValue_padded (width n : Nat) : Decimal.digitsValue (padded width n) = n := by
  have digits : (toString n).toList = Nat.toDigits 10 n := Nat.toList_repr
  have value : Nat.ofDigitChars 10 (padded width n) 0 = n := by
    simp only [padded, digits]
    rw [Nat.ofDigitChars_append, Nat.ofDigitChars_replicate_zero, Nat.mul_zero,
      Nat.ofDigitChars_ten_toDigits]
  exact value

/-- As many digits as are asked for are read, whatever follows them. -/
theorem readDigits?_append {digits : List Char} (allDigits : ∀ c ∈ digits, c.isDigit = true)
    (rest : List Char) (n : Nat) :
    readDigits? digits.length n (digits ++ rest) =
      some (digits.foldl (fun n c => 10 * n + (c.toNat - 0x30)) n, rest) := by
  induction digits generalizing n with
  | nil =>
      rfl
  | cons first others inductionHypothesis =>
      have firstDigit := allDigits first List.mem_cons_self
      have othersDigits : ∀ c ∈ others, c.isDigit = true :=
        fun c member => allDigits c (List.mem_cons_of_mem first member)
      simp only [List.length_cons, List.cons_append, readDigits?, firstDigit, if_true,
        List.foldl_cons]
      exact inductionHypothesis othersDigits _

theorem readDigits?_padded {width n : Nat} (positive : 0 < width) (fits : n < 10 ^ width)
    (rest : List Char) :
    readDigits? width 0 (padded width n ++ rest) = some (n, rest) := by
  have allDigits : ∀ c ∈ padded width n, c.isDigit = true := fun _ member => isDigit_padded member
  have read := readDigits?_append allDigits rest 0
  rw [length_padded positive fits] at read
  rw [read]
  exact congrArg (fun value => some (value, rest)) (digitsValue_padded width n)

end Timestamp

end SchemaRpc
