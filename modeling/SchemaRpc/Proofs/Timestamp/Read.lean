import SchemaRpc.Proofs.Timestamp.Text

/-!
# What is read as a timestamp

Whatever the date, the fraction and the offset of a text, the timestamp that is read is one as the calendar keeps it. An
offset may take it out of the years 0 to 9999, though, and the text of such a timestamp is not read again.
-/

namespace SchemaRpc.Timestamp

theorem digit_lt_ten {c : Char} (digit : c.isDigit = true) : c.toNat - 0x30 < 10 := by
  obtain ⟨_, most⟩ := Char.isDigit_iff_toNat.1 digit
  have nine : '9'.toNat = 57 := rfl
  omega

theorem foldl_digits_lt {digits : List Char} (allDigits : ∀ c ∈ digits, c.isDigit = true) (n : Nat) :
    digits.foldl (fun n c => 10 * n + (c.toNat - 0x30)) n < (n + 1) * 10 ^ digits.length := by
  induction digits generalizing n with
  | nil =>
      simp
  | cons first others inductionHypothesis =>
      obtain ⟨firstDigit, othersDigits⟩ := List.forall_mem_cons.1 allDigits
      have small := digit_lt_ten firstDigit
      have later := inductionHypothesis othersDigits (10 * n + (first.toNat - 0x30))
      rw [List.foldl_cons, List.length_cons, Nat.pow_succ]
      calc
        _ < (10 * n + (first.toNat - 0x30) + 1) * 10 ^ others.length := later
        _ ≤ ((n + 1) * 10) * 10 ^ others.length := Nat.mul_le_mul_right _ (by omega)
        _ = (n + 1) * (10 ^ others.length * 10) := by rw [Nat.mul_assoc, Nat.mul_comm 10]

/-- A fraction is less than a second. -/
theorem readFraction?_lt {s rest : List Char} {nanos : Nat} (read : readFraction? s = some (nanos, rest)) :
    nanos < second := by
  unfold readFraction? at read
  split at read
  · next afterPoint =>
    dsimp only at read
    split at read
    · cases read
    · cases read
      have allDigits : ∀ c ∈ (afterPoint.takeWhile Char.isDigit).take 9, c.isDigit = true :=
        fun c member => List.all_eq_true.1 List.all_takeWhile c (List.mem_of_mem_take member)
      have short : ((afterPoint.takeWhile Char.isDigit).take 9).length ≤ 9 := List.length_take_le 9 _
      have value := foldl_digits_lt allDigits 0
      generalize (afterPoint.takeWhile Char.isDigit).take 9 = used at allDigits short value ⊢
      calc
        _ < (0 + 1) * 10 ^ used.length * 10 ^ (9 - used.length) :=
            Nat.mul_lt_mul_of_pos_right value (Nat.pow_pos (by decide))
        _ = 10 ^ (used.length + (9 - used.length)) := by rw [Nat.zero_add, Nat.one_mul, Nat.pow_add]
        _ = 10 ^ 9 := by rw [Nat.add_sub_cancel' short]
        _ = second := by decide
  · cases read
    decide

/-- Offsets are whole minutes. -/
theorem readOffset?_minutes {s rest : List Char} {offset : Int} (read : readOffset? s = some (offset, rest)) :
    offset % 60 = 0 := by
  unfold readOffset? at read
  split at read
  · cases read
  · split at read
    · cases read
      rfl
    · split at read
      · obtain ⟨⟨hours, rest⟩, -, read⟩ := Option.bind_eq_some_iff.1 read
        obtain ⟨rest, -, read⟩ := Option.bind_eq_some_iff.1 read
        obtain ⟨⟨minutes, rest⟩, -, read⟩ := Option.bind_eq_some_iff.1 read
        dsimp only at read
        split at read
        · cases read
          split <;> omega
        · cases read
      · cases read

theorem proper_of_ofText? {s : String} {t : Timestamp} (read : ofText? s = some t) : t.Proper := by
  unfold ofText? at read
  obtain ⟨⟨year, rest⟩, -, read⟩ := Option.bind_eq_some_iff.1 read
  obtain ⟨rest, -, read⟩ := Option.bind_eq_some_iff.1 read
  obtain ⟨⟨month, rest⟩, -, read⟩ := Option.bind_eq_some_iff.1 read
  obtain ⟨rest, -, read⟩ := Option.bind_eq_some_iff.1 read
  obtain ⟨⟨day, rest⟩, -, read⟩ := Option.bind_eq_some_iff.1 read
  obtain ⟨rest, -, read⟩ := Option.bind_eq_some_iff.1 read
  obtain ⟨⟨hour, rest⟩, -, read⟩ := Option.bind_eq_some_iff.1 read
  obtain ⟨rest, -, read⟩ := Option.bind_eq_some_iff.1 read
  obtain ⟨⟨minute, rest⟩, -, read⟩ := Option.bind_eq_some_iff.1 read
  obtain ⟨rest, -, read⟩ := Option.bind_eq_some_iff.1 read
  obtain ⟨⟨sec, rest⟩, -, read⟩ := Option.bind_eq_some_iff.1 read
  obtain ⟨⟨nanos, rest⟩, readFraction, read⟩ := Option.bind_eq_some_iff.1 read
  obtain ⟨⟨offset, rest⟩, readOffset, read⟩ := Option.bind_eq_some_iff.1 read
  have fraction := readFraction?_lt readFraction
  have minutes := readOffset?_minutes readOffset
  dsimp only at read
  split at read
  · cases read
    simp only [second] at fraction
    constructor
    case nanos_lt =>
      simp only [second]
      split <;> omega
    case leap =>
      intro late
      simp only [second, beq_iff_eq] at late
      dsimp only
      split at late <;> omega
  · cases read

/-- A sign stands where a digit is expected. -/
theorem ofText?_toText_eq_none {t : Timestamp} (outside : ¬ t.HasFourDigitYear) : ofText? t.toText = none := by
  have notFour : (decide (0 ≤ t.date.year) && decide (t.date.year ≤ 9999)) = false := by
    rw [Bool.and_eq_false_iff, decide_eq_false_iff_not, decide_eq_false_iff_not]
    exact Decidable.not_and_iff_or_not.1 outside
  obtain ⟨sign, rest, written, noDigit⟩ : ∃ sign rest, t.write = sign :: rest ∧ sign.isDigit = false := by
    simp only [write, writeYear, notFour, Bool.false_eq_true, if_false, List.append_assoc, List.cons_append]
    refine ⟨_, _, rfl, ?_⟩
    split <;> decide
  have unread : readDigits? 4 0 (sign :: rest) = none := by
    simp [readDigits?, noDigit]
  rw [toText, ofText?, String.toList_ofList, written, unread]
  rfl

end SchemaRpc.Timestamp
