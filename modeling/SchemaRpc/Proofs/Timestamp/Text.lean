import SchemaRpc.Proofs.Decimal.Digits
import SchemaRpc.Proofs.Timestamp.Calendar

/-!
# Written timestamps are read back

The text of a timestamp in the years 0 to 9999 is read as the timestamp without what lies below a millisecond.
-/

namespace SchemaRpc.Timestamp

/-- Less than two thousand million nanoseconds are counted after a second, and a thousand million or more only after the
second 59 of a minute. -/
structure Proper (t : Timestamp) : Prop where
  nanos_lt : t.nanos < 2 * second
  leap : second ≤ t.nanos → t.seconds % 60 = 59

/-- The year is written with four digits. -/
def HasFourDigitYear (t : Timestamp) : Prop :=
  0 ≤ t.date.year ∧ t.date.year ≤ 9999

instance (t : Timestamp) : Decidable t.Proper :=
  decidable_of_iff (t.nanos < 2 * second ∧ (second ≤ t.nanos → t.seconds % 60 = 59))
    ⟨fun ⟨nanos_lt, leap⟩ => ⟨nanos_lt, leap⟩, fun proper => ⟨proper.nanos_lt, proper.leap⟩⟩

instance (t : Timestamp) : Decidable t.HasFourDigitYear :=
  inferInstanceAs (Decidable (0 ≤ t.date.year ∧ t.date.year ≤ 9999))

/-- The text from its parts. -/
theorem write_eq {t : Timestamp} (fourDigits : t.HasFourDigitYear) :
    t.write =
      padded 4 t.date.year.toNat ++ '-' :: (padded 2 t.date.month ++ '-' ::
        (padded 2 t.date.day ++ 'T' :: (padded 2 ((t.seconds % 86400).toNat / 3600) ++ ':' ::
          (padded 2 ((t.seconds % 86400).toNat / 60 % 60) ++ ':' ::
            (padded 2 ((t.seconds % 86400).toNat % 60 + t.nanos / second) ++ '.' ::
              (padded 3 (t.nanos % second / 1000000) ++ ['Z'])))))) := by
  have inRange : (decide (0 ≤ t.date.year) && decide (t.date.year ≤ 9999)) = true := by
    simpa [HasFourDigitYear] using fourDigits
  simp only [write, writeYear, inRange, if_true, List.append_assoc, List.cons_append]

theorem readFraction?_padded {ms : Nat} (fits : ms < 1000) :
    readFraction? ('.' :: (padded 3 ms ++ ['Z'])) = some (ms * 1000000, ['Z']) := by
  have allDigits : ∀ c ∈ padded 3 ms, c.isDigit = true := fun _ member => isDigit_padded member
  have length : (padded 3 ms).length = 3 := length_padded (by decide) fits
  have taken : (padded 3 ms ++ ['Z']).takeWhile Char.isDigit = padded 3 ms := by
    rw [List.takeWhile_append_of_pos allDigits]
    simp
  have dropped : (padded 3 ms ++ ['Z']).dropWhile Char.isDigit = ['Z'] := by
    rw [List.dropWhile_append_of_pos allDigits]
    simp
  have nonempty : (padded 3 ms).isEmpty = false := by
    rw [← Bool.not_eq_true, List.isEmpty_iff]
    intro empty
    rw [empty] at length
    exact absurd length (by decide)
  have used : (padded 3 ms).take 9 = padded 3 ms := List.take_of_length_le (by omega)
  have value : (padded 3 ms).foldl (fun n c => 10 * n + (c.toNat - 0x30)) 0 = ms :=
    digitsValue_padded 3 ms
  simp [readFraction?, taken, dropped, nonempty, used, value, length]

/-- The numbers of a written time have the width they are written with. -/
theorem clock_bounds {t : Timestamp} (proper : t.Proper) :
    (t.seconds % 86400).toNat / 3600 < 24 ∧ (t.seconds % 86400).toNat / 60 % 60 < 60 ∧
      (t.seconds % 86400).toNat % 60 + t.nanos / second ≤ 60 ∧
        t.nanos % second / 1000000 < 1000 := by
  have nanos_lt := proper.nanos_lt
  have leap := proper.leap
  simp only [second] at *
  refine ⟨by omega, by omega, ?_, by omega⟩
  by_cases late : 1000000000 ≤ t.nanos
  · have := leap late
    omega
  · omega

theorem date_bounds (t : Timestamp) : t.date.month ≤ 12 ∧ t.date.day ≤ 31 := by
  have valid : t.date.isValid = true := Date.isValid_ofDays _
  have parts : ((1 ≤ t.date.month ∧ t.date.month ≤ 12) ∧ 1 ≤ t.date.day) ∧
      t.date.day ≤ Date.daysInMonth t.date.year t.date.month := by
    simpa [Date.isValid] using valid
  have most : Date.daysInMonth t.date.year t.date.month ≤ 31 := by
    simp only [Date.daysInMonth]
    repeat' split
    all_goals omega
  exact ⟨parts.1.1.2, Nat.le_trans parts.2 most⟩

/-- The seconds of a timestamp from the numbers that are written; a leap second counts as the second before it. -/
theorem seconds_eq {t : Timestamp} (proper : t.Proper) :
    t.seconds / 86400 * 86400 + (((t.seconds % 86400).toNat / 3600 * 3600 +
      (t.seconds % 86400).toNat / 60 % 60 * 60 +
        min ((t.seconds % 86400).toNat % 60 + t.nanos / second) 59 : Nat) : Int) - 0 = t.seconds := by
  have nanos_lt := proper.nanos_lt
  have leap := proper.leap
  simp only [second] at *
  have last : min ((t.seconds % 86400).toNat % 60 + t.nanos / 1000000000) 59 =
      (t.seconds % 86400).toNat % 60 := by
    by_cases late : 1000000000 ≤ t.nanos
    · have := leap late
      omega
    · omega
  rw [last]
  omega

/-- The milliseconds of a timestamp from the numbers that are written. -/
theorem nanos_eq {t : Timestamp} (proper : t.Proper) :
    (if ((t.seconds % 86400).toNat % 60 + t.nanos / second == 60) = true then
      t.nanos % second / 1000000 * 1000000 + second
    else t.nanos % second / 1000000 * 1000000) = t.nanos / 1000000 * 1000000 := by
  have nanos_lt := proper.nanos_lt
  have leap := proper.leap
  simp only [second, beq_iff_eq] at *
  by_cases late : 1000000000 ≤ t.nanos
  · have := leap late
    rw [if_pos (by omega)]
    omega
  · rw [if_neg (by omega)]
    omega

/-- What lies below a millisecond is not written. -/
theorem toText_truncate (t : Timestamp) : t.truncate.toText = t.toText := by
  have seconds : t.nanos / 1000000 * 1000000 / second = t.nanos / second := by
    simp only [second]
    omega
  have milliseconds :
      t.nanos / 1000000 * 1000000 % second / 1000000 = t.nanos % second / 1000000 := by
    simp only [second]
    omega
  simp only [toText, write, date, truncate, seconds, milliseconds]

/-- A step of the reading that gives a number or a rest goes on with it. -/
theorem bind_read {α β : Type} {x : Option α} {a : α} {next : α → Option β} (read : x = some a) :
    (x >>= next) = next a := by
  rw [read]
  rfl

/-- What is written for a timestamp is read as its milliseconds. -/
theorem ofText?_toText {t : Timestamp} (proper : t.Proper) (fourDigits : t.HasFourDigitYear) :
    ofText? t.toText = some t.truncate := by
  have valid : t.date.isValid = true := Date.isValid_ofDays _
  have day : t.date.toDays = t.seconds / 86400 := Date.toDays_ofDays _
  obtain ⟨year_nonneg, year_le⟩ := fourDigits
  obtain ⟨month_le, day_le⟩ := date_bounds t
  obtain ⟨hour_lt, minute_lt, second_le, ms_lt⟩ := clock_bounds proper
  have readYear := fun rest => readDigits?_padded (by decide : 0 < 4)
    (show t.date.year.toNat < 10 ^ 4 by omega) rest
  have readMonth := fun rest => readDigits?_padded (by decide : 0 < 2)
    (show t.date.month < 10 ^ 2 by omega) rest
  have readDay := fun rest => readDigits?_padded (by decide : 0 < 2)
    (show t.date.day < 10 ^ 2 by omega) rest
  have readHour := fun rest => readDigits?_padded (by decide : 0 < 2)
    (show (t.seconds % 86400).toNat / 3600 < 10 ^ 2 by omega) rest
  have readMinute := fun rest => readDigits?_padded (by decide : 0 < 2)
    (show (t.seconds % 86400).toNat / 60 % 60 < 10 ^ 2 by omega) rest
  have readSecond := fun rest => readDigits?_padded (by decide : 0 < 2)
    (show (t.seconds % 86400).toNat % 60 + t.nanos / second < 10 ^ 2 by omega) rest
  have sameDate : (⟨(t.date.year.toNat : Int), t.date.month, t.date.day⟩ : Date) = t.date := by
    rw [Int.toNat_of_nonneg year_nonneg]
  rw [toText, ofText?, String.toList_ofList, write_eq ⟨year_nonneg, year_le⟩]
  -- each number and each separator is read from the front of what is left
  refine (bind_read (readYear _)).trans ?_
  refine (bind_read rfl).trans ?_
  refine (bind_read (readMonth _)).trans ?_
  refine (bind_read rfl).trans ?_
  refine (bind_read (readDay _)).trans ?_
  refine (bind_read rfl).trans ?_
  refine (bind_read (readHour _)).trans ?_
  refine (bind_read rfl).trans ?_
  refine (bind_read (readMinute _)).trans ?_
  refine (bind_read rfl).trans ?_
  refine (bind_read (readSecond _)).trans ?_
  refine (bind_read (readFraction?_padded ms_lt)).trans ?_
  refine (bind_read rfl).trans ?_
  rw [sameDate]
  dsimp only
  rw [valid, day, seconds_eq proper, nanos_eq proper]
  simp [hour_lt, minute_lt, second_le, truncate]

end SchemaRpc.Timestamp
