import SchemaRpc.Proofs.Timestamp.Text

/-!
# Leap counts that roll over

A timestamp may count a thousand million nanoseconds or more after any second, not only after the last of a minute. Its
text cannot tell: what counts past the end of another second is written as the second after it. `rollOver` is the timestamp
of that text.
-/

namespace SchemaRpc.Timestamp

variable {t : Timestamp}

/-- The same point in time, counted past the end of a second only where a minute ends. -/
def rollOver (t : Timestamp) : Timestamp :=
  if second ≤ t.nanos ∧ t.seconds % 60 ≠ 59 then ⟨t.seconds + 1, t.nanos - second⟩ else t

theorem rollOver_of_late (late : second ≤ t.nanos) (early : t.seconds % 60 ≠ 59) :
    t.rollOver = ⟨t.seconds + 1, t.nanos - second⟩ :=
  if_pos ⟨late, early⟩

theorem rollOver_of_leap (leap : second ≤ t.nanos → t.seconds % 60 = 59) : t.rollOver = t :=
  if_neg fun misplaced => misplaced.2 (leap misplaced.1)

theorem nanos_rollOver_le (t : Timestamp) : t.rollOver.nanos ≤ t.nanos := by
  unfold rollOver
  split
  · exact Nat.sub_le _ _
  · exact Nat.le_refl _

theorem proper_rollOver (kept : t.nanos < 2 * second) : t.rollOver.Proper := by
  by_cases leap : second ≤ t.nanos → t.seconds % 60 = 59
  · rw [rollOver_of_leap leap]
    exact ⟨kept, leap⟩
  · obtain ⟨late, early⟩ := Classical.not_imp.1 leap
    rw [rollOver_of_late late early]
    -- what is left of the nanoseconds is less than a second
    have short : t.nanos - second < second := by
      omega
    exact ⟨by simp only [second] at *; omega, fun late => absurd late (Nat.not_le_of_lt short)⟩

/-- A second that is not the last of its minute is not the last of its day. -/
theorem date_rollOver (t : Timestamp) : t.rollOver.date = t.date := by
  by_cases leap : second ≤ t.nanos → t.seconds % 60 = 59
  · rw [rollOver_of_leap leap]
  · obtain ⟨late, early⟩ := Classical.not_imp.1 leap
    have sameDay : (t.seconds + 1) / 86400 = t.seconds / 86400 := by
      omega
    rw [rollOver_of_late late early, date, sameDay, date]

theorem hasFourDigitYear_rollOver (fourDigits : t.HasFourDigitYear) : t.rollOver.HasFourDigitYear := by
  rw [HasFourDigitYear, date_rollOver]
  exact fourDigits

/-- The two have one text. -/
theorem toText_rollOver (kept : t.nanos < 2 * second) : t.rollOver.toText = t.toText := by
  have sameDate := date_rollOver t
  by_cases leap : second ≤ t.nanos → t.seconds % 60 = 59
  · rw [rollOver_of_leap leap]
  · obtain ⟨late, early⟩ := Classical.not_imp.1 leap
    rw [rollOver_of_late late early] at sameDate ⊢
    have hours : ((t.seconds + 1) % 86400).toNat / 3600 = (t.seconds % 86400).toNat / 3600 := by
      omega
    have minutes : ((t.seconds + 1) % 86400).toNat / 60 % 60 = (t.seconds % 86400).toNat / 60 % 60 := by
      omega
    have seconds : ((t.seconds + 1) % 86400).toNat % 60 + (t.nanos - second) / second =
        (t.seconds % 86400).toNat % 60 + t.nanos / second := by
      simp only [second] at *
      omega
    have milliseconds : (t.nanos - second) % second / 1000000 = t.nanos % second / 1000000 := by
      simp only [second] at *
      omega
    simp only [toText, write, sameDate, hours, minutes, seconds, milliseconds]

end SchemaRpc.Timestamp
