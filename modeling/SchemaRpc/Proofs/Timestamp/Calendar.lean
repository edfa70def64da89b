import SchemaRpc.Timestamp.Calendar

/-!
# Days and dates

Every day has a valid date, and the date gives the day again. Both follow from the place of the day in its era: the
century, the cycle of four years, the year and the day of the year, counted from March.
-/

namespace SchemaRpc.Date

/-- The month, counted from March, that holds a day of the year. -/
def monthOf (dayOfYear : Nat) : Nat :=
  (5 * dayOfYear + 2) / 153

/-- A day of an era: only the last year of a cycle has a day 365, and of the last cycles of the centuries only the
fourth one has it. -/
structure EraDay where
  century : Nat
  cycle : Nat
  year : Nat
  day : Nat
  century_le : century ≤ 3
  cycle_le : cycle ≤ 24
  year_le : year ≤ 3
  day_le : day ≤ 365
  leap : day = 365 → year = 3 ∧ (cycle < 24 ∨ century = 3)

namespace EraDay

/-- The years before the year of this day. -/
def yearOfEra (place : EraDay) : Nat :=
  place.century * 100 + place.cycle * 4 + place.year

/-- The number of the day. -/
def toNat (place : EraDay) : Nat :=
  place.century * 36524 + place.cycle * 1461 + place.year * 365 + place.day

theorem yearOfEra_lt (place : EraDay) : place.yearOfEra < 400 := by
  have := place.century_le
  have := place.cycle_le
  have := place.year_le
  simp only [yearOfEra]
  omega

/-- The number of a day from its year, with the leap days of the years before. -/
theorem toNat_eq (place : EraDay) :
    place.yearOfEra * 365 + place.yearOfEra / 4 - place.yearOfEra / 100 + place.day =
      place.toNat := by
  have := place.century_le
  have := place.cycle_le
  have := place.year_le
  have quarters : place.yearOfEra / 4 = place.century * 25 + place.cycle := by
    simp only [yearOfEra]
    omega
  have centuries : place.yearOfEra / 100 = place.century := by
    simp only [yearOfEra]
    omega
  rw [quarters, centuries]
  simp only [yearOfEra, toNat]
  omega

/-- The place of a day of an era. -/
def ofNat (dayOfEra : Nat) (within : dayOfEra < 146097) : EraDay :=
  let century := min 3 (dayOfEra / 36524)
  let dayOfCentury := dayOfEra - century * 36524
  let cycle := dayOfCentury / 1461
  let dayOfCycle := dayOfCentury - cycle * 1461
  let year := min 3 (dayOfCycle / 365)
  { century, cycle, year
    day := dayOfCycle - year * 365
    century_le := Nat.min_le_left _ _
    cycle_le := by omega
    year_le := Nat.min_le_left _ _
    day_le := by omega
    leap := by
      intro last
      have fullCentury : dayOfCentury = 36524 → century = 3 := by omega
      generalize dayOfEra - century * 36524 = dayOfCentury at *
      omega }

theorem toNat_ofNat (dayOfEra : Nat) (within : dayOfEra < 146097) :
    (ofNat dayOfEra within).toNat = dayOfEra := by
  simp only [toNat, ofNat]
  have before : min 3 (dayOfEra / 36524) * 36524 ≤ dayOfEra := by omega
  generalize min 3 (dayOfEra / 36524) = century at *
  omega

end EraDay

/-- The days of a month other than February are those up to the next month. -/
theorem daysInMonth_eq (year : Int) :
    ∀ k < 11, daysInMonth year (if k < 10 then k + 3 else k - 9) = monthStart (k + 1) - monthStart k
  | 0, _ | 1, _ | 2, _ | 3, _ | 4, _ | 5, _ | 6, _ | 7, _ | 8, _ | 9, _ | 10, _ => rfl
  | _ + 11, tooLarge => by omega

/-- The date of a day of an era. -/
def ofEraDay (era : Int) (place : EraDay) : Date :=
  let k := monthOf place.day
  let year : Int := era * 400 + place.yearOfEra
  { year := if k < 10 then year else year + 1
    month := if k < 10 then k + 3 else k - 9
    day := place.day - monthStart k + 1 }

/-- The day that a date is taken of lies in the month that is found for it. -/
theorem monthStart_monthOf (day : Nat) :
    monthStart (monthOf day) ≤ day ∧ day < monthStart (monthOf day + 1) := by
  simp only [monthStart, monthOf]
  omega

theorem monthOf_le {day : Nat} (within : day ≤ 365) : monthOf day ≤ 11 := by
  simp only [monthOf]
  omega

theorem isLeapYear_after (era : Int) (place : EraDay) (last : place.day = 365) :
    isLeapYear (era * 400 + place.yearOfEra + 1) = true := by
  obtain ⟨lastYear, cycleOrCentury⟩ := place.leap last
  have := place.century_le
  have := place.cycle_le
  have fourth : (era * 400 + (place.yearOfEra : Int) + 1) % 4 = 0 := by
    simp only [EraDay.yearOfEra]
    omega
  have hundredth : (era * 400 + (place.yearOfEra : Int) + 1) % 100 ≠ 0 ∨
      (era * 400 + (place.yearOfEra : Int) + 1) % 400 = 0 := by
    simp only [EraDay.yearOfEra]
    omega
  simpa [isLeapYear, fourth] using hundredth

theorem isValid_ofEraDay (era : Int) (place : EraDay) : (ofEraDay era place).isValid = true := by
  obtain ⟨first, last⟩ := monthStart_monthOf place.day
  have month_le := monthOf_le place.day_le
  have fits : place.day - monthStart (monthOf place.day) + 1 ≤
      daysInMonth (ofEraDay era place).year (ofEraDay era place).month := by
    -- counted from March, only the last month of the year is cut short
    by_cases february : monthOf place.day = 11
    · have inFebruary : (ofEraDay era place).month = 2 := by
        simp [ofEraDay, february]
      have start : monthStart (monthOf place.day) = 337 := by
        rw [february]
        rfl
      rw [inFebruary]
      by_cases leapDay : place.day = 365
      · have leap : isLeapYear (ofEraDay era place).year = true := by
          simpa [ofEraDay, february] using isLeapYear_after era place leapDay
        simp only [daysInMonth, leap, beq_self_eq_true, if_true]
        omega
      · have := place.day_le
        have atLeast : 28 ≤ daysInMonth (ofEraDay era place).year 2 := by
          simp only [daysInMonth, beq_self_eq_true, if_true]
          split <;> omega
        omega
    · have days := daysInMonth_eq (ofEraDay era place).year (monthOf place.day) (by omega)
      rw [show (ofEraDay era place).month =
        if monthOf place.day < 10 then monthOf place.day + 3 else monthOf place.day - 9 from rfl, days]
      omega
  have month_pos : 1 ≤ (ofEraDay era place).month := by
    simp only [ofEraDay]
    split <;> omega
  have month_le : (ofEraDay era place).month ≤ 12 := by
    simp only [ofEraDay]
    split <;> omega
  have day_pos : 1 ≤ (ofEraDay era place).day := by
    simp only [ofEraDay]
    omega
  simp only [isValid, Bool.and_eq_true, decide_eq_true_eq]
  exact ⟨⟨⟨month_pos, month_le⟩, day_pos⟩, fits⟩

theorem toDays_ofEraDay (era : Int) (place : EraDay) :
    (ofEraDay era place).toDays = era * 146097 + place.toNat - epochShift := by
  have yearOfEra_lt := place.yearOfEra_lt
  obtain ⟨first, last⟩ := monthStart_monthOf place.day
  have month_le := monthOf_le place.day_le
  have year : (if (ofEraDay era place).month ≤ 2 then (ofEraDay era place).year - 1
      else (ofEraDay era place).year) = era * 400 + place.yearOfEra := by
    simp only [ofEraDay]
    split <;> split <;> omega
  have month : ((ofEraDay era place).month + 9) % 12 = monthOf place.day := by
    simp only [ofEraDay]
    split <;> omega
  have day : monthStart (monthOf place.day) + ((ofEraDay era place).day - 1) = place.day := by
    simp only [ofEraDay]
    omega
  have eraAgain : (era * 400 + (place.yearOfEra : Int)) / 400 = era := by omega
  have yearAgain : ((era * 400 + (place.yearOfEra : Int)) % 400).toNat = place.yearOfEra := by omega
  simp only [toDays, year, month, day, eraAgain, yearAgain, place.toNat_eq]

/-- The place in its era of the day that many days after 1970-01-01. -/
def eraDayOf (days : Int) : EraDay :=
  .ofNat ((days + epochShift) % 146097).toNat (by omega)

theorem ofDays_eq (days : Int) :
    ofDays days = ofEraDay ((days + epochShift) / 146097) (eraDayOf days) :=
  rfl

theorem isValid_ofDays (days : Int) : (ofDays days).isValid = true := by
  rw [ofDays_eq]
  exact isValid_ofEraDay _ _

theorem toDays_ofDays (days : Int) : (ofDays days).toDays = days := by
  rw [ofDays_eq, toDays_ofEraDay, eraDayOf, EraDay.toNat_ofNat]
  omega

end SchemaRpc.Date
