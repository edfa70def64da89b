/-!
# Calendar dates

Days of the proleptic Gregorian calendar, counted from 1970-01-01. Years are taken from March to February, so
that the leap day ends a year; four hundred such years are one era of 146097 days.
-/

namespace SchemaRpc

structure Date where
  year : Int
  month : Nat
  day : Nat
  deriving DecidableEq, Inhabited

namespace Date

def isLeapYear (year : Int) : Bool :=
  year % 4 == 0 && (year % 100 != 0 || year % 400 == 0)

def daysInMonth (year : Int) (month : Nat) : Nat :=
  if month == 2 then (if isLeapYear year then 29 else 28)
  else if month == 4 || month == 6 || month == 9 || month == 11 then 30
  else 31

def isValid (d : Date) : Bool :=
  1 ≤ d.month && d.month ≤ 12 && 1 ≤ d.day && d.day ≤ daysInMonth d.year d.month

/-- Days from 0000-03-01 to 1970-01-01. -/
def epochShift : Int :=
  719468

/-- Days from the first of March to the first of the month that stands `k` months after March. -/
def monthStart (k : Nat) : Nat :=
  (153 * k + 2) / 5

def toDays (d : Date) : Int :=
  let year := if d.month ≤ 2 then d.year - 1 else d.year
  let era := year / 400
  let yearOfEra := (year % 400).toNat
  let dayOfYear := monthStart ((d.month + 9) % 12) + (d.day - 1)
  era * 146097 + ((yearOfEra * 365 + yearOfEra / 4 - yearOfEra / 100 + dayOfYear : Nat) : Int) - epochShift

def ofDays (days : Int) : Date :=
  let shifted := days + epochShift
  let era := shifted / 146097
  let dayOfEra := (shifted % 146097).toNat
  let century := min 3 (dayOfEra / 36524)
  let dayOfCentury := dayOfEra - century * 36524
  let cycle := dayOfCentury / 1461
  let dayOfCycle := dayOfCentury - cycle * 1461
  let yearOfCycle := min 3 (dayOfCycle / 365)
  let dayOfYear := dayOfCycle - yearOfCycle * 365
  let k := (5 * dayOfYear + 2) / 153
  let year : Int := era * 400 + ((century * 100 + cycle * 4 + yearOfCycle : Nat) : Int)
  { year := if k < 10 then year else year + 1
    month := if k < 10 then k + 3 else k - 9
    day := dayOfYear - monthStart k + 1 }

end Date

end SchemaRpc
