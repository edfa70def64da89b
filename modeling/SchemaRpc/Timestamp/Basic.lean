import SchemaRpc.Timestamp.Calendar

/-!
# Timestamps

A point in time in UTC. Reading takes a date, a time and an offset; writing gives UTC with milliseconds and `Z`.
A leap second is the second 59 with a thousand million nanoseconds or more.
-/

namespace SchemaRpc

/-- Seconds since 1970-01-01T00:00:00Z and nanoseconds within the second, from `10 ^ 9` on in a leap second. -/
structure Timestamp where
  seconds : Int
  nanos : Nat
  deriving DecidableEq, Inhabited

namespace Timestamp

def second : Nat :=
  1000000000

/-- The timestamp without what lies below a millisecond. -/
def truncate (t : Timestamp) : Timestamp :=
  ⟨t.seconds, t.nanos / 1000000 * 1000000⟩

def date (t : Timestamp) : Date :=
  Date.ofDays (t.seconds / 86400)

def padded (width n : Nat) : List Char :=
  let digits := (toString n).toList
  List.replicate (width - digits.length) '0' ++ digits

/-- Four digits for the years 0 to 9999, a sign and at least four digits for the others. -/
def writeYear (year : Int) : List Char :=
  if 0 ≤ year && year ≤ 9999 then padded 4 year.toNat
  else (if year < 0 then '-' else '+') :: padded 4 year.natAbs

def write (t : Timestamp) : List Char :=
  let d := t.date
  let clock := (t.seconds % 86400).toNat
  let leap := t.nanos / second
  writeYear d.year ++ '-' :: padded 2 d.month ++ '-' :: padded 2 d.day ++
    'T' :: padded 2 (clock / 3600) ++ ':' :: padded 2 (clock / 60 % 60) ++ ':' :: padded 2 (clock % 60 + leap) ++
    '.' :: padded 3 (t.nanos % second / 1000000) ++ ['Z']

def toText (t : Timestamp) : String :=
  String.ofList t.write

/-- A number of exactly `count` ASCII digits at the start of a text. -/
def readDigits? : Nat → Nat → List Char → Option (Nat × List Char)
  | 0, n, s => some (n, s)
  | count + 1, n, c :: rest => if c.isDigit then readDigits? count (10 * n + (c.toNat - 0x30)) rest else none
  | _ + 1, _, [] => none

def expect? (accepts : Char → Bool) : List Char → Option (List Char)
  | c :: rest => if accepts c then some rest else none
  | [] => none

/-- An optional fraction of a second in nanoseconds; digits after the ninth are dropped. -/
def readFraction? : List Char → Option (Nat × List Char)
  | '.' :: rest =>
    let digits := rest.takeWhile Char.isDigit
    if digits.isEmpty then none
    else
      let used := digits.take 9
      let value := used.foldl (fun n c => 10 * n + (c.toNat - 0x30)) 0
      some (value * 10 ^ (9 - used.length), rest.dropWhile Char.isDigit)
  | rest => some (0, rest)

/-- An offset from UTC in seconds: `Z`, or a sign, hours and minutes, less than a day in all. -/
def readOffset? : List Char → Option (Int × List Char)
  | [] => none
  | c :: rest =>
    if c == 'Z' || c == 'z' then some (0, rest)
    else if c == '+' || c == '-' || c.toNat == 0x2212 then do
      let (hours, rest) ← readDigits? 2 0 rest
      let rest ← expect? (· == ':') rest
      let (minutes, rest) ← readDigits? 2 0 rest
      let total := hours * 3600 + minutes * 60
      if minutes < 60 && total < 86400 then
        return (if c == '+' then (total : Int) else -(total : Int), rest)
      else none
    else none

/-- The timestamp of a text: date, `T` or a space, time, optional fraction, offset, and nothing else. The second
60 is a leap second at any minute. -/
def ofText? (s : String) : Option Timestamp := do
  let (year, rest) ← readDigits? 4 0 s.toList
  let rest ← expect? (· == '-') rest
  let (month, rest) ← readDigits? 2 0 rest
  let rest ← expect? (· == '-') rest
  let (day, rest) ← readDigits? 2 0 rest
  let rest ← expect? (fun c => c == 'T' || c == 't' || c == ' ') rest
  let (hour, rest) ← readDigits? 2 0 rest
  let rest ← expect? (· == ':') rest
  let (minute, rest) ← readDigits? 2 0 rest
  let rest ← expect? (· == ':') rest
  let (sec, rest) ← readDigits? 2 0 rest
  let (nanos, rest) ← readFraction? rest
  let (offset, rest) ← readOffset? rest
  let date : Date := ⟨year, month, day⟩
  if rest.isEmpty && date.isValid && hour < 24 && minute < 60 && sec ≤ 60 then
    let clock : Int := (hour * 3600 + minute * 60 + min sec 59 : Nat)
    some ⟨date.toDays * 86400 + clock - offset, if sec == 60 then nanos + second else nanos⟩
  else none

end Timestamp

end SchemaRpc
