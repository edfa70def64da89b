import SchemaRpc.Decimal.Reading
import SchemaRpc.Json.Basic

/-!
# Reading JSON numbers

A literal without fraction and exponent that fits sixty-four bits is an integer. Every other literal is a
double: its first digits that fit sixty-four bits, rounded once, then scaled by one power of ten per step of at
most 308. A double that would be infinite is refused; one that is too small is zero.
-/

namespace SchemaRpc.Json

def maxCoefficient : Nat :=
  2 ^ 64 - 1

/-- Collects digits while the coefficient fits. Gives the coefficient, how many digits went into it, and the
remaining text. -/
def collectDigits (coefficient taken : Nat) : List Char → Nat × Nat × List Char
  | [] => (coefficient, taken, [])
  | c :: rest =>
    let next := 10 * coefficient + (c.toNat - 0x30)
    if c.isDigit && next ≤ maxCoefficient then collectDigits next (taken + 1) rest
    else (coefficient, taken, c :: rest)

def powerOfTen (k : Nat) : Binary64 :=
  Binary64.ofNat (10 ^ k)

/-- A nonnegative double divided by `10 ^ k`, in steps of at most `10 ^ 308`. -/
def scaleDown (x : Binary64) (k : Nat) : Binary64 :=
  if k ≤ 308 then x.absDiv (powerOfTen k)
  else if x.magnitude == 0 then x
  else scaleDown (x.absDiv (powerOfTen 308)) (k - 308)
termination_by k

/-- A coefficient times a power of ten; nothing when the result is infinite. -/
def scaled? (negative : Bool) (coefficient : Nat) (exponent : Int) : Option Number :=
  let x := Binary64.ofNat coefficient
  let signed (y : Binary64) : Number := .float (Binary64.ofMagnitude negative y.magnitude)
  if exponent < 0 then some (signed (scaleDown x (-exponent).toNat))
  else if coefficient == 0 then some (signed x)
  else if exponent > 308 then none
  else
    let y := x.absMul (powerOfTen exponent.toNat)
    if y.isFinite then some (signed y) else none

/-- The exponents that are computed with; a larger one only says whether the number is zero. -/
def maxExponent : Nat :=
  2 ^ 31 - 1

def readExponent? (negative : Bool) (coefficient : Nat) (shift : Int) (s : List Char) :
    Option (Number × List Char) :=
  let (down, body) : Bool × List Char :=
    match s with
    | '-' :: rest => (true, rest)
    | '+' :: rest => (false, rest)
    | rest => (false, rest)
  let digits := body.takeWhile Char.isDigit
  let rest := body.dropWhile Char.isDigit
  let e := Decimal.digitsValue digits
  if digits.isEmpty then none
  else if e > maxExponent then
    if coefficient != 0 && !down then none
    else some (.float (Binary64.ofMagnitude negative 0), rest)
  else (scaled? negative coefficient (if down then shift - e else shift + e)).map (·, rest)

def readTail? (negative : Bool) (coefficient dropped : Nat) (s : List Char) : Option (Number × List Char) :=
  match s with
  | '.' :: afterPoint =>
    if (afterPoint.head?.any Char.isDigit) then
      let (coefficient, taken, rest) := collectDigits coefficient 0 afterPoint
      let shift : Int := dropped - taken
      match rest.dropWhile Char.isDigit with
      | c :: tail =>
        if c == 'e' || c == 'E' then readExponent? negative coefficient shift tail
        else (scaled? negative coefficient shift).map (·, c :: tail)
      | [] => (scaled? negative coefficient shift).map (·, [])
    else none
  | c :: tail =>
    if c == 'e' || c == 'E' then readExponent? negative coefficient dropped tail
    else (scaled? negative coefficient dropped).map (·, s)
  | [] => (scaled? negative coefficient dropped).map (·, [])

def hasTail : List Char → Bool
  | c :: _ => c == '.' || c == 'e' || c == 'E'
  | [] => false

def readNumber? (s : List Char) : Option (Number × List Char) :=
  let (negative, body) : Bool × List Char :=
    match s with
    | '-' :: rest => (true, rest)
    | rest => (false, rest)
  match body with
  | [] => none
  | first :: afterFirst =>
    if !first.isDigit then none
    else if first == '0' && afterFirst.head?.any Char.isDigit then none
    else
      let (coefficient, _, rest) :=
        if first == '0' then (0, 1, afterFirst) else collectDigits 0 0 body
      let dropped := (rest.takeWhile Char.isDigit).length
      let tail := rest.dropWhile Char.isDigit
      if dropped == 0 && !hasTail tail then
        if !negative then some (.int coefficient, tail)
        else if coefficient == 0 || coefficient > 2 ^ 63 then
          some (.float (Binary64.ofRatio true coefficient 1), tail)
        else some (.int (-coefficient), tail)
      else readTail? negative coefficient dropped tail

end SchemaRpc.Json
