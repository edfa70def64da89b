import SchemaRpc.Decimal.Shortest

/-!
# Reading decimal numbers

Texts of integers and of decimals with an optional exponent, and the double nearest to a decimal.
-/

namespace SchemaRpc

namespace Decimal

/-- The value of a string of digits, most significant first. -/
def digitsValue (cs : List Char) : Nat :=
  cs.foldl (fun n c => 10 * n + (c.toNat - 0x30)) 0

/-- An optional sign, then one or more ASCII digits. -/
def readInt? (s : String) : Option Int :=
  let (negative, body) : Bool × List Char :=
    match s.toList with
    | '-' :: rest => (true, rest)
    | '+' :: rest => (false, rest)
    | rest => (false, rest)
  if body.isEmpty || !body.all Char.isDigit then none
  else
    let n : Int := digitsValue body
    some (if negative then -n else n)

/-- An integer of at most 128 bits in two's complement. -/
def readInt128? (s : String) : Option Int :=
  (readInt? s).filter fun n => -(2 ^ 127 : Int) ≤ n && n < 2 ^ 127

def readNat128? (s : String) : Option Nat :=
  match s.toList with
  | '-' :: _ => none
  | _ => ((readInt? s).filter fun n => n < 2 ^ 128).map Int.toNat

/-- The double nearest to a decimal. Exponents far beyond the range of doubles are settled without
computing the power. -/
def toBinary64 (negative : Bool) (d : Decimal) : Binary64 :=
  let size : Int := (toString d.digits).length
  if d.digits == 0 then Binary64.ofMagnitude negative 0
  else if d.exponent + size > 400 then Binary64.ofMagnitude negative Binary64.infinityMagnitude
  else if d.exponent + size < -400 then Binary64.ofMagnitude negative 0
  else
    let (num, den) := d.ratio
    Binary64.ofRatio negative num den

/-- The text of a decimal: an optional sign, digits with an optional point among or beside them (at least one
digit in all), and an optional exponent. -/
def readDecimal? (s : String) : Option (Bool × Decimal) :=
  let (negative, body) : Bool × List Char :=
    match s.toList with
    | '-' :: rest => (true, rest)
    | '+' :: rest => (false, rest)
    | rest => (false, rest)
  let whole := body.takeWhile Char.isDigit
  let afterWhole := body.dropWhile Char.isDigit
  let (fraction, tail) : List Char × List Char :=
    match afterWhole with
    | '.' :: rest => (rest.takeWhile Char.isDigit, rest.dropWhile Char.isDigit)
    | rest => ([], rest)
  let value (e : Int) : Bool × Decimal :=
    (negative, ⟨digitsValue (whole ++ fraction), e - fraction.length⟩)
  if whole.isEmpty && fraction.isEmpty then none
  else
    match tail with
    | [] => some (value 0)
    | c :: rest =>
      if c == 'e' || c == 'E' then (readInt? (String.ofList rest)).map value else none

def readFinite? (s : String) : Option Binary64 :=
  match readDecimal? s with
  | none => none
  | some (negative, d) =>
    let x := d.toBinary64 negative
    if x.isFinite then some x else none

end Decimal

end SchemaRpc
