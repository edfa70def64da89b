import SchemaRpc.Binary64

/-!
# Shortest decimal digits

`Binary64.shortest` finds the decimal with the fewest digits that reads back as a given double, and of those the
nearest one. Every decimal grid `10^k` is tried from coarse to fine; the two grid points next to the value are
compared with the interval of reals that round to it.
-/

namespace SchemaRpc

/-- The number `digits * 10 ^ exponent`. -/
structure Decimal where
  digits : Nat
  exponent : Int
  deriving DecidableEq, Inhabited

namespace Decimal

def ratio (d : Decimal) : Nat × Nat :=
  if d.exponent ≥ 0 then (d.digits * 10 ^ d.exponent.toNat, 1) else (d.digits, 10 ^ (-d.exponent).toNat)

/-- Drops trailing zeros of the digits, at most `fuel` of them. -/
def trimZeros : Nat → Decimal → Decimal
  | 0, d => d
  | fuel + 1, d =>
    if d.digits != 0 && d.digits % 10 == 0 then trimZeros fuel ⟨d.digits / 10, d.exponent + 1⟩ else d

end Decimal

namespace Binary64

/-- The interval of reals that round to a finite double. The ends, over one denominator, belong to it when the
significand is even. -/
structure Interval where
  low : Nat
  value : Nat
  high : Nat
  den : Nat
  closed : Bool

/-- The rounding interval of a finite nonzero double. Below a power of two the spacing is half as wide. -/
def interval (x : Binary64) : Interval :=
  let m := x.significand
  let below := if x.fractionField == 0 && x.exponentField > 1 then 1 else 2
  let up := if x.exponent ≥ 0 then 2 ^ x.exponent.toNat else 1
  let den := if x.exponent ≥ 0 then 1 else 2 ^ (-x.exponent).toNat
  { low := (4 * m - below) * up
    value := 4 * m * up
    high := (4 * m + 2) * up
    den := 4 * den
    closed := m % 2 == 0 }

namespace Interval

def contains (i : Interval) (num den : Nat) : Bool :=
  let n := num * i.den
  let low := i.low * den
  let high := i.high * den
  if i.closed then low ≤ n && n ≤ high else low < n && n < high

/-- The points of the grid `10 ^ k` next to the value that lie in the interval; the nearer one, if any, and the
even one of a tie. -/
def gridPoint? (i : Interval) (k : Int) : Option Decimal :=
  let scaleNum := if k ≥ 0 then 1 else 10 ^ (-k).toNat
  let scaleDen := if k ≥ 0 then 10 ^ k.toNat else 1
  let num := i.value * scaleNum
  let den := i.den * scaleDen
  let below := num / den
  let rest := num % den
  let inside (d : Nat) : Bool := i.contains (d * scaleDen) scaleNum
  match inside below && below != 0, inside (below + 1) with
  | true, true =>
    some ⟨if 2 * rest < den || (2 * rest == den && below % 2 == 0) then below else below + 1, k⟩
  | true, false => some ⟨below, k⟩
  | false, true => some ⟨below + 1, k⟩
  | false, false => none

/-- The coarsest grid from `10 ^ k` downwards that has a point in the interval. -/
def search (i : Interval) : Nat → Int → Option Decimal
  | 0, _ => none
  | fuel + 1, k =>
    match i.gridPoint? k with
    | some d => some d
    | none => search i fuel (k - 1)

end Interval

/-- An exponent `k` with `10 ^ k` above the value, and not far above it. -/
def decimalCeiling (x : Binary64) : Int :=
  let binary : Int := (x.significand.log2 : Int) + 1 + x.exponent
  if binary ≥ 0 then binary * 30103 / 100000 + 1 else -(-binary * 30102 / 100000) + 1

/-- The shortest decimal that reads back as the absolute value of a finite double, without trailing zeros. -/
def shortest (x : Binary64) : Decimal :=
  if x.significand == 0 then ⟨0, 0⟩
  else (((x.interval).search 25 x.decimalCeiling).getD ⟨0, 0⟩).trimZeros 20

end Binary64

end SchemaRpc
