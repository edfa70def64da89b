/-!
# Double-precision numbers

A double is its sixty-four bits. Everything about it is computed on them in exact natural-number arithmetic:
a finite double is `(-1)^sign * significand * 2^exponent`, and `ofRatio` rounds any quotient of natural numbers
to the nearest double, a tie to the even neighbour. Single precision appears only as a rounding step.
-/

namespace SchemaRpc

-- a power of a number is the one of the core library everywhere, also where a library brings its own
attribute [instance (high), default_instance (high + 1)] instPowNat

/-- An IEEE 754 double, by its bits. Equality is equality of bits. -/
structure Binary64 where
  bits : UInt64
  deriving DecidableEq, Inhabited

namespace Binary64

def isNegative (x : Binary64) : Bool :=
  x.bits.toNat ≥ 2 ^ 63

/-- The bits below the sign bit. -/
def magnitude (x : Binary64) : Nat :=
  x.bits.toNat % 2 ^ 63

def exponentField (x : Binary64) : Nat :=
  x.magnitude / 2 ^ 52

def fractionField (x : Binary64) : Nat :=
  x.magnitude % 2 ^ 52

def isFinite (x : Binary64) : Bool :=
  x.exponentField < 2047

def isNaN (x : Binary64) : Bool :=
  x.exponentField == 2047 && x.fractionField != 0

/-- The integer that the exponent scales. -/
def significand (x : Binary64) : Nat :=
  if x.exponentField == 0 then x.fractionField else 2 ^ 52 + x.fractionField

def exponent (x : Binary64) : Int :=
  if x.exponentField == 0 then -1074 else (x.exponentField : Int) - 1075

def ofMagnitude (negative : Bool) (magnitude : Nat) : Binary64 :=
  ⟨UInt64.ofNat ((if negative then 2 ^ 63 else 0) + magnitude)⟩

def infinityMagnitude : Nat :=
  2047 * 2 ^ 52

/-- A quotient scaled by `2 ^ (-e)`, as numerator and denominator. -/
def scaleDown (num den : Nat) (e : Int) : Nat × Nat :=
  if e ≥ 0 then (num, den * 2 ^ e.toNat) else (num * 2 ^ (-e).toNat, den)

/-- The natural number nearest to `num / den`, a tie to the even one. -/
def roundDiv (num den : Nat) : Nat :=
  let floor := num / den
  let rest := num % den
  if 2 * rest > den || (2 * rest == den && floor % 2 == 1) then floor + 1 else floor

/-- The exponent `e` at least `least` for which `num / den` lies between `2^(precision-1) * 2^e` and
`2^precision * 2^e`, or `least` for smaller quotients. -/
def binaryExponent (precision : Nat) (least : Int) (num den : Nat) : Int :=
  let guess : Int := (num.log2 : Int) - (den.log2 : Int) - (precision : Int)
  let scaled := scaleDown num den guess
  let e := if scaled.1 < 2 ^ precision * scaled.2 then guess else guess + 1
  max least e

/-- Bits below the sign of the double nearest to `num / den`; infinity when the quotient is too large. -/
def roundedMagnitude (num den : Nat) : Nat :=
  if num == 0 then 0
  else
    let e := binaryExponent 53 (-1074) num den
    let scaled := scaleDown num den e
    min infinityMagnitude ((e + 1074).toNat * 2 ^ 52 + roundDiv scaled.1 scaled.2)

def ofRatio (negative : Bool) (num den : Nat) : Binary64 :=
  ofMagnitude negative (roundedMagnitude num den)

def ofNat (n : Nat) : Binary64 :=
  ofRatio false n 1

def ofInt (n : Int) : Binary64 :=
  ofRatio (n < 0) n.natAbs 1

/-- The absolute value of a finite double as numerator and denominator. -/
def ratio (x : Binary64) : Nat × Nat :=
  if x.exponent ≥ 0 then (x.significand * 2 ^ x.exponent.toNat, 1)
  else (x.significand, 2 ^ (-x.exponent).toNat)

/-- The product of the absolute values of finite doubles, rounded. -/
def absMul (x y : Binary64) : Binary64 :=
  ofRatio false (x.ratio.1 * y.ratio.1) (x.ratio.2 * y.ratio.2)

def absDiv (x y : Binary64) : Binary64 :=
  ofRatio false (x.ratio.1 * y.ratio.2) (x.ratio.2 * y.ratio.1)

/-- The nearest single-precision number, as a double. A quotient beyond single range becomes infinite; a NaN
keeps the fraction bits that single precision has room for and becomes quiet. -/
def roundToSingle (x : Binary64) : Binary64 :=
  if x.isNaN then
    ofMagnitude x.isNegative (infinityMagnitude + (x.fractionField / 2 ^ 29 * 2 ^ 29) % 2 ^ 51 + 2 ^ 51)
  else if x.magnitude == 0 || !x.isFinite then x
  else
    let (num, den) := x.ratio
    let e := binaryExponent 24 (-149) num den
    let scaled := scaleDown num den e
    let rounded := roundDiv scaled.1 scaled.2
    if rounded * 2 ^ (e + 149).toNat ≥ 2 ^ 277 then ofMagnitude x.isNegative infinityMagnitude
    else
      ofRatio x.isNegative (if e ≥ 0 then rounded * 2 ^ e.toNat else rounded) (if e ≥ 0 then 1 else 2 ^ (-e).toNat)

end Binary64

end SchemaRpc
