/-!
# Lossy UTF-8

Reading bytes as UTF-8 where every longest piece that cannot be continued to a character counts as one U+FFFD.
-/

namespace SchemaRpc.Text.Utf8

def replacement : Char := '\uFFFD'

/-- A character of which some bytes are read: its code so far, the range of the next byte, and how many bytes are
still to come. -/
structure Pending where
  code : Nat
  low : UInt8 := 0x80
  high : UInt8 := 0xBF
  left : Nat
  deriving DecidableEq

def lead (b : UInt8) : List Char × Option Pending :=
  if b < 0x80 then ([Char.ofNat b.toNat], none)
  else if b < 0xC2 then ([replacement], none)
  else if b < 0xE0 then ([], some { code := b.toNat - 0xC0, left := 1 })
  else if b == 0xE0 then ([], some { code := 0, low := 0xA0, left := 2 })
  else if b == 0xED then ([], some { code := 0xD, high := 0x9F, left := 2 })
  else if b < 0xF0 then ([], some { code := b.toNat - 0xE0, left := 2 })
  else if b == 0xF0 then ([], some { code := 0, low := 0x90, left := 3 })
  else if b < 0xF4 then ([], some { code := b.toNat - 0xF0, left := 3 })
  else if b == 0xF4 then ([], some { code := 4, high := 0x8F, left := 3 })
  else ([replacement], none)

/-- One more byte: the characters that it completes and what is pending after it. -/
def feed (pending : Option Pending) (b : UInt8) : List Char × Option Pending :=
  match pending with
  | none => lead b
  | some p =>
    if p.low ≤ b && b ≤ p.high then
      let code := p.code * 64 + (b.toNat - 0x80)
      if p.left ≤ 1 then ([Char.ofNat code], none) else ([], some { code, left := p.left - 1 })
    else
      let (chars, next) := lead b
      (replacement :: chars, next)

def decodeFrom (pending : Option Pending) : List UInt8 → List Char
  | [] => if pending.isSome then [replacement] else []
  | b :: rest =>
    let (chars, next) := feed pending b
    chars ++ decodeFrom next rest

def decodeLossy (bytes : List UInt8) : String :=
  String.ofList (decodeFrom none bytes)

end SchemaRpc.Text.Utf8
