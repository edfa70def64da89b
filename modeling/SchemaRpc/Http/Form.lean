import SchemaRpc.Json.Parser
import SchemaRpc.Text.Utf8

/-!
# Form-encoded queries

A query string holds pairs between `&`, each a key and a value around its first `=`. A plus is a space, a percent
sign with two hexadecimal digits is a byte, and any other percent sign is itself.
-/

namespace SchemaRpc.Http.Form

def byteOf (c : Char) : UInt8 := UInt8.ofNat c.toNat

def hexByte? (high low : UInt8) : Option UInt8 := do
  let high ← Json.hexValue? (Char.ofNat high.toNat)
  let low ← Json.hexValue? (Char.ofNat low.toNat)
  return UInt8.ofNat (high * 16 + low)

def plain (b : UInt8) : UInt8 :=
  if b == byteOf '+' then byteOf ' ' else b

def unescape : List UInt8 → List UInt8
  | a :: b :: c :: rest =>
    match if a == byteOf '%' then hexByte? b c else none with
    | some byte => byte :: unescape rest
    | none => plain a :: unescape (b :: c :: rest)
  | b :: rest => plain b :: unescape rest
  | [] => []

def splitFrom (separator : UInt8) (current : List UInt8) : List UInt8 → List (List UInt8)
  | [] => [current.reverse]
  | b :: rest =>
    if b == separator then current.reverse :: splitFrom separator [] rest
    else splitFrom separator (b :: current) rest

/-- The pair that a piece holds. Without `=` the value is empty. -/
def pairOf (piece : List UInt8) : String × String :=
  let (key, rest) := piece.span (· != byteOf '=')
  (Text.Utf8.decodeLossy (unescape key), Text.Utf8.decodeLossy (unescape (rest.drop 1)))

/-- The pairs of a query string. Empty pieces hold none. -/
def decode (query : String) : List (String × String) :=
  ((splitFrom (byteOf '&') [] query.toUTF8.toList).filter fun piece => !piece.isEmpty).map pairOf

end SchemaRpc.Http.Form
