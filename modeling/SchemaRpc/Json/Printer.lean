import SchemaRpc.Decimal.Shortest
import SchemaRpc.Json.Basic
import SchemaRpc.Text.Quoted

/-!
# Writing JSON

`Json.compress` writes a value without spaces; `Json.pretty` writes it over lines with two spaces per level.
Only quotes, backslashes and control characters below U+0020 are escaped, so no written string holds a line
break. A double is written with its shortest digits, positionally when its decimal point falls near them.
-/

namespace SchemaRpc

/-- How the digits of a number are laid out: positional when the point stands from `leastPoint` to `mostPoint`
digits to the right of the first digit's left side, scientific otherwise. -/
structure NumberLayout where
  leastPoint : Int
  mostPoint : Int
  exponentMark : Char
  plusSign : Bool
  deriving DecidableEq

namespace NumberLayout

/-- JSON numbers: positional for absolute values from `1e-5` up to but excluding `1e16`, and always with a
fraction there; the exponent of the others has a sign. -/
def json : NumberLayout := ⟨-4, 16, 'e', true⟩

/-- Digits with the decimal point after the first `point` of them, padded by zeros. -/
def positional (digits : List Char) (point : Int) : List Char :=
  let count : Int := digits.length
  if point ≤ 0 then '0' :: '.' :: List.replicate (-point).toNat '0' ++ digits
  else if point ≥ count then digits ++ List.replicate (point - count).toNat '0' ++ ['.', '0']
  else digits.take point.toNat ++ '.' :: digits.drop point.toNat

def scientific (layout : NumberLayout) (digits : List Char) (point : Int) : List Char :=
  let e := point - 1
  let mantissa :=
    match digits with
    | [] => []
    | [d] => [d]
    | d :: rest => d :: '.' :: rest
  let sign := if e < 0 then ['-'] else if layout.plusSign then ['+'] else []
  mantissa ++ layout.exponentMark :: sign ++ (toString e.natAbs).toList

def write (layout : NumberLayout) (d : Decimal) : List Char :=
  let digits := (toString d.digits).toList
  let point : Int := if d.digits == 0 then 1 else digits.length + d.exponent
  if layout.leastPoint ≤ point && point ≤ layout.mostPoint then positional digits point
  else layout.scientific digits point

end NumberLayout

namespace Binary64

def jsonText (x : Binary64) : List Char :=
  let digits := NumberLayout.json.write x.shortest
  if x.isNegative then '-' :: digits else digits

def nonFiniteText (x : Binary64) : String :=
  if x.isNaN then "NaN" else if x.isNegative then "-inf" else "inf"

end Binary64

namespace Json

def escapeChar (c : Char) : List Char :=
  if c == '"' then ['\\', '"']
  else if c == '\\' then ['\\', '\\']
  else if c == '\n' then ['\\', 'n']
  else if c == '\r' then ['\\', 'r']
  else if c == '\t' then ['\\', 't']
  else if c.toNat == 8 then ['\\', 'b']
  else if c.toNat == 12 then ['\\', 'f']
  else if c.toNat < 32 then
    ['\\', 'u', '0', '0', Text.hexDigit (c.toNat / 16), Text.hexDigit (c.toNat % 16)]
  else [c]

def writeString (s : String) : List Char :=
  '"' :: s.toList.flatMap escapeChar ++ ['"']

/-- A number; an integer has no fraction and a double has a fraction or an exponent. -/
def writeNumber : Number → List Char
  | .int n => (toString n).toList
  | .float x => x.jsonText

mutual

def write : Json → List Char
  | null => "null".toList
  | bool b => (if b then "true" else "false").toList
  | num n => writeNumber n
  | str s => writeString s
  | arr items => '[' :: writeItems items ++ [']']
  | obj members => '\x7b' :: writeMembers members ++ ['\x7d']

def writeItems : List Json → List Char
  | [] => []
  | [item] => item.write
  | item :: rest => item.write ++ ',' :: writeItems rest

def writeMembers : List (String × Json) → List Char
  | [] => []
  | [(key, value)] => writeString key ++ ':' :: value.write
  | (key, value) :: rest => writeString key ++ ':' :: value.write ++ ',' :: writeMembers rest

end

def compress (j : Json) : String :=
  String.ofList j.write

def newline (level : Nat) : List Char :=
  '\n' :: List.replicate (2 * level) ' '

mutual

/-- A value over lines, its closing bracket at the given level. -/
def layOut (level : Nat) : Json → List Char
  | arr [] => ['[', ']']
  | arr items => '[' :: layOutItems (level + 1) items ++ newline level ++ [']']
  | obj [] => ['\x7b', '\x7d']
  | obj members => '\x7b' :: layOutMembers (level + 1) members ++ newline level ++ ['\x7d']
  | null => "null".toList
  | bool b => (if b then "true" else "false").toList
  | num n => writeNumber n
  | str s => writeString s

def layOutItems (level : Nat) : List Json → List Char
  | [] => []
  | [item] => newline level ++ item.layOut level
  | item :: rest => newline level ++ item.layOut level ++ ',' :: layOutItems level rest

def layOutMembers (level : Nat) : List (String × Json) → List Char
  | [] => []
  | [(key, value)] => newline level ++ writeString key ++ ':' :: ' ' :: value.layOut level
  | (key, value) :: rest =>
    newline level ++ writeString key ++ ':' :: ' ' :: value.layOut level ++ ',' :: layOutMembers level rest

end

def pretty (j : Json) : String :=
  String.ofList (j.layOut 0)

end Json

end SchemaRpc
