import SchemaRpc.Decimal.Reading
import SchemaRpc.Json.Parser
import SchemaRpc.Toml.Basic

/-!
# TOML strings, numbers, dates and times

Readers of the values without parts. Each takes a text and gives a value and the text after it.
-/

namespace SchemaRpc.Toml

/-- A reader of some part of a text, with the text after it. -/
abbrev Reader (α : Type) := List Char → Option (α × List Char)

def isBlank (c : Char) : Bool :=
  c == ' ' || c == '\t'

def skipBlank (s : List Char) : List Char :=
  s.dropWhile isBlank

def newline? : List Char → Option (List Char)
  | '\n' :: rest => some rest
  | '\r' :: '\n' :: rest => some rest
  | _ => none

def isPlain (c : Char) : Bool :=
  c == '\t' || (c.toNat ≥ 0x20 && c.toNat != 0x7f)

def skipComment : List Char → List Char
  | '#' :: rest => rest.dropWhile isPlain
  | s => s

/-- The text after white space and an optional comment, which have to end the line. -/
def lineEnd? (s : List Char) : Option (List Char) :=
  match skipComment (skipBlank s) with
  | [] => some []
  | rest => newline? rest

def skipTrivia : Nat → List Char → List Char
  | 0, s => s
  | fuel + 1, s =>
    let rest := skipComment (skipBlank s)
    match newline? rest with
    | some rest => skipTrivia fuel rest
    | none => rest

def scalar? (n : Nat) : Option Char :=
  if n < 0x110000 && !(0xd800 ≤ n && n < 0xe000) then some (Char.ofNat n) else none

def readCodePoint? : Nat → Nat → Reader Char
  | 0, n, s => (scalar? n).map (·, s)
  | count + 1, n, c :: rest => (Json.hexValue? c).bind fun digit => readCodePoint? count (16 * n + digit) rest
  | _ + 1, _, [] => none

def readEscape? : Reader Char
  | 'b' :: rest => some (Char.ofNat 8, rest)
  | 't' :: rest => some ('\t', rest)
  | 'n' :: rest => some ('\n', rest)
  | 'f' :: rest => some (Char.ofNat 12, rest)
  | 'r' :: rest => some ('\r', rest)
  | '"' :: rest => some ('"', rest)
  | '\\' :: rest => some ('\\', rest)
  | 'u' :: rest => readCodePoint? 4 0 rest
  | 'U' :: rest => readCodePoint? 8 0 rest
  | _ => none

/-- The rest of a string after its opening quote; `done` holds the characters so far in reverse. -/
def readBasic? : Nat → List Char → Reader String
  | 0, _, _ => none
  | fuel + 1, done, s =>
    match s with
    | '"' :: rest => some (String.ofList done.reverse, rest)
    | '\\' :: rest => (readEscape? rest).bind fun (c, rest) => readBasic? fuel (c :: done) rest
    | c :: rest => if isPlain c then readBasic? fuel (c :: done) rest else none
    | [] => none

def readLiteral? (done : List Char) : Reader String
  | '\'' :: rest => some (String.ofList done.reverse, rest)
  | c :: rest => if isPlain c then readLiteral? (c :: done) rest else none
  | [] => none

/-- The text after a backslash that ends a line, and after the blank lines that follow. -/
def skipLineJoint? (fuel : Nat) (s : List Char) : Option (List Char) :=
  (newline? (skipBlank s)).map fun rest => skipBlankLines fuel rest
where
  skipBlankLines : Nat → List Char → List Char
    | 0, s => s
    | fuel + 1, s =>
      match newline? (skipBlank s) with
      | some rest => skipBlankLines fuel rest
      | none => skipBlank s

/-- The end of a string over lines: three quotes, after one or two quotes that belong to the string. -/
def closing? (quote : Char) (s : List Char) : Option (List Char × List Char) :=
  match s with
  | a :: b :: c :: rest =>
    if a == quote && b == quote && c == quote then
      match rest with
      | d :: e :: tail =>
        if d == quote && e == quote then some ([quote, quote], tail)
        else if d == quote then some ([quote], e :: tail)
        else some ([], rest)
      | [d] => if d == quote then some ([quote], []) else some ([], rest)
      | [] => some ([], [])
    else none
  | _ => none

/-- The rest of a string over lines after its opening quotes. A line break is written as a line feed. -/
def readBasicLines? : Nat → List Char → Reader String
  | 0, _, _ => none
  | fuel + 1, done, s =>
    match closing? '"' s with
    | some (quotes, rest) => some (String.ofList (done.reverse ++ quotes), rest)
    | none =>
      match newline? s with
      | some rest => readBasicLines? fuel ('\n' :: done) rest
      | none =>
        match s with
        | '\\' :: rest =>
          match skipLineJoint? rest.length rest with
          | some rest => readBasicLines? fuel done rest
          | none => (readEscape? rest).bind fun (c, rest) => readBasicLines? fuel (c :: done) rest
        | c :: rest => if isPlain c then readBasicLines? fuel (c :: done) rest else none
        | [] => none

def readLiteralLines? : Nat → List Char → Reader String
  | 0, _, _ => none
  | fuel + 1, done, s =>
    match closing? '\'' s with
    | some (quotes, rest) => some (String.ofList (done.reverse ++ quotes), rest)
    | none =>
      match newline? s with
      | some rest => readLiteralLines? fuel ('\n' :: done) rest
      | none =>
        match s with
        | c :: rest => if isPlain c then readLiteralLines? fuel (c :: done) rest else none
        | [] => none

def skipNewline (s : List Char) : List Char :=
  (newline? s).getD s

def readString? : Reader String
  | '"' :: '"' :: '"' :: rest => readBasicLines? (rest.length + 1) [] (skipNewline rest)
  | '"' :: rest => readBasic? (rest.length + 1) [] rest
  | '\'' :: '\'' :: '\'' :: rest => readLiteralLines? (rest.length + 1) [] (skipNewline rest)
  | '\'' :: rest => readLiteral? [] rest
  | _ => none

/-- Digits with single underscores between them, without the underscores. -/
def readDigits? (isDigit : Char → Bool) : Reader (List Char)
  | '_' :: _ => none
  | s => run [] s
where
  run (done : List Char) : Reader (List Char)
    | '_' :: c :: rest => if isDigit c then run (c :: done) rest else none
    | ['_'] => none
    | c :: rest => if isDigit c then run (c :: done) rest else finish done (c :: rest)
    | [] => finish done []
  finish (done : List Char) : Reader (List Char)
    | rest => if done.isEmpty then none else some (done.reverse, rest)

def int64? (n : Int) : Option Value :=
  if -2 ^ 63 ≤ n && n < 2 ^ 63 then some (.int n) else none

def readBased? (base : Nat) (s : List Char) : Option (Value × List Char) := do
  let (digits, rest) ← readDigits? (fun c => (Json.hexValue? c).any (· < base)) s
  let n := digits.foldl (fun n c => base * n + (Json.hexValue? c).getD 0) 0
  return (← int64? n, rest)

/-- The whole part of a decimal number: a zero alone, or digits that do not start with one. -/
def readWhole? : Reader (List Char)
  | '0' :: rest => some (['0'], rest)
  | s => readDigits? Char.isDigit s

def readExponent? : Reader (List Char)
  | c :: rest =>
    if c == 'e' || c == 'E' then
      let (sign, body) : List Char × List Char :=
        match rest with
        | '+' :: rest => ([], rest)
        | '-' :: rest => (['-'], rest)
        | rest => ([], rest)
      (readDigits? Char.isDigit body).map fun (digits, rest) => ('e' :: sign ++ digits, rest)
    else some ([], c :: rest)
  | [] => some ([], [])

/-- The double of a decimal text; positive overflow is refused. -/
def float? (negative : Bool) (text : List Char) : Option Value :=
  (Decimal.readDecimal? (String.ofList text)).bind fun (_, d) =>
    let x := d.toBinary64 negative
    if x.isFinite || negative then some (.float x) else none

def readUnsigned? (negative : Bool) (s : List Char) : Option (Value × List Char) :=
  match s with
  | 'i' :: 'n' :: 'f' :: rest => some (.float (.ofMagnitude negative Binary64.infinityMagnitude), rest)
  | 'n' :: 'a' :: 'n' :: rest => some (.float (.ofMagnitude negative (Binary64.infinityMagnitude + 2 ^ 51)), rest)
  | s => do
    let (whole, rest) ← readWhole? s
    match rest with
    | '.' :: rest =>
      let (fraction, rest) ← readDigits? Char.isDigit rest
      let (exponent, rest) ← readExponent? rest
      return (← float? negative (whole ++ '.' :: fraction ++ exponent), rest)
    | rest =>
      let (exponent, after) ← readExponent? rest
      if exponent.isEmpty then
        let n : Int := Decimal.digitsValue whole
        return (← int64? (if negative then -n else n), rest)
      else return (← float? negative (whole ++ exponent), after)

def readNumber? : Reader Value
  | '0' :: 'x' :: rest => readBased? 16 rest
  | '0' :: 'o' :: rest => readBased? 8 rest
  | '0' :: 'b' :: rest => readBased? 2 rest
  | '+' :: rest => readUnsigned? false rest
  | '-' :: rest => readUnsigned? true rest
  | rest => readUnsigned? false rest

def readTwo? (low high : Nat) : Reader Nat
  | a :: b :: rest =>
    let n := 10 * (a.toNat - 0x30) + (b.toNat - 0x30)
    if a.isDigit && b.isDigit && low ≤ n && n ≤ high then some (n, rest) else none
  | _ => none

def after? (c : Char) : List Char → Option (List Char)
  | d :: rest => if d == c then some rest else none
  | [] => none

def skipFraction? : List Char → Option (List Char)
  | '.' :: rest => if rest.head?.any Char.isDigit then some (rest.dropWhile Char.isDigit) else none
  | rest => some rest

def skipTime? (s : List Char) : Option (List Char) := do
  let (_, rest) ← readTwo? 0 23 s
  let rest ← after? ':' rest
  let (_, rest) ← readTwo? 0 59 rest
  let rest ← after? ':' rest
  let (_, rest) ← readTwo? 0 60 rest
  skipFraction? rest

def skipOffset? : List Char → Option (List Char)
  | c :: rest =>
    if c == 'Z' || c == 'z' then some rest
    else if c == '+' || c == '-' then do
      let (_, rest) ← readTwo? 0 23 rest
      let rest ← after? ':' rest
      let (_, rest) ← readTwo? 0 59 rest
      return rest
    else some (c :: rest)
  | [] => some []

def daysIn (year month : Nat) : Nat :=
  if month == 2 then (if year % 4 == 0 && (year % 100 != 0 || year % 400 == 0) then 29 else 28)
  else if month == 4 || month == 6 || month == 9 || month == 11 then 30
  else 31

def skipDate? (year : Nat) (s : List Char) : Option (List Char) := do
  let (month, rest) ← readTwo? 1 12 s
  let rest ← after? '-' rest
  let (_, rest) ← readTwo? 1 (daysIn year month) rest
  match rest with
  | c :: tail =>
    if (c == 'T' || c == 't' || c == ' ') && startsHour tail then skipTime? tail >>= skipOffset?
    else return rest
  | [] => return []
where
  startsHour (s : List Char) : Bool :=
    match readTwo? 0 23 s with
    | some (_, ':' :: _) => true
    | _ => false

def dateYear? : Reader Nat
  | a :: b :: c :: d :: '-' :: rest =>
    if [a, b, c, d].all Char.isDigit then some (Decimal.digitsValue [a, b, c, d], rest) else none
  | _ => none

def startsTime : List Char → Bool
  | a :: b :: ':' :: _ => a.isDigit && b.isDigit
  | _ => false

def readPlain? (s : List Char) : Option (Value × List Char) :=
  let taken (rest : List Char) : Value × List Char :=
    (.datetime (String.ofList (s.take (s.length - rest.length))), rest)
  match dateYear? s with
  | some (year, rest) => (skipDate? year rest).map taken
  | none => if startsTime s then (skipTime? s).map taken else readNumber? s

end SchemaRpc.Toml
