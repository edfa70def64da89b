import SchemaRpc.Json.NumberReading

/-!
# Reading JSON

`Json.parse?` reads one value and nothing after it but white space. A text may nest at most `Json.maxNesting`
arrays and objects. Raw control characters in strings and lone surrogate escapes are refused. A text has a value
or none; what is wrong with it is not told.
-/

namespace SchemaRpc.Json

def maxNesting : Nat :=
  127

def isJsonBlank (c : Char) : Bool :=
  c == ' ' || c == '\t' || c == '\n' || c == '\r'

def skipBlank (s : List Char) : List Char :=
  s.dropWhile isJsonBlank

def hexValue? (c : Char) : Option Nat :=
  if c.isDigit then some (c.toNat - 0x30)
  else if 'a' ≤ c && c ≤ 'f' then some (c.toNat - 0x57)
  else if 'A' ≤ c && c ≤ 'F' then some (c.toNat - 0x37)
  else none

def hexUnit? (a b c d : Char) : Option Nat := do
  let w ← hexValue? a
  let x ← hexValue? b
  let y ← hexValue? c
  let z ← hexValue? d
  return ((w * 16 + x) * 16 + y) * 16 + z

/-- The first unit of a surrogate pair. -/
def isHighSurrogate (n : Nat) : Bool :=
  0xd800 ≤ n && n ≤ 0xdbff

def isLowSurrogate (n : Nat) : Bool :=
  0xdc00 ≤ n && n ≤ 0xdfff

def shortEscape? (c : Char) : Option Char :=
  if c == '"' || c == '\\' || c == '/' then some c
  else if c == 'b' then some (Char.ofNat 8)
  else if c == 'f' then some (Char.ofNat 12)
  else if c == 'n' then some '\n'
  else if c == 'r' then some '\r'
  else if c == 't' then some '\t'
  else none

/-- The rest of a string after its opening quote; `done` holds the characters so far in reverse. -/
def readString? (done : List Char) : List Char → Option (String × List Char)
  | '"' :: rest => some (String.ofList done.reverse, rest)
  | '\\' :: 'u' :: a :: b :: c :: d :: '\\' :: 'u' :: e :: f :: g :: h :: rest =>
    match hexUnit? a b c d with
    | none => none
    | some high =>
      if isHighSurrogate high then
        match hexUnit? e f g h with
        | none => none
        | some low =>
          if isLowSurrogate low then
            readString? (Char.ofNat (0x10000 + (high - 0xd800) * 0x400 + (low - 0xdc00)) :: done) rest
          else none
      else if isLowSurrogate high then none
      else readString? (Char.ofNat high :: done) ('\\' :: 'u' :: e :: f :: g :: h :: rest)
  | '\\' :: 'u' :: a :: b :: c :: d :: rest =>
    match hexUnit? a b c d with
    | none => none
    | some n =>
      if isHighSurrogate n || isLowSurrogate n then none else readString? (Char.ofNat n :: done) rest
  | '\\' :: c :: rest =>
    match shortEscape? c with
    | none => none
    | some x => readString? (x :: done) rest
  | c :: rest => if c.toNat < 32 then none else readString? (c :: done) rest
  | [] => none

abbrev Reader := List Char → Option (Json × List Char)

/-- The items of an array up to its closing bracket; `fuel` bounds their number. -/
def readItems? (item : Reader) : Nat → List Json → List Char → Option (List Json × List Char)
  | 0, _, _ => none
  | fuel + 1, done, s =>
    match item s with
    | none => none
    | some (value, rest) =>
      match skipBlank rest with
      | ',' :: rest => readItems? item fuel (value :: done) rest
      | ']' :: rest => some ((value :: done).reverse, rest)
      | _ => none

def readMembers? (item : Reader) : Nat → Members → List Char → Option (Members × List Char)
  | 0, _, _ => none
  | fuel + 1, done, s =>
    match skipBlank s with
    | '"' :: rest =>
      match readString? [] rest with
      | none => none
      | some (key, rest) =>
        match skipBlank rest with
        | ':' :: rest =>
          match item rest with
          | none => none
          | some (value, rest) =>
            match skipBlank rest with
            | ',' :: rest => readMembers? item fuel (done.set key value) rest
            | '\x7d' :: rest => some (done.set key value, rest)
            | _ => none
        | _ => none
    | _ => none

/-- One value after white space, with at most `nesting` arrays and objects around one another. -/
def readValue? : Nat → Reader
  | nesting, s =>
    match skipBlank s with
    | 'n' :: 'u' :: 'l' :: 'l' :: rest => some (null, rest)
    | 't' :: 'r' :: 'u' :: 'e' :: rest => some (bool true, rest)
    | 'f' :: 'a' :: 'l' :: 's' :: 'e' :: rest => some (bool false, rest)
    | '"' :: rest => (readString? [] rest).map fun (s, rest) => (str s, rest)
    | '[' :: rest =>
      match nesting with
      | 0 => none
      | inner + 1 =>
        match skipBlank rest with
        | ']' :: rest => some (arr [], rest)
        | rest => (readItems? (readValue? inner) rest.length [] rest).map fun (items, rest) => (arr items, rest)
    | '\x7b' :: rest =>
      match nesting with
      | 0 => none
      | inner + 1 =>
        match skipBlank rest with
        | '\x7d' :: rest => some (obj [], rest)
        | rest =>
          (readMembers? (readValue? inner) rest.length [] rest).map fun (members, rest) => (obj members, rest)
    | rest => (readNumber? rest).map fun (n, rest) => (num n, rest)

def parse? (s : String) : Option Json :=
  match readValue? maxNesting s.toList with
  | some (value, rest) => if (skipBlank rest).isEmpty then some value else none
  | none => none

def parseBytes? (bytes : ByteArray) : Option Json :=
  (String.fromUTF8? bytes).bind parse?

end SchemaRpc.Json
