import SchemaRpc.Json.Parser

/-!
# Reading chosen members of an object

`Json.select?` reads the members of an object text whose keys are asked for and passes over the others. What is
passed over has to be well-formed, but it may nest without bound, and its numbers and escapes need not stand for
anything. A chosen key may occur only once.
-/

namespace SchemaRpc.Json

/-- A reader that keeps nothing: the text after the part it passes over. -/
abbrev Skipper := List Char → Option (List Char)

def skipDigits? (s : List Char) : Option (List Char) :=
  if s.head?.any Char.isDigit then some (s.dropWhile Char.isDigit) else none

def skipExponent? : Skipper
  | c :: rest =>
    if c == 'e' || c == 'E' then
      match rest with
      | '+' :: rest => skipDigits? rest
      | '-' :: rest => skipDigits? rest
      | rest => skipDigits? rest
    else some (c :: rest)
  | [] => some []

def skipFraction? : Skipper
  | '.' :: rest => (skipDigits? rest).bind skipExponent?
  | rest => skipExponent? rest

def skipUnsigned? : Skipper
  | '0' :: rest => if rest.head?.any Char.isDigit then none else skipFraction? rest
  | rest => (skipDigits? rest).bind skipFraction?

def skipNumber? : Skipper
  | '-' :: rest => skipUnsigned? rest
  | rest => skipUnsigned? rest

/-- The rest of a string after its opening quote; a surrogate may stand alone. -/
def skipString? : Skipper
  | '"' :: rest => some rest
  | '\\' :: 'u' :: a :: b :: c :: d :: rest =>
    match hexUnit? a b c d with
    | none => none
    | some _ => skipString? rest
  | '\\' :: c :: rest =>
    match shortEscape? c with
    | none => none
    | some _ => skipString? rest
  | c :: rest => if c.toNat < 32 then none else skipString? rest
  | [] => none

def skipKey? (s : List Char) : Option (List Char) :=
  match skipBlank s with
  | '"' :: rest =>
    match (skipString? rest).map skipBlank with
    | some (':' :: rest) => some rest
    | _ => none
  | _ => none

/-- A separated sequence up to its closing bracket, of which at least one part follows. -/
def skipParts? (part : Skipper) (close : Char) : Nat → Skipper
  | 0, _ => none
  | fuel + 1, s =>
    match (part s).map skipBlank with
    | some (c :: rest) =>
      if c == ',' then skipParts? part close fuel rest else if c == close then some rest else none
    | _ => none

/-- One value after white space, with at most `fuel` arrays and objects around one another. -/
def skipValue? : Nat → Skipper
  | fuel, s =>
    match skipBlank s with
    | 'n' :: 'u' :: 'l' :: 'l' :: rest => some rest
    | 't' :: 'r' :: 'u' :: 'e' :: rest => some rest
    | 'f' :: 'a' :: 'l' :: 's' :: 'e' :: rest => some rest
    | '"' :: rest => skipString? rest
    | '[' :: rest =>
      match fuel with
      | 0 => none
      | inner + 1 =>
        match skipBlank rest with
        | ']' :: rest => some rest
        | rest => skipParts? (skipValue? inner) ']' rest.length rest
    | '\x7b' :: rest =>
      match fuel with
      | 0 => none
      | inner + 1 =>
        match skipBlank rest with
        | '\x7d' :: rest => some rest
        | rest => skipParts? (fun s => (skipKey? s).bind (skipValue? inner)) '\x7d' rest.length rest
    | rest => skipNumber? rest

/-- One member: a chosen one that is not there yet is added, another one is passed over. -/
def selectMember? (chosen : List String) (done : Members) (key : String) (s : List Char) :
    Option (Members × List Char) :=
  if chosen.contains key then
    if (done.get? key).isSome then none
    else (readValue? (maxNesting - 1) s).map fun (value, rest) => (done ++ [(key, value)], rest)
  else (skipValue? s.length s).map fun rest => (done, rest)

def selectMembers? (chosen : List String) : Nat → Members → List Char → Option (Members × List Char)
  | 0, _, _ => none
  | fuel + 1, done, s =>
    match skipBlank s with
    | '"' :: rest =>
      match readString? [] rest with
      | none => none
      | some (key, rest) =>
        match skipBlank rest with
        | ':' :: rest =>
          match selectMember? chosen done key rest with
          | none => none
          | some (done, rest) =>
            match skipBlank rest with
            | ',' :: rest => selectMembers? chosen fuel done rest
            | '\x7d' :: rest => some (done, rest)
            | _ => none
        | _ => none
    | _ => none

def select? (chosen : List String) (s : String) : Option Members :=
  match skipBlank s.toList with
  | '\x7b' :: rest =>
    let read :=
      match skipBlank rest with
      | '\x7d' :: rest => some ([], rest)
      | rest => selectMembers? chosen rest.length [] rest
    match read with
    | some (members, rest) => if (skipBlank rest).isEmpty then some members else none
    | none => none
  | _ => none

end SchemaRpc.Json
