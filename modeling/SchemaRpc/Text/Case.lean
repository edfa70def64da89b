import SchemaRpc.Text.CaseTables

/-!
# Letter case

Upper and lower case of characters and words after the Unicode default algorithm. A single character maps by
the full mapping (`toUppercase`, `toLowercase`); a whole word lower-cases with the rule for a final sigma
(`lowercaseWord`).
-/

namespace SchemaRpc.Text

def inRanges (ranges : Array (Nat × Nat)) (c : Char) : Bool :=
  ranges.any fun (first, last) => first ≤ c.toNat && c.toNat ≤ last

def isUppercase (c : Char) : Bool :=
  if c.toNat < 0x80 then c.isUpper else inRanges uppercaseRanges c

def isLowercase (c : Char) : Bool :=
  if c.toNat < 0x80 then c.isLower else inRanges lowercaseRanges c

def isCased (c : Char) : Bool :=
  isUppercase c || isLowercase c || inRanges titlecaseRanges c

def isCaseIgnorable (c : Char) : Bool :=
  inRanges caseIgnorableRanges c

def rowCovers (n : Nat) (row : Nat × Nat × Nat × Int) : Bool :=
  row.1 ≤ n && n ≤ row.2.1 && (n - row.1) % row.2.2.1 == 0

/-- The one-character image of `c` under the mapping rows; a character that no row covers stays. -/
def shiftBy (rows : Array (Nat × Nat × Nat × Int)) (c : Char) : Char :=
  match rows.find? (rowCovers c.toNat) with
  | some row => Char.ofNat ((c.toNat : Int) + row.2.2.2).toNat
  | none => c

def toLowercase (c : Char) : List Char :=
  if c.toNat < 0x80 then [c.toLower]
  else if c.toNat == 0x130 then ['i', Char.ofNat 0x307]
  else [shiftBy toLowercaseRows c]

def toUppercase (c : Char) : List Char :=
  if c.toNat < 0x80 then [c.toUpper]
  else
    match toUppercaseExpansions.lookup c.toNat with
    | some expansion => expansion.map Char.ofNat
    | none => [shiftBy toUppercaseRows c]

/-- The first character that case does not ignore is cased. -/
def meetsCased (cs : List Char) : Bool :=
  match cs.dropWhile isCaseIgnorable with
  | [] => false
  | c :: _ => isCased c

/-- Lower case of the rest of a word, given the characters before it in reverse. A capital sigma that ends a
word becomes a final sigma. -/
def lowercaseAfter (before : List Char) : List Char → List Char
  | [] => []
  | c :: rest =>
    let image :=
      if c.toNat == 0x3a3 then
        if meetsCased before && !meetsCased rest then [Char.ofNat 0x3c2] else [Char.ofNat 0x3c3]
      else toLowercase c
    image ++ lowercaseAfter (c :: before) rest

def lowercaseWord (word : List Char) : List Char :=
  lowercaseAfter [] word

def uppercaseWord (word : List Char) : List Char :=
  word.flatMap toUppercase

def capitalize : List Char → List Char
  | [] => []
  | first :: rest => toUppercase first ++ rest.flatMap toLowercase

end SchemaRpc.Text
