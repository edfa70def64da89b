import SchemaRpc.Toml.Scalar

/-!
# TOML documents

`Toml.parse?` reads a document: pairs of dotted keys and values, below headers that open a table or add one to an
array of tables. A table may be opened once, a key may be set once, and dotted keys do not reach into tables that
headers or braces defined. A text has a table or none; what is wrong with it is not told.
-/

namespace SchemaRpc.Toml

def maxNesting : Nat :=
  79

/-- A table under construction. An implicit one was only passed through by a path; a dotted one was made by the
path of a dotted key. -/
inductive Node where
  | leaf (v : Value)
  | table (isImplicit isDotted : Bool) (entries : List (String × Node))
  | tables (items : List Node)
  deriving Inhabited

namespace Node

def setEntry (key : String) (node : Node) : List (String × Node) → List (String × Node)
  | [] => [(key, node)]
  | (k, n) :: rest => if k == key then (key, node) :: rest else (k, n) :: setEntry key node rest

/-- Changes the table at the end of a path. Missing tables on the way are made; the way leads through the last
table of an array of tables, and never through a value. The path of a dotted key passes implicit tables only. -/
def descend (isDotted : Bool) (change : Node → Option Node) : List String → Node → Option Node
  | [], node => change node
  | key :: path, .table isImplicit wasDotted entries => do
    let child := (entries.lookup key).getD (.table true isDotted [])
    let changed ←
      match child with
      | .leaf _ => none
      | .table childImplicit _ _ =>
        if isDotted && !childImplicit then none else descend isDotted change path child
      | .tables items =>
        match items.getLast? with
        | none => none
        | some last => (descend isDotted change path last).map fun last => .tables (items.dropLast ++ [last])
    return .table isImplicit wasDotted (setEntry key changed entries)
  | _ :: _, _ => none

def addNew (key : String) (node : Node) : Node → Option Node
  | .table isImplicit isDotted entries =>
    if (entries.lookup key).isSome then none
    else some (.table isImplicit isDotted (entries ++ [(key, node)]))
  | _ => none

/-- Sets the last part of a dotted key. A table that is not made of dotted keys takes no dotted key. -/
def addPair (path : List String) (key : String) (v : Value) (node : Node) : Option Node :=
  descend true
    (fun node =>
      match node with
      | .table _ isDotted _ => if isDotted == path.isEmpty then none else addNew key (.leaf v) node
      | _ => none)
    path node

/-- Opens the table of a header: a new one, or one that was only passed through. -/
def openEntry (key : String) : Node → Option Node
  | .table isImplicit isDotted entries =>
    match entries.lookup key with
    | none => some (.table isImplicit isDotted (entries ++ [(key, .table false false [])]))
    | some (.table true false inner) =>
      some (.table isImplicit isDotted (setEntry key (.table false false inner) entries))
    | some _ => none
  | _ => none

def addItem (key : String) (node : Node) : Node → Option Node
  | .table isImplicit isDotted entries =>
    match entries.lookup key with
    | none => some (.table isImplicit isDotted (entries ++ [(key, .tables [node])]))
    | some (.tables items) => some (.table isImplicit isDotted (setEntry key (.tables (items ++ [node])) entries))
    | some _ => none
  | _ => none

mutual

def toValue : Node → Value
  | .leaf v => v
  | .table _ _ entries => .table (entriesToValues entries)
  | .tables items => .array (listToValues items)

def entriesToValues : List (String × Node) → List (String × Value)
  | [] => []
  | (key, node) :: rest => (key, node.toValue) :: entriesToValues rest

def listToValues : List Node → List Value
  | [] => []
  | node :: rest => node.toValue :: listToValues rest

end

end Node

def isBareKey (c : Char) : Bool :=
  c.isAlphanum || c == '-' || c == '_'

def readKeyPart? : Reader String
  | '"' :: rest => readBasic? (rest.length + 1) [] rest
  | '\'' :: rest => readLiteral? [] rest
  | s =>
    let name := s.takeWhile isBareKey
    if name.isEmpty then none else some (String.ofList name, s.dropWhile isBareKey)

def readKey? : Nat → Reader (List String)
  | 0, _ => none
  | fuel + 1, s => do
    let (part, rest) ← readKeyPart? (skipBlank s)
    match skipBlank rest with
    | '.' :: rest =>
      let (parts, rest) ← readKey? fuel rest
      return (part :: parts, rest)
    | rest => return ([part], rest)

def readPair? (value : Reader Value) (s : List Char) : Option ((List String × Value) × List Char) := do
  let (key, rest) ← readKey? maxNesting s
  match rest with
  | '=' :: rest =>
    let (v, rest) ← value (skipBlank rest)
    return ((key, v), rest)
  | _ => none

def readItems? (value : Reader Value) : Nat → List Value → Reader (List Value)
  | 0, _, _ => none
  | fuel + 1, done, s =>
    match skipTrivia s.length s with
    | ']' :: rest => some (done.reverse, rest)
    | s => do
      let (v, rest) ← value s
      match skipTrivia rest.length rest with
      | ',' :: rest => readItems? value fuel (v :: done) rest
      | ']' :: rest => return ((v :: done).reverse, rest)
      | _ => none

def addTo (table : Node) : List String × Value → Option Node
  | (key, v) => do table.addPair key.dropLast (← key.getLast?) v

def readPairs? (value : Reader Value) : Nat → Node → Reader Node
  | 0, _, _ => none
  | fuel + 1, table, s => do
    let (pair, rest) ← readPair? value s
    let table ← addTo table pair
    match skipBlank rest with
    | ',' :: rest => readPairs? value fuel table rest
    | '\x7d' :: rest => return (table, rest)
    | _ => none

/-- One value, with at most `nesting` arrays and inline tables around one another. -/
def readValue? : Nat → Reader Value
  | nesting, s =>
    match s with
    | '"' :: _ => (readString? s).map fun (s, rest) => (.str s, rest)
    | '\'' :: _ => (readString? s).map fun (s, rest) => (.str s, rest)
    | 't' :: 'r' :: 'u' :: 'e' :: rest => some (.bool true, rest)
    | 'f' :: 'a' :: 'l' :: 's' :: 'e' :: rest => some (.bool false, rest)
    | '[' :: rest =>
      match nesting with
      | 0 => none
      | inner + 1 =>
        (readItems? (readValue? inner) (rest.length + 1) [] rest).map fun (items, rest) => (.array items, rest)
    | '\x7b' :: rest =>
      match nesting with
      | 0 => none
      | inner + 1 =>
        match skipBlank rest with
        | '\x7d' :: rest => some (.table [], rest)
        | rest =>
          (readPairs? (readValue? inner) (rest.length + 1) (.table false false []) rest).map fun (table, rest) =>
            (table.toValue, rest)
    | s => readPlain? s

/-- A document being read, and the path of the table that pairs go into. -/
structure Draft where
  root : Node := .table false false []
  path : List String := []

namespace Draft

def openTable (d : Draft) (path : List String) : Option Draft := do
  let key ← path.getLast?
  return ⟨← d.root.descend false (Node.openEntry key) path.dropLast, path⟩

def openItem (d : Draft) (path : List String) : Option Draft := do
  let key ← path.getLast?
  return ⟨← d.root.descend false (Node.addItem key (.table false false [])) path.dropLast, path⟩

def addPair (d : Draft) (pair : List String × Value) : Option Draft := do
  return { d with root := ← d.root.descend false (fun table => addTo table pair) d.path }

end Draft

def readHeader? (s : List Char) : Option ((List String × Bool) × List Char) :=
  match s with
  | '[' :: '[' :: rest => do
    match ← readKey? maxNesting rest with
    | (path, ']' :: ']' :: rest) => return ((path, true), rest)
    | _ => none
  | '[' :: rest => do
    match ← readKey? maxNesting rest with
    | (path, ']' :: rest) => return ((path, false), rest)
    | _ => none
  | _ => none

def readLines? : Nat → Draft → List Char → Option Node
  | 0, _, _ => none
  | fuel + 1, d, s =>
    match skipBlank s with
    | [] => some d.root
    | '[' :: rest => do
      let ((path, isItem), rest) ← readHeader? ('[' :: rest)
      let d ← if isItem then d.openItem path else d.openTable path
      readLines? fuel d (← lineEnd? rest)
    | s =>
      match lineEnd? s with
      | some rest => readLines? fuel d rest
      | none => do
        let (pair, rest) ← readPair? (readValue? maxNesting) s
        readLines? fuel (← d.addPair pair) (← lineEnd? rest)

/-- The table of a document. A byte order mark may stand at its start. -/
def parse? (s : String) : Option Value :=
  let body :=
    match s.toList with
    | c :: rest => if c.toNat == 0xfeff then rest else c :: rest
    | [] => []
  (readLines? (body.length + 1) {} body).map Node.toValue

end SchemaRpc.Toml
