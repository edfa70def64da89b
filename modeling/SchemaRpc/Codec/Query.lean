import SchemaRpc.Codec.Decode

/-!
# Query pairs to values

A record can be read from the flat pairs of a query string: a scalar from `limit=10`, an array of scalars from
`tag=a&tag=b` or `tag[]=a&tag[]=b`, and null from `null` at a nullable place. `queryFault?` tells beforehand which
definitions can never be read so.
-/

namespace SchemaRpc

/-- Decoded name and value pairs of a query string. -/
abbrev QueryPairs := List (String × String)

namespace Codec

/-- The text that stands for null at a nullable place. -/
def nullText : String := "null"

def resolved (c : Codec) (t : TypeDef) : Except CodecError TypeDef :=
  match c.definitions.resolve t with
  | .ok t => .ok t
  | .error error => .error (.ofModelError error)

def coerce (s : String) (kind : PrimitiveKind) (path : String) : Except CodecError Value :=
  let mismatch : CodecError := .typeMismatch path kind.label "string"
  match kind with
  | .string => .ok (.str s)
  | .boolean =>
    if s == "true" then .ok (.bool true)
    else if s == "false" then .ok (.bool false)
    else .error mismatch
  | .timestamp => decodeTimestamp s path
  | kind =>
    if kind.isFloat then
      match Decimal.readFinite? s with
      | some x => .ok (.float x)
      | none => .error mismatch
    else
      match Decimal.readInt128? s with
      | some n => decodeInteger n kind path
      | none => .error mismatch

def queryScalar (c : Codec) (s : String) (t : TypeDef) (path : String) : Except CodecError Value := do
  let target ← c.resolved t
  if s == nullText && (t.nullable || target.nullable) then return .null
  match target.form with
  | .primitive kind => coerce s kind path
  | .enumeration values =>
    if values.contains s then return .str s else throw (.unknownEnumValue path s)
  | _ => throw (.typeMismatch path target.kindName "string")

def queryItems (c : Codec) (item : TypeDef) (path : String) (index : Nat) :
    List String → Except CodecError (List Value)
  | [] => .ok []
  | s :: rest => do
    let v ← c.queryScalar s item (childPath path (toString index))
    return v :: (← queryItems c item path (index + 1) rest)

/-- The texts given for one property: all of them at an array, the first one at a scalar. -/
def queryValue (c : Codec) (first : String) (others : List String) (t : TypeDef) (path : String) :
    Except CodecError Value := do
  let target ← c.resolved t
  match target.form with
  | .elements item =>
    if (t.nullable || target.nullable) && first == nullText && others.isEmpty then return .null
    return .array (← c.queryItems item path 0 (first :: others))
  | _ => c.queryScalar first t path

/-- The texts given under a wire key or the key followed by brackets, in order. -/
def textsFor (key : String) (pairs : QueryPairs) : List String :=
  (pairs.filter fun (k, _) => k == key || k == key ++ "[]").map Prod.snd

def queryProperties (c : Codec) (pairs : QueryPairs) (done : Entries Value) :
    List (Property TypeDef) → Except CodecError (Entries Value)
  | [] => .ok done
  | ⟨name, type, optional⟩ :: rest =>
    let key := c.key name
    let path := childPath rootPath key
    match textsFor key pairs with
    | [] =>
      if optional then queryProperties c pairs done rest else .error (.missingField path)
    | first :: others =>
      match c.queryValue first others type path with
      | .ok v => queryProperties c pairs (done.insert name v) rest
      | .error error => .error error

def decodeQuery (c : Codec) (pairs : QueryPairs) (t : TypeDef) : Except CodecError Value := do
  let root ← c.resolved t
  match root.form with
  | .object properties => return .object (← c.queryProperties pairs [] properties)
  | _ => throw (.typeMismatch rootPath "object" root.kindName)

end Codec

namespace Definitions

def leadsToScalar (defs : Definitions) (t : TypeDef) : Bool :=
  match defs.resolve t with
  | .ok ⟨.primitive _, _, _⟩ => true
  | .ok ⟨.enumeration _, _, _⟩ => true
  | _ => false

def isQueryParameter (defs : Definitions) (t : TypeDef) : Bool :=
  match defs.resolve t with
  | .ok ⟨.primitive _, _, _⟩ => true
  | .ok ⟨.enumeration _, _, _⟩ => true
  | .ok ⟨.elements item, _, _⟩ => defs.leadsToScalar item
  | _ => false

/-- The path of the first property that query pairs cannot carry, or the root for what is no record. -/
def queryFault? (defs : Definitions) (t : TypeDef) : Option String :=
  match defs.resolve t with
  | .ok ⟨.object properties, _, _⟩ =>
    (properties.find? fun p => !defs.isQueryParameter p.type).map fun p => childPath rootPath p.name
  | _ => some rootPath

end Definitions

end SchemaRpc
