import SchemaRpc.Codec.Basic
import SchemaRpc.Json.Printer

/-!
# Values to JSON

Encoding a value against a definition. Properties are written in declared order under their wire keys, absent
optional ones are left out, and a union is one object that starts with its discriminator. Fields that are not
declared are not written.
-/

namespace SchemaRpc.Codec

/-- A value ready to be written against a definition, at a path, inside so many containers. -/
abbrev Encoder := TypeDef → String → Nat → Except CodecError Json

def encodeMismatch (form : Form TypeDef) (path : String) (v : Value) : Except CodecError Json :=
  .error (.typeMismatch path (expected form) v.kind)

def encodeFloat (x : Binary64) (path : String) : Except CodecError Json :=
  if x.isFinite then .ok (.num (.float x))
  else .error (.invalidValue path (x.nonFiniteText ++ " is not a finite number"))

/-- An integer in the range of its kind, as a string when the kind has sixty-four bits. -/
def encodeInteger (n : Int) (kind : PrimitiveKind) (path : String) : Except CodecError Json :=
  if !kind.inRange n then .error (.outOfRange path n kind)
  else if kind.isStringified then .ok (.str (toString n))
  else .ok (.num (.int n))

/-- An integer at a form: at an integer kind itself, at a float kind the nearest double. -/
def encodeIntegerAt (v : Value) (n : Int) (form : Form TypeDef) (path : String) : Except CodecError Json :=
  match form with
  | .primitive kind =>
    if kind.isFloat then encodeFloat (.ofInt n) path
    else if kind.isInteger then encodeInteger n kind path
    else encodeMismatch form path v
  | _ => encodeMismatch form path v

def encodeScalar (v : Value) (form : Form TypeDef) (path : String) : Except CodecError Json :=
  match v, form with
  | .bool b, .primitive .boolean => .ok (.bool b)
  | .str s, .primitive .string => .ok (.str s)
  | .str s, .enumeration values =>
    if values.contains s then .ok (.str s) else .error (.unknownEnumValue path s)
  | .timestamp t, .primitive .timestamp => .ok (.str t.toText)
  | .float x, .primitive .float32 => encodeFloat x path
  | .float x, .primitive .float64 => encodeFloat x path
  | .int n, form => encodeIntegerAt v n.toInt form path
  | .uint n, form => encodeIntegerAt v n.toNat form path
  | .any json, .any => .ok json
  | v, form => encodeMismatch form path v

/-- The declared properties in order, added to the members already written. -/
def encodeProperties (c : Codec) (fields : Entries (Option Encoder)) (path : String) (depth : Nat)
    (done : Json.Members) : List (Property TypeDef) → Except CodecError Json.Members
  | [] => .ok done
  | ⟨name, type, optional⟩ :: rest =>
    let key := c.key name
    let fieldPath := childPath path key
    match (fields.find? name).join with
    | none =>
      if optional then encodeProperties c fields path depth done rest else .error (.missingField fieldPath)
    | some encoder =>
      match encoder type fieldPath depth with
      | .ok json => encodeProperties c fields path depth (done.set key json) rest
      | .error error => .error error

mutual

def encoder (c : Codec) : Value → Encoder
  | .absent, _, path, _ => .error (.missingField path)
  | .null, t, path, _ => if t.nullable || isAny t then .ok .null else .error (.nullNotAllowed path)
  | .array items, t, path, depth => do
    match ← c.target t with
    | .elements item =>
      let depth ← c.enter depth path
      return .arr (← encodeItems c item path depth 0 items)
    | form => encodeMismatch form path (.array items)
  | .map entries, t, path, depth => do
    match ← c.target t with
    | .values item =>
      let depth ← c.enter depth path
      return .obj (← encodeEntries c item path depth entries)
    | form => encodeMismatch form path (.map entries)
  | .object fields, t, path, depth => do
    match ← c.target t with
    | .object properties =>
      let depth ← c.enter depth path
      return .obj (← encodeProperties c (fieldEncoders c fields) path depth [] properties)
    | form => encodeMismatch form path (.object fields)
  | .union tag fields, t, path, depth => do
    match ← c.target t with
    | .union key mapping =>
      match mapping.lookup tag with
      | none => .error (.unknownTag path tag)
      | some properties =>
        let depth ← c.enter depth path
        let start : Json.Members := [(c.key key, .str tag)]
        return .obj (← encodeProperties c (fieldEncoders c fields) path depth start properties)
    | form => encodeMismatch form path (.union tag fields)
  | v, t, path, _ => do encodeScalar v (← c.target t) path

def encodeItems (c : Codec) (item : TypeDef) (path : String) (depth index : Nat) :
    List Value → Except CodecError (List Json)
  | [] => .ok []
  | v :: rest => do
    let json ← encoder c v item (childPath path (toString index)) depth
    return json :: (← encodeItems c item path depth (index + 1) rest)

def encodeEntries (c : Codec) (item : TypeDef) (path : String) (depth : Nat) :
    List (String × Value) → Except CodecError Json.Members
  | [] => .ok []
  | (key, v) :: rest => do
    let json ← encoder c v item (childPath path key) depth
    return (key, json) :: (← encodeEntries c item path depth rest)

/-- The encoders of the fields that are present. -/
def fieldEncoders (c : Codec) : List (String × Value) → Entries (Option Encoder)
  | [] => []
  | (name, v) :: rest => (name, if v.isAbsent then none else some (encoder c v)) :: fieldEncoders c rest

end

def encodeJson (c : Codec) (v : Value) (t : TypeDef) : Except CodecError Json :=
  encoder c v t rootPath 0

def encode (c : Codec) (v : Value) (t : TypeDef) : Except CodecError String :=
  (c.encodeJson v t).map Json.compress

/-- The encoder of a field is found where the field is, unless the field is absent. -/
theorem find?_fieldEncoders (c : Codec) (name : String) (fields : List (String × Value)) :
    Entries.find? name (fieldEncoders c fields) =
      (Entries.find? name fields).map fun v => if v.isAbsent then none else some (encoder c v) := by
  induction fields with
  | nil => rfl
  | cons head tail inductionHypothesis =>
    obtain ⟨k, v⟩ := head
    by_cases same : k = name <;> simp [fieldEncoders, same, inductionHypothesis]

end SchemaRpc.Codec
