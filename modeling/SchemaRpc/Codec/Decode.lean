import SchemaRpc.Codec.Basic
import SchemaRpc.Decimal.Reading
import SchemaRpc.Json.Parser

/-!
# JSON to values

Decoding JSON against a definition. Only declared properties are read, each wire key once; other keys are
ignored. A union is told by its discriminator, which is read before its depth is counted.
-/

namespace SchemaRpc.Codec

/-- JSON ready to be read against a definition, at a path, inside so many containers. -/
abbrev Decoder := TypeDef → String → Nat → Except CodecError Value

def expectedJson : Form TypeDef → String
  | .union _ _ => "object"
  | form => expected form

def decodeMismatch (form : Form TypeDef) (path : String) (json : Json) : Except CodecError Value :=
  .error (.typeMismatch path (expectedJson form) json.kind)

/-- An integer in the range of its kind, signed or unsigned as the kind is. -/
def decodeInteger (n : Int) (kind : PrimitiveKind) (path : String) : Except CodecError Value :=
  if !kind.inRange n then .error (.outOfRange path n kind)
  else if kind.isUnsigned then .ok (.uint (UInt64.ofNat n.toNat))
  else .ok (.int (Int64.ofInt n))

def numberToFloat : Json.Number → Binary64
  | .int n => .ofInt n
  | .float x => x

def decodeNumber (n : Json.Number) (kind : PrimitiveKind) (path : String) : Except CodecError Value :=
  if kind.isFloat then .ok (.float (numberToFloat n))
  else if kind.isInteger then
    match n with
    | .int n =>
      if -2 ^ 63 ≤ n && n < 2 ^ 64 then decodeInteger n kind path
      else .error (.typeMismatch path kind.label "float")
    | .float _ => .error (.typeMismatch path kind.label "float")
  else .error (.typeMismatch path kind.label "number")

def decodeTimestamp (s path : String) : Except CodecError Value :=
  match Timestamp.ofText? s with
  | some t => .ok (.timestamp t)
  | none => .error (.typeMismatch path "timestamp" "string")

def decodeString (s : String) (kind : PrimitiveKind) (path : String) : Except CodecError Value :=
  if kind = .string then .ok (.str s)
  else if kind = .timestamp then decodeTimestamp s path
  else if kind.isStringified then
    match Decimal.readInt128? s with
    | some n => decodeInteger n kind path
    | none => .error (.typeMismatch path kind.label "string")
  else .error (.typeMismatch path kind.label "string")

def decodeScalar (json : Json) (form : Form TypeDef) (path : String) : Except CodecError Value :=
  match json, form with
  | .bool b, .primitive .boolean => .ok (.bool b)
  | .num n, .primitive kind => decodeNumber n kind path
  | .str s, .primitive kind => decodeString s kind path
  | .str s, .enumeration values =>
    if values.contains s then .ok (.str s) else .error (.unknownEnumValue path s)
  | json, form => decodeMismatch form path json

/-- The declared properties in order. A wire key is taken out of the members once it is read. -/
def decodeProperties (c : Codec) (path : String) (depth : Nat) :
    Entries Decoder → Entries Value → List (Property TypeDef) → Except CodecError (Entries Value)
  | _, done, [] => .ok done
  | members, done, ⟨name, type, optional⟩ :: rest =>
    let key := c.key name
    let fieldPath := childPath path key
    match members.find? key with
    | none =>
      if optional then decodeProperties c path depth members done rest else .error (.missingField fieldPath)
    | some decoder =>
      match decoder type fieldPath depth with
      | .ok v => decodeProperties c path depth (members.erase key) (done.insert name v) rest
      | .error error => .error error

def decodeTag (c : Codec) (path key : String) (members : Json.Members) : Except CodecError String :=
  let tagPath := childPath path (c.key key)
  match members.get? (c.key key) with
  | none => .error (.missingField tagPath)
  | some (.str tag) => .ok tag
  | some json => .error (.typeMismatch tagPath "string" json.kind)

mutual

def decoder (c : Codec) : Json → Decoder
  | .null, t, path, _ =>
    if t.nullable then .ok .null
    else if isAny t then .ok (.any .null)
    else .error (.nullNotAllowed path)
  | .arr items, t, path, depth => do
    match ← c.target t with
    | .any => return .any (.arr items)
    | .elements item =>
      let depth ← c.enter depth path
      return .array (← decodeItems c item path depth 0 items)
    | form => decodeMismatch form path (.arr items)
  | .obj members, t, path, depth => do
    match ← c.target t with
    | .any => return .any (.obj members)
    | .values item =>
      let depth ← c.enter depth path
      return .map (← decodeEntries c item path depth [] members)
    | .object properties =>
      let depth ← c.enter depth path
      return .object (← decodeProperties c path depth (memberDecoders c members) [] properties)
    | .union key mapping =>
      let tag ← decodeTag c path key members
      match mapping.lookup tag with
      | none => .error (.unknownTag (childPath path (c.key key)) tag)
      | some properties =>
        let depth ← c.enter depth path
        let rest := (memberDecoders c members).erase (c.key key)
        return .union tag (← decodeProperties c path depth rest [] properties)
    | form => decodeMismatch form path (.obj members)
  | json, t, path, _ => do
    match ← c.target t with
    | .any => return .any json
    | form => decodeScalar json form path

def decodeItems (c : Codec) (item : TypeDef) (path : String) (depth index : Nat) :
    List Json → Except CodecError (List Value)
  | [] => .ok []
  | json :: rest => do
    let v ← decoder c json item (childPath path (toString index)) depth
    return v :: (← decodeItems c item path depth (index + 1) rest)

/-- The members of an object as the entries of a map. -/
def decodeEntries (c : Codec) (item : TypeDef) (path : String) (depth : Nat) (done : Entries Value) :
    List (String × Json) → Except CodecError (Entries Value)
  | [] => .ok done
  | (key, json) :: rest => do
    let v ← decoder c json item (childPath path key) depth
    decodeEntries c item path depth (done.insert key v) rest

def memberDecoders (c : Codec) : List (String × Json) → Entries Decoder
  | [] => []
  | (key, json) :: rest => (key, decoder c json) :: memberDecoders c rest

end

def decodeJson (c : Codec) (json : Json) (t : TypeDef) : Except CodecError Value :=
  decoder c json t rootPath 0

def decode (c : Codec) (bytes : ByteArray) (t : TypeDef) : Except CodecError Value :=
  match Json.parseBytes? bytes with
  | some json => c.decodeJson json t
  | none => .error .invalidJson

/-- The decoder of a member is found where the member is. -/
theorem find?_memberDecoders (c : Codec) (key : String) (members : List (String × Json)) :
    Entries.find? key (memberDecoders c members) = (Entries.find? key members).map (decoder c) := by
  induction members with
  | nil => rfl
  | cons head tail inductionHypothesis =>
    obtain ⟨k, json⟩ := head
    by_cases same : k = key <;> simp [memberDecoders, same, inductionHypothesis]

end SchemaRpc.Codec
