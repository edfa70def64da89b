import SchemaRpc.Codec.Error
import SchemaRpc.Decimal.Reading
import SchemaRpc.Typed.Basic

/-!
# Values to typed data

Reading a value as a datum of a type. An error tells its place by declared names, from the inside out.
-/

namespace SchemaRpc

namespace Ty

variable {n : Nat}

def expected (types : TypeCatalog n) : Ty n → String
  | bool => "boolean"
  | int kind => kind.toPrimitive.label
  | float32 => "float64"
  | float64 => "float64"
  | string => "string"
  | timestamp => "timestamp"
  | json => "any"
  | unit => "unit"
  | wide kind => kind.label
  | list _ => "array"
  | map _ => "map"
  | option inner => inner.expected types
  | optional inner => inner.expected types
  | field inner => inner.expected types
  | declared slot =>
    match (types.get slot).members with
    | .record _ => "object"
    | .union _ _ => "union"
    | .enumeration _ => "string"

end Ty

namespace Datum

variable {n : Nat}

abbrev Reader (n : Nat) := Ty n → Except CodecError Datum

/-- Reads a value through the wrappers around a type; `bare` reads it at a type that is no wrapper. -/
def throughWrappers (v : Value) (bare : Reader n) : Reader n
  | .option inner =>
    if v.isNull || v.isAbsent then .ok .null else (throughWrappers v bare inner).map present
  | .optional inner => if v.isAbsent then .ok .absent else (throughWrappers v bare inner).map present
  | .field inner =>
    if v.isAbsent then .ok .absent
    else if v.isNull then .ok .null
    else (throughWrappers v bare inner).map present
  | t => bare t

def ofInt (types : TypeCatalog n) (v : Value) (i : Int) : Reader n
  | .int kind =>
    if !kind.toPrimitive.inRange i then .error (.outOfRange rootPath i kind.toPrimitive)
    else if kind.toPrimitive.isUnsigned then .ok (unsigned (UInt64.ofNat i.toNat))
    else .ok (signed (Int64.ofInt i))
  | .float32 => .ok (float (Binary64.ofInt i).roundToSingle)
  | .float64 => .ok (float (Binary64.ofInt i))
  | t => .error (v.mismatch (t.expected types))

def ofWideText (s : String) (kind : WideKind) : Except CodecError Datum :=
  let read? : Option Int :=
    match kind with
    | .signed => Decimal.readInt128? s
    | .unsigned => (Decimal.readNat128? s).map Int.ofNat
  match read? with
  | some i => .ok (wide i)
  | none => .error (.invalidValue rootPath (Text.quoted s ++ " is not a valid " ++ kind.label))

def ofString (types : TypeCatalog n) (s : String) : Reader n
  | .string => .ok (string s)
  | .wide kind => ofWideText s kind
  | .declared slot =>
    match (types.get slot).members with
    | .enumeration values =>
      if values.contains s then .ok (enumeration s) else .error (.unknownEnumValue rootPath s)
    | _ => .error ((Value.str s).mismatch ((Ty.declared slot).expected types))
  | t => .error ((Value.str s).mismatch (t.expected types))

def ofScalar (types : TypeCatalog n) (v : Value) (t : Ty n) : Except CodecError Datum :=
  match v, t with
  | .bool b, .bool => .ok (bool b)
  | .int i, t => ofInt types v i.toInt t
  | .uint i, t => ofInt types v i.toNat t
  | .float x, .float64 => .ok (float x)
  | .float x, .float32 => .ok (float x.roundToSingle)
  | .str s, t => ofString types s t
  | .timestamp at_, .timestamp => .ok (timestamp at_)
  | .any j, .json => .ok (json j)
  | .null, .json => .ok (json .null)
  | .absent, .json => .ok (json .null)
  | v, t => .error (v.mismatch (t.expected types))

/-- A value at a type that is no wrapper; any value will do where there is none to read. -/
def unlessUnit (bare : Reader n) : Reader n
  | .unit => .ok unit
  | t => bare t

def ofPlain (types : TypeCatalog n) (v : Value) : Reader n :=
  throughWrappers v (unlessUnit (ofScalar types v))

/-- The declared fields in order, each taken out of the fields of the value. -/
def ofFields (types : TypeCatalog n) :
    Entries (Reader n) → List (FieldDecl (Ty n)) → Except CodecError (List (String × Datum))
  | _, [] => .ok []
  | fields, ⟨name, type, _, _⟩ :: rest =>
    let read := (fields.find? name).getD (ofPlain types .absent)
    match read type with
    | .error error => .error (error.under name)
    | .ok d => (ofFields types (fields.erase name) rest).map ((name, d) :: ·)

def ofObject (types : TypeCatalog n) (v : Value) (fields : Entries (Reader n)) : Reader n
  | .declared slot =>
    match (types.get slot).members with
    | .record declared => (ofFields types fields declared).map record
    | _ => .error (v.mismatch ((Ty.declared slot).expected types))
  | t => .error (v.mismatch (t.expected types))

def ofVariant (types : TypeCatalog n) (v : Value) (tag : String) (fields : Entries (Reader n)) : Reader n
  | .declared slot =>
    match (types.get slot).members with
    | .union _ variants =>
      match variants.find? fun variant => variant.tag == tag with
      | some found => (ofFields types fields found.fields).map (variant tag)
      | none => .error (.unknownTag rootPath tag)
    | _ => .error (v.mismatch ((Ty.declared slot).expected types))
  | t => .error (v.mismatch (t.expected types))

mutual

def reader (types : TypeCatalog n) : Value → Reader n
  | .array items =>
    throughWrappers (.array items) (unlessUnit fun
      | .list item => (ofItems types item 0 items).map list
      | t => .error ((Value.array items).mismatch (t.expected types)))
  | .map entries =>
    throughWrappers (.map entries) (unlessUnit fun
      | .map item => (ofEntries types item entries).map map
      | t => .error ((Value.map entries).mismatch (t.expected types)))
  | .object fields =>
    throughWrappers (.object fields) (unlessUnit (ofObject types (.object fields) (fieldReaders types fields)))
  | .union tag fields =>
    throughWrappers (.union tag fields)
      (unlessUnit (ofVariant types (.union tag fields) tag (fieldReaders types fields)))
  | v => ofPlain types v

def ofItems (types : TypeCatalog n) (item : Ty n) (index : Nat) : List Value → Except CodecError (List Datum)
  | [] => .ok []
  | v :: rest =>
    match reader types v item with
    | .error error => .error (error.under (toString index))
    | .ok d => (ofItems types item (index + 1) rest).map (d :: ·)

def ofEntries (types : TypeCatalog n) (item : Ty n) :
    List (String × Value) → Except CodecError (List (String × Datum))
  | [] => .ok []
  | (key, v) :: rest =>
    match reader types v item with
    | .error error => .error (error.under key)
    | .ok d => (ofEntries types item rest).map ((key, d) :: ·)

def fieldReaders (types : TypeCatalog n) : List (String × Value) → Entries (Reader n)
  | [] => []
  | (name, v) :: rest => (name, reader types v) :: fieldReaders types rest

end

def ofValue (types : TypeCatalog n) (v : Value) (t : Ty n) : Except CodecError Datum :=
  reader types v t

end Datum

end SchemaRpc
