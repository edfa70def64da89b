import SchemaRpc.Binary64
import SchemaRpc.Shape.Basic
import SchemaRpc.Value

/-!
# Typed values

The types that a handler works with and the data of such types. A type tells its shape; a datum tells its value.
The wrappers `option`, `optional` and `field` say whether a value may be null, may be absent, or both.
-/

namespace SchemaRpc

/-- Integer types without a form on the wire. -/
inductive WideKind where
  | signed
  | unsigned
  deriving DecidableEq, Inhabited

namespace WideKind

def label : WideKind → String
  | signed => "i128"
  | unsigned => "u128"

end WideKind

inductive IntKind where
  | int8
  | int16
  | int32
  | int64
  | uint8
  | uint16
  | uint32
  | uint64
  deriving DecidableEq, Inhabited

namespace IntKind

def toPrimitive : IntKind → PrimitiveKind
  | int8 => .int8
  | int16 => .int16
  | int32 => .int32
  | int64 => .int64
  | uint8 => .uint8
  | uint16 => .uint16
  | uint32 => .uint32
  | uint64 => .uint64

end IntKind

/-- Types over a catalog of `n` declarations. -/
inductive Ty (n : Nat) where
  | bool
  | int (kind : IntKind)
  | float32
  | float64
  | string
  | timestamp
  | json
  | unit
  | wide (kind : WideKind)
  | list (item : Ty n)
  | map (item : Ty n)
  | option (inner : Ty n)
  | optional (inner : Ty n)
  /-- May be absent and may be null. -/
  | field (inner : Ty n)
  | declared (slot : Fin n)
  deriving DecidableEq, Inhabited

abbrev TypeCatalog (n : Nat) := Vector (Declaration (Ty n)) n

namespace Ty

variable {n : Nat}

def shape : Ty n → Shape n
  | bool => .primitive .boolean
  | int kind => .primitive kind.toPrimitive
  | float32 => .primitive .float32
  | float64 => .primitive .float64
  | string => .primitive .string
  | timestamp => .primitive .timestamp
  | json => .any
  | unit => .unit
  | wide kind => .unsupported kind.label
  | list item => .array item.shape
  | map item => .map item.shape
  | option inner => .nullable inner.shape
  | optional inner => .optional inner.shape
  | field inner => .optional (.nullable inner.shape)
  | declared slot => .declared slot

end Ty

def TypeCatalog.shapes {n : Nat} (types : TypeCatalog n) : Catalog n :=
  types.map (Declaration.map Ty.shape)

inductive Datum where
  | bool (b : Bool)
  | signed (n : Int64)
  | unsigned (n : UInt64)
  | float (x : Binary64)
  | string (s : String)
  | timestamp (t : Timestamp)
  | json (j : Json)
  | unit
  | wide (n : Int)
  | list (items : List Datum)
  | map (entries : List (String × Datum))
  /-- The missing case of `option`, and the null case of `field`. -/
  | null
  /-- The missing case of `optional` and of `field`. -/
  | absent
  /-- The other case of each wrapper. -/
  | present (inner : Datum)
  | record (fields : List (String × Datum))
  | variant (tag : String) (fields : List (String × Datum))
  | enumeration (value : String)
  deriving Inhabited

namespace Datum

mutual

/-- The value of a datum. Every field goes into the object, the absent ones as `absent`. -/
def toValue : Datum → Value
  | bool b => .bool b
  | signed n => .int n
  | unsigned n => .uint n
  | float x => .float x
  | string s => .str s
  | timestamp t => .timestamp t
  | json j => .any j
  | unit => .absent
  | wide n => .str (toString n)
  | list items => .array (listToValues items)
  | map entries => .map (Entries.ofPairs (pairsToValues entries))
  | null => .null
  | absent => .absent
  | present inner => inner.toValue
  | record fields => .object (Entries.ofPairs (pairsToValues fields))
  | variant tag fields => .union tag (Entries.ofPairs (pairsToValues fields))
  | enumeration value => .str value

def listToValues : List Datum → List Value
  | [] => []
  | d :: rest => d.toValue :: listToValues rest

def pairsToValues : List (String × Datum) → List (String × Value)
  | [] => []
  | (name, d) :: rest => (name, d.toValue) :: pairsToValues rest

end

end Datum

end SchemaRpc
