import SchemaRpc.Casing
import SchemaRpc.Codec.Error
import SchemaRpc.Definitions

/-!
# The codec

A codec is a definitions table, a key casing and a bound on nesting. References are transparent: a value at a
reference is treated as at the definition the reference leads to.
-/

namespace SchemaRpc

/-- What encoding and decoding depend on beside the definition at hand. -/
structure Codec where
  definitions : Definitions := {}
  casing : Casing := .camel
  /-- The most containers around one another. -/
  maxDepth : Nat := 64
  deriving Inhabited

namespace Codec

/-- The wire key of a declared name. -/
def key (c : Codec) (name : String) : String :=
  c.casing.apply name

/-- The depth inside one more container at `path`. -/
def enter (c : Codec) (depth : Nat) (path : String) : Except CodecError Nat :=
  if depth + 1 > c.maxDepth then .error (.depthExceeded path c.maxDepth) else .ok (depth + 1)

/-- The form at the end of the references from a definition. -/
def target (c : Codec) (t : TypeDef) : Except CodecError (Form TypeDef) :=
  match c.definitions.resolve t with
  | .ok t => .ok t.form
  | .error error => .error (.ofModelError error)

def expected : Form TypeDef → String
  | .any => "any"
  | .primitive kind => kind.label
  | .enumeration _ => "enum"
  | .elements _ => "array"
  | .values _ => "map"
  | .object _ => "object"
  | .ref name => name
  | .union _ _ => "union"

/-- Whether null stands for itself at this definition without the flag. -/
def isAny (t : TypeDef) : Bool :=
  match t.form with
  | .any => true
  | _ => false

end Codec

end SchemaRpc
