import SchemaRpc.Entries
import SchemaRpc.Json.Basic
import SchemaRpc.Timestamp.Basic

/-!
# Runtime values

Values that handlers and the codec exchange. `absent` (the key is missing) and `null` (the key is present with
null) are values of their own, so the four states of a field survive the trip. Maps and objects are kept in
ascending key order.
-/

namespace SchemaRpc

/-- A decoded value, or one to be encoded. -/
inductive Value where
  /-- The key is missing. -/
  | absent
  /-- The key is present with an explicit null. -/
  | null
  | bool (b : Bool)
  | int (n : Int64)
  | uint (n : UInt64)
  | float (x : Binary64)
  | str (s : String)
  | timestamp (t : Timestamp)
  | array (items : List Value)
  | map (entries : List (String × Value))
  | object (fields : List (String × Value))
  | union (tag : String) (fields : List (String × Value))
  /-- JSON that is carried untouched. -/
  | any (json : Json)

namespace Value

instance : Inhabited Value := ⟨absent⟩

def kind : Value → String
  | absent => "absent"
  | null => "null"
  | bool _ => "boolean"
  | int _ => "integer"
  | uint _ => "integer"
  | float _ => "float"
  | str _ => "string"
  | timestamp _ => "timestamp"
  | array _ => "array"
  | map _ => "map"
  | object _ => "object"
  | union _ _ => "union"
  | any _ => "any"

def isAbsent : Value → Bool
  | absent => true
  | _ => false

def isNull : Value → Bool
  | null => true
  | _ => false

/-- The field of that name, `absent` when there is none. -/
def field (name : String) (fields : Entries Value) : Value :=
  (fields.find? name).getD absent

end Value

end SchemaRpc
