import SchemaRpc.Binary64

/-!
# TOML values

The values that a TOML text holds. Dates and times keep their text.
-/

namespace SchemaRpc.Toml

/-- A TOML value. Keys of a table are unique. -/
inductive Value where
  | str (s : String)
  | int (n : Int)
  | float (x : Binary64)
  | bool (b : Bool)
  | datetime (text : String)
  | array (items : List Value)
  | table (entries : List (String × Value))
  deriving Inhabited

namespace Value

def entry? (key : String) : Value → Option Value
  | table entries => entries.lookup key
  | _ => none

def isEmptyContainer : Value → Bool
  | array items => items.isEmpty
  | table entries => entries.isEmpty
  | _ => false

end Value

end SchemaRpc.Toml
