import SchemaRpc.Decimal.Reading
import SchemaRpc.Json.Parser
import SchemaRpc.Json.Printer
import SchemaRpc.Text.Quoted
import SchemaRpc.Value

/-!
# Tagged notation

A JSON notation in which every runtime value tells its kind: `"absent"`, `"null"`, or an object with the kind as its
only key. Integers are texts, a float is the hexadecimal digits of its bits, and JSON that is carried along is a
text. Maps and objects are lists of pairs, so that a written value shows their order.
-/

namespace SchemaRpc.Value

def hexDigits (n : Nat) : String :=
  let digits := Text.hex n
  String.ofList (List.replicate (16 - digits.length) '0' ++ digits)

def ofHexDigits? (s : String) : Option Nat :=
  s.toList.foldl (fun n c => do return (← n) * 16 + (← Json.hexValue? c)) (some 0)

mutual

def toNotation : Value → Json
  | absent => .str "absent"
  | null => .str "null"
  | bool b => .obj [("bool", .bool b)]
  | int n => .obj [("int", .str (toString n.toInt))]
  | uint n => .obj [("uint", .str (toString n.toNat))]
  | float x => .obj [("float", .str (hexDigits x.bits.toNat))]
  | str s => .obj [("str", .str s)]
  | timestamp t => .obj [("ts", .arr [.ofInt t.seconds, .ofInt t.nanos])]
  | array items => .obj [("arr", .arr (itemNotations items))]
  | map entries => .obj [("map", .arr (entryNotations entries))]
  | object fields => .obj [("obj", .arr (entryNotations fields))]
  | union tag fields => .obj [("union", .arr [.str tag, .arr (entryNotations fields)])]
  | any json => .obj [("any", .str json.compress)]

def itemNotations : List Value → List Json
  | [] => []
  | v :: rest => toNotation v :: itemNotations rest

def entryNotations : List (String × Value) → List Json
  | [] => []
  | (key, v) :: rest => .arr [.str key, toNotation v] :: entryNotations rest

end

def ofScalarNotation? : String → Json → Option Value
  | "bool", .bool b => some (bool b)
  | "int", .str s => (Decimal.readInt? s).map fun n => int (Int64.ofInt n)
  | "uint", .str s => (Decimal.readNat128? s).map fun n => uint (UInt64.ofNat n)
  | "float", .str s => (ofHexDigits? s).map fun n => float ⟨UInt64.ofNat n⟩
  | "str", .str s => some (str s)
  | "ts", .arr [.num (.int seconds), .num (.int nanos)] => some (timestamp ⟨seconds, nanos.toNat⟩)
  | "any", .str s => (Json.parse? s).map any
  | _, _ => none

mutual

def ofNotation? : Json → Option Value
  | .str "absent" => some absent
  | .str "null" => some null
  | .obj [("arr", .arr items)] => (ofItemNotations? items).map array
  | .obj [("map", .arr entries)] => (ofEntryNotations? entries).map fun entries => map (Entries.ofPairs entries)
  | .obj [("obj", .arr fields)] => (ofEntryNotations? fields).map fun fields => object (Entries.ofPairs fields)
  | .obj [("union", .arr [.str tag, .arr fields])] =>
    (ofEntryNotations? fields).map fun fields => union tag (Entries.ofPairs fields)
  | .obj [(kind, json)] => ofScalarNotation? kind json
  | _ => none

def ofItemNotations? : List Json → Option (List Value)
  | [] => some []
  | json :: rest => do return (← ofNotation? json) :: (← ofItemNotations? rest)

/-- Pairs of keys and values. -/
def ofEntryNotations? : List Json → Option (List (String × Value))
  | [] => some []
  | .arr [.str key, json] :: rest => do return (key, ← ofNotation? json) :: (← ofEntryNotations? rest)
  | _ => none

end

end SchemaRpc.Value
