import SchemaRpc.Codec.Error
import SchemaRpc.Json.Printer
import SchemaRpc.Json.Selection

/-!
# Request errors

An error that a client sees, as `code`, `message` and optional `data`. The code is the HTTP status of the response
when it is a client or server error status, and 500 is the status otherwise.
-/

namespace SchemaRpc

/-- A structured request error. -/
structure RpcError where
  code : UInt16
  message : String
  data : Option Json := none
  deriving Inhabited

namespace RpcError

def badRequest (message : String) : RpcError := ⟨400, message, none⟩

def unauthorized (message : String) : RpcError := ⟨401, message, none⟩

def forbidden (message : String) : RpcError := ⟨403, message, none⟩

def notFound : RpcError := ⟨404, "Not found", none⟩

/-- The error that tells nothing about its cause. -/
def internal : RpcError := ⟨500, "Internal server error", none⟩

def status (e : RpcError) : Nat :=
  if 400 ≤ e.code.toNat && e.code.toNat ≤ 599 then e.code.toNat else 500

def display (e : RpcError) : String :=
  e.message ++ " (" ++ toString e.code.toNat ++ ")"

/-- The body of the response; `data` only when there is some. -/
def toJson (e : RpcError) : Json :=
  .obj ([("code", .ofInt e.code.toNat), ("message", .str e.message)] ++
    (e.data.map fun data => ("data", data)).toList)

def ofCodecError (e : CodecError) : RpcError :=
  { badRequest e.message with data := e.path?.map fun path => .obj [("path", .str path)] }

def readCode? : Json → Option UInt16
  | .num (.int n) => if 0 ≤ n && n < 65536 then some (UInt16.ofNat n.toNat) else none
  | _ => none

def readMessage? : Json → Option String
  | .str s => some s
  | _ => none

/-- Null stands for no data. -/
def readData : Json → Option Json
  | .null => none
  | json => some json

def ofMembers? (members : Json.Members) : Option RpcError := do
  let code ← readCode? (← members.get? "code")
  let message ← readMessage? (← members.get? "message")
  return ⟨code, message, (members.get? "data").bind readData⟩

/-- The error of an array of code, message and optional data. -/
def ofItems? : List Json → Option RpcError
  | [code, message] => do return ⟨← readCode? code, ← readMessage? message, none⟩
  | [code, message, data] => do return ⟨← readCode? code, ← readMessage? message, readData data⟩
  | _ => none

/-- The error that a text holds, as an object whose other members are passed over or as an array. -/
def ofText? (s : String) : Option RpcError :=
  match Json.select? ["code", "message", "data"] s with
  | some members => ofMembers? members
  | none =>
    match Json.parse? s with
    | some (.arr items) => ofItems? items
    | _ => none

end RpcError

end SchemaRpc
