import SchemaRpc.App.Basic
import SchemaRpc.Dispatch.Rules
import SchemaRpc.EventStream.Script

/-!
# Scripted applications

Handlers that are given as data and take any params but those that ask to be refused.
-/

namespace SchemaRpc

inductive CannedResult where
  | fail (error : RpcError)
  | panic
  | give (value : Value)
  | echo

namespace CannedResult

def ending (params : Value) : CannedResult → Ending Value
  | fail error => .failed error
  | panic => .panicked
  | give value => .returned value
  | echo => .returned params

end CannedResult

/-- An object with a string under `reject` is refused for that reason. -/
def refusal? : Value → Option CodecError
  | .object fields =>
    match Value.field "reject" fields with
    | .str reason => some (.invalidValue "/reject" reason)
    | _ => none
  | _ => none

def enterUnlessRefused {α : Type} (params : Value) (value : α) : Entry α :=
  match refusal? params with
  | some error => .refused error
  | none => .entered value

namespace Endpoint

def canned {β : Type} (result : CannedResult) : Endpoint Caller Unit β :=
  .unary fun params _ state => (enterUnlessRefused params (result.ending params), state)

def streaming {β : Type} (first : β) : Endpoint Caller Unit β :=
  .stream fun params _ state => (enterUnlessRefused params first, state)

end Endpoint

end SchemaRpc
