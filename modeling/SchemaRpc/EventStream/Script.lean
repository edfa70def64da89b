import SchemaRpc.EventStream.Session.Basic

/-!
# Scripted handlers

Handlers of event streams that are given as data: a list of instructions, or a wait for an ending from outside.
-/

namespace SchemaRpc

inductive Instruction where
  /-- Pushes an event. Unless the failure is ignored the handler passes it on. -/
  | push (event : Value) (ignoreFailure : Bool)
  | close (notify : Bool)
  | setPing (millis : Nat)
  | sleep (millis : Nat)
  | awaitDone
  | observe
  | fail (error : RpcError)
  | panic

namespace Instruction

def move : Instruction → Move
  | push event _ => .push event
  | close notify => .close notify
  | setPing millis => .setPing millis
  | sleep millis => .sleep millis
  | awaitDone => .awaitDone
  | observe => .observe
  | fail error => .finish (.failed error)
  | panic => .finish .panicked

def ignoresFailure : Instruction → Bool
  | push _ ignoreFailure => ignoreFailure
  | _ => true

end Instruction

structure Script where
  rest : List Instruction
  /-- Whether a failure of the push under way is ignored. -/
  forgiving : Bool := true

namespace Script

/-- The next instruction; at the end of the script the handler returns. -/
def advance (script : Script) : Script × Move :=
  match script.rest with
  | [] => (script, .finish (.returned ()))
  | instruction :: rest => (⟨rest, instruction.ignoresFailure⟩, instruction.move)

def next {μ : Type} (script : Script) : Reply μ → Script × Move
  | .pushed (.error error) =>
    if script.forgiving then script.advance else (script, .finish (.failed error.toRpcError))
  | _ => script.advance

end Script

/-- A handler that leaves its controller to others and ends as it is told. -/
def lend : Unit → Reply (Ending Unit) → Unit × Move
  | (), .received ending => ((), .finish ending)
  | (), _ => ((), .receive false)

end SchemaRpc
