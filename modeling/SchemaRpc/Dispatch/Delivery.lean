import SchemaRpc.Dispatch.Basic
import SchemaRpc.EventStream.Session.Schedule

/-!
# Deliveries

What a client gets that sends a request and reads the response to its end, or up to a number of frames.
-/

namespace SchemaRpc

inductive Delivery where
  | response (r : Http.Response)
  /-- The frames of an event stream; it is incomplete when the client went away after its last frame. -/
  | frames (head : Http.Head) (frames : List Frame) (complete : Bool)
  | nothing

def Session.deliver {β μ : Type} (source : EventSource β μ) (version : HttpVersion) (limit : Nat) (s : Session β μ) :
    Delivery × Session β μ :=
  let s := s.start source
  match s.dispatcher with
  | .refused error => (.response (.ofError error), s)
  | .streaming =>
    let (frames, complete, s) := s.drain source limit
    (.frames (eventStreamHead version) frames complete, s)
  | _ => (.nothing, s)

def Dispatcher.deliver {γ ω β μ : Type} (d : Dispatcher γ ω β) (next : β → Reply μ → β × Move) (limit : Nat) :
    Answer γ β → Delivery × List (SessionEvent μ)
  | .response r => (.response r, [])
  | .stream opening =>
    let (delivery, session) := (d.openSession opening).deliver (d.source opening next) opening.version limit
    (delivery, session.events)
  | .escaped => (.nothing, [])

end SchemaRpc
