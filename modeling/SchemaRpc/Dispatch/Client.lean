import SchemaRpc.Dispatch.Basic
import SchemaRpc.EventStream.Session.Schedule

/-!
# Clients

The client's side of one exchange that is looked at piece by piece: it may ask for the head of the response, read
from the body, or drop either side of the exchange.
-/

namespace SchemaRpc

structure Client (β μ : Type) where
  version : HttpVersion
  /-- The response, when it does not come from a session. -/
  early : Option Http.Response := none
  session : Option (Session β μ) := none
  /-- A body that is no stream has been read. -/
  taken : Bool := false
  dropped : Bool := false

inductive Receipt where
  /-- There is no response, or the client has dropped it. -/
  | noResponse
  | pending
  | text (s : String)
  | ended
  deriving DecidableEq

namespace Client

variable {β μ : Type}

def response? (c : Client β μ) : Option Http.Response :=
  match c.early, c.session.map Session.dispatcher with
  | some response, _ => some response
  | none, some (.refused error) => some (.ofError error)
  | none, _ => none

def isStreaming (c : Client β μ) : Bool :=
  match c.session.map Session.dispatcher with
  | some .streaming => true
  | _ => false

def head? (c : Client β μ) : Option Http.Head :=
  if c.dropped then none
  else if c.isStreaming then some (eventStreamHead c.version)
  else c.response?.map Http.Response.toHead

/-- Reads once from the body, after which everyone runs. -/
def receive (source : EventSource β μ) (c : Client β μ) : Receipt × Client β μ :=
  if c.dropped then (.noResponse, c)
  else
    match c.response?, c.session with
    | some response, _ =>
      if c.taken || response.body.isEmpty then (.ended, c) else (.text response.body, { c with taken := true })
    | none, some session =>
      if c.isStreaming then
        let (reading, session) := session.read
        let c := { c with session := some (session.settle source []) }
        match reading with
        | .frame frame => (.text frame.text, c)
        | .pending => (.pending, c)
        | .ended => (.ended, c)
      else (.noResponse, c)
    | none, none => (.noResponse, c)

def dropBody (source : EventSource β μ) (c : Client β μ) : Bool × Client β μ :=
  if c.head?.isSome then
    (true, { c with dropped := true, session := c.session.map fun s => s.dropBody.settle source [] })
  else (false, c)

def isWaiting (c : Client β μ) : Bool :=
  match c.session.map Session.dispatcher with
  | some .waiting => true
  | some .closing => true
  | some (.abandoning _) => true
  | _ => false

def abort (source : EventSource β μ) (c : Client β μ) : Bool × Client β μ :=
  if c.isWaiting then (true, { c with session := c.session.map fun s => s.abort.settle source [.dispatcher] })
  else (false, c)

/-- The client's side of an answer, once everyone has run. -/
def ofAnswer {γ ω : Type} (d : Dispatcher γ ω β) (next : β → Reply μ → β × Move) (version : HttpVersion) :
    Answer γ β → Client β μ
  | .response r => { version, early := some r }
  | .stream opening =>
    { version, session := some ((d.openSession opening).settle (d.source opening next) [.handler]) }
  | .escaped => { version }

end Client

end SchemaRpc
