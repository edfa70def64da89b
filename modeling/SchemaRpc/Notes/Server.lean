import SchemaRpc.Dispatch.Client
import SchemaRpc.Dispatch.Delivery
import SchemaRpc.Notes.Service

/-!
# A running notes service

The store of a service and the clients that watch it. After each request every watcher is sent the events that were
published, and everyone runs.
-/

namespace SchemaRpc

structure Watcher where
  source : EventSource Watch NoteEvent
  client : Client Watch NoteEvent

namespace Watcher

def onSession (w : Watcher) (f : Session Watch NoteEvent → Session Watch NoteEvent) : Watcher :=
  { w with client := { w.client with session := w.client.session.map f } }

def send (w : Watcher) (event : NoteEvent) : Watcher :=
  w.onSession fun s => (s.post feedCapacity event).settle w.source []

def sleep (w : Watcher) (millis : Nat) : Watcher :=
  w.onSession fun s => s.sleep w.source millis

end Watcher

structure NotesServer where
  router : Router NotesContext NotesState Watch
  routed : Bool
  state : NotesState
  /-- Watchers in the order of their arrival; those that are done with are gone. -/
  watchers : List (Option Watcher) := []

namespace NotesServer

def start (options : AppOptions) (token : Option String) (routed : Bool) (now : Timestamp) :
    Except RegistrationError NotesServer := do
  let app ← Notes.build options token
  return { router := ← app.router, routed, state := { now } }

def publish (server : NotesServer) : NotesServer :=
  let sent (w : Watcher) : Watcher := server.state.published.foldl Watcher.send w
  { server with
    watchers := server.watchers.map (Option.map sent)
    state := { server.state with published := [] } }

def dispatch (server : NotesServer) (request : Http.Request) : Answer NotesContext Watch × NotesServer :=
  let exchange :=
    if server.routed then server.router.dispatch request server.state
    else server.router.dispatcher.dispatch request server.state
  (exchange.answer, { server with state := exchange.state }.publish)

/-- Answers a request to the end, or until a stream has sent so many frames. Time passes for all others as well. -/
def answer (server : NotesServer) (request : Http.Request) (limit : Nat) : Delivery × NotesServer :=
  let (answer, server) := server.dispatch request
  match answer with
  | .response r => (.response r, server)
  | .escaped => (.nothing, server)
  | .stream opening =>
    let d := server.router.dispatcher
    let (delivery, session) := (d.openSession opening).deliver (d.source opening Watch.next) opening.version limit
    (delivery, { server with watchers := server.watchers.map (Option.map fun w => w.sleep session.clock) })

/-- Opens a watch; gives its number and the head of the response. -/
def watch (server : NotesServer) (request : Http.Request) : Nat × Option Http.Head × NotesServer :=
  let (answer, server) := server.dispatch request
  let d := server.router.dispatcher
  let client := Client.ofAnswer d Watch.next request.version answer
  let encode : Value → Except CodecError String :=
    match answer with
    | .stream opening => d.encodeEvent opening.procedure
    | _ => fun _ => .ok ""
  let watcher : Watcher := { source := { next := Watch.next, encode }, client }
  (server.watchers.length, client.head?, { server with watchers := server.watchers ++ [some watcher] })

def watcher? (server : NotesServer) (number : Nat) : Option Watcher :=
  (server.watchers[number]?).join

def setWatcher (server : NotesServer) (number : Nat) (watcher : Option Watcher) : NotesServer :=
  { server with watchers := server.watchers.set number watcher }

/-- A watcher reads; at the end of its response it is done with. -/
def receive (server : NotesServer) (number : Nat) : Option Receipt × NotesServer :=
  match server.watcher? number with
  | none => (none, server)
  | some w =>
    let (receipt, client) := w.client.receive w.source
    (some receipt, server.setWatcher number (if receipt = .ended then none else some { w with client }))

def drop (server : NotesServer) (number : Nat) : Bool × NotesServer :=
  ((server.watcher? number).isSome, server.setWatcher number none)

end NotesServer

end SchemaRpc
