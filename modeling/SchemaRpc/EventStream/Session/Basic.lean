import SchemaRpc.EventStream.Machine
import SchemaRpc.Value

/-!
# Stream sessions

One request to an event-stream procedure, from the call of its handler to the end of all that it left running. The
parties are the handler, the dispatcher that decides on the response, the watcher that takes over from it, the
pinger and the body of the response; `Session.step` is one indivisible step of one of them.
-/

namespace SchemaRpc

inductive Ending (α : Type) where
  | returned (value : α)
  | failed (error : RpcError)
  | panicked

namespace Ending

def result {α : Type} : Ending α → Except RpcError α
  | returned value => .ok value
  | failed error => .error error
  | panicked => .error .internal

end Ending

inductive Move where
  | push (event : Value)
  | close (notify : Bool)
  | setPing (millis : Nat)
  | sleep (millis : Nat)
  | awaitDone
  | observe
  /-- Waits for a message from outside; with `untilDone` also until the stream is closed. -/
  | receive (untilDone : Bool)
  | finish (ending : Ending Unit)

inductive Reply (μ : Type) where
  /-- It has made none yet. -/
  | entered
  | pushed (result : Except StreamError Unit)
  | closed
  | pingSet
  | slept
  /-- The stream is closed. -/
  | done
  | observed (phase : Phase)
  | received (message : μ)

/-- The code of a handler as a machine with states `β`, and how its events are encoded. -/
structure EventSource (β μ : Type) where
  next : β → Reply μ → β × Move
  encode : Value → Except CodecError String

inductive HandlerState (β μ : Type) where
  | moving (state : β) (reply : Reply μ)
  | pushing (state : β)
  | closing (state : β)
  | sleeping (state : β)
  | awaiting (state : β)
  | receiving (state : β) (untilDone : Bool)
  | ended (ending : Ending Unit)

inductive DispatcherState where
  /-- For the first write or the end of the handler, whichever comes first. -/
  | waiting
  /-- The handler failed before the stream started. -/
  | abandoning (error : RpcError)
  /-- The handler ended without a start; the stream is closed before the response. -/
  | closing
  | streaming
  | refused (error : RpcError)
  | leaving
  | gone

inductive WatcherState where
  | absent
  | waiting
  | closing
  | finished

inductive PingerState where
  | absent
  | sleeping
  | writing
  | stopped

inductive BodyState where
  | absent
  | present
  | leaving
  | gone

inductive SessionEvent (μ : Type) where
  | replied (reply : Reply μ)
  | completed
  | failed (error : RpcError)

structure Session (β μ : Type) where
  machine : Machine
  handler : HandlerState β μ
  /-- Messages to the handler, oldest first. -/
  mailbox : List μ := []
  dispatcher : DispatcherState := .waiting
  watcher : WatcherState := .absent
  pinger : PingerState := .absent
  body : BodyState := .absent
  clock : Nat := 0
  /-- Deadlines in the order of their registration. -/
  timers : List (Nat × Actor) := []
  /-- What the other holders of the controller got, newest first. -/
  results : List (Nat × Except StreamError Unit) := []
  events : List (SessionEvent μ) := []

namespace Session

variable {β μ : Type}

def new (pingMillis : Nat) (handler : HandlerState β μ) : Session β μ :=
  { machine := ⟨.new pingMillis, []⟩, handler }

def stream (s : Session β μ) : EventStream :=
  s.machine.stream

def record (s : Session β μ) (event : SessionEvent μ) : Session β μ :=
  { s with events := s.events ++ [event] }

def call (s : Session β μ) (who : Actor) (what : Call) : Session β μ :=
  { s with machine := s.machine.call who what }

def setTimer (s : Session β μ) (who : Actor) (millis : Nat) : Session β μ :=
  { s with timers := s.timers ++ [(s.clock + millis, who)] }

def isAsleep (s : Session β μ) (who : Actor) : Bool :=
  s.timers.any fun (_, actor) => actor = who

def dropTimer (s : Session β μ) (who : Actor) : Session β μ :=
  { s with timers := s.timers.filter fun (_, actor) => actor ≠ who }

/-- One step of the operation of a party, and what follows when the operation returns. -/
def advance (s : Session β μ) (who : Actor) (after : Except StreamError Unit → Session β μ → Session β μ) :
    Option (Session β μ) :=
  match s.machine.advance who with
  | .stuck => none
  | .moved machine => some { s with machine }
  | .returned result machine => some (after result { s with machine })

def reply (s : Session β μ) (state : β) (reply : Reply μ) : Session β μ :=
  { s with handler := .moving state reply }.record (.replied reply)

def perform (source : EventSource β μ) (s : Session β μ) (state : β) : Move → Session β μ
  | .push event => { s with handler := .pushing state }.call .handler (.push (source.encode event))
  | .close notify => { s with handler := .closing state }.call .handler (.close notify)
  | .setPing millis =>
    { s with machine := s.machine.act (.setPing millis) }.reply state .pingSet
  | .sleep 0 => s.reply state .slept
  | .sleep millis => { s with handler := .sleeping state }.setTimer .handler millis
  | .awaitDone => { s with handler := .awaiting state }
  | .observe => s.reply state (.observed s.stream.phase)
  | .receive untilDone => { s with handler := .receiving state untilDone }
  | .finish ending => { s with handler := .ended ending }

def handlerStep (source : EventSource β μ) (s : Session β μ) : Option (Session β μ) :=
  match s.handler with
  | .moving state reply =>
    let (state, move) := source.next state reply
    some (s.perform source state move)
  | .pushing state => s.advance .handler fun result s => s.reply state (.pushed result)
  | .closing state => s.advance .handler fun _ s => s.reply state .closed
  | .sleeping state => if s.isAsleep .handler then none else some (s.reply state .slept)
  | .awaiting state => if s.stream.cancelled then some (s.reply state .done) else none
  | .receiving state untilDone =>
    match s.mailbox with
    | message :: rest => some ({ s with mailbox := rest }.reply state (.received message))
    | [] => if untilDone && s.stream.cancelled then some (s.reply state .done) else none
  | .ended _ => none

def report (s : Session β μ) (error : RpcError) : Session β μ :=
  if s.stream.peerGone then s else s.record (.failed error)

def settleEarly (s : Session β μ) (ending : Ending Unit) : Session β μ :=
  match ending.result with
  | .ok () => { s.record .completed with dispatcher := .closing }.call .dispatcher (.close false)
  | .error error =>
    if s.stream.phase = .idle then { s with dispatcher := .abandoning error }.call .dispatcher .abandon
    else { s.report error with dispatcher := .closing }.call .dispatcher (.close false)

def dropReceiver (s : Session β μ) : Session β μ :=
  { s with machine := { s.machine with stream := { s.stream with receiving := false, slot := none } } }

/-- A step of the dispatcher. When the first write and the end of the handler are both there, the write counts. -/
def dispatcherStep (s : Session β μ) : Option (Session β μ) :=
  match s.dispatcher with
  | .waiting =>
    if s.stream.announced then some { s with dispatcher := .streaming, watcher := .waiting, body := .present }
    else
      match s.handler with
      | .ended ending => some (s.settleEarly ending)
      | _ => none
  | .abandoning error =>
    s.advance .dispatcher fun _ s => { s.record (.failed error) with dispatcher := .refused error }.dropReceiver
  | .closing => s.advance .dispatcher fun _ s => { s with dispatcher := .streaming, body := .present }
  | .leaving => s.advance .dispatcher fun _ s => { s with dispatcher := .gone }
  | .streaming => none
  | .refused _ => none
  | .gone => none

def watcherStep (s : Session β μ) : Option (Session β μ) :=
  match s.watcher, s.handler with
  | .waiting, .ended ending =>
    let s :=
      match ending.result with
      | .ok () => s.record .completed
      | .error error => s.report error
    some ({ s with watcher := .closing }.call .watcher (.close false))
  | .closing, _ => s.advance .watcher fun _ s => { s with watcher := .finished }
  | _, _ => none

/-- The pinger sleeps for the time between pings as it is now. -/
def restPinger (s : Session β μ) : Session β μ :=
  { s with pinger := .sleeping }.setTimer .pinger s.stream.pingMillis

def pingerStep (s : Session β μ) : Option (Session β μ) :=
  match s.pinger with
  | .absent => if s.stream.announced then some s.restPinger else none
  | .sleeping =>
    if s.stream.cancelled then some ({ s with pinger := .stopped }.dropTimer .pinger)
    else if s.isAsleep .pinger then none
    else some ({ s with pinger := .writing }.call .pinger .ping)
  | .writing =>
    s.advance .pinger fun result s =>
      match result with
      | .ok () => s.restPinger
      | .error _ => { s with pinger := .stopped }
  | .stopped => none

def bodyStep (s : Session β μ) : Option (Session β μ) :=
  match s.body with
  | .leaving => s.advance .body fun _ s => { s with body := .gone }
  | _ => none

def step (source : EventSource β μ) (s : Session β μ) : Actor → Option (Session β μ)
  | .handler => s.handlerStep source
  | .dispatcher => s.dispatcherStep
  | .watcher => s.watcherStep
  | .pinger => s.pingerStep
  | .body => s.bodyStep
  | .other number =>
    s.advance (.other number) fun result s => { s with results := (number, result) :: s.results }

inductive Reading where
  | frame (frame : Frame)
  | ended
  | pending
  deriving DecidableEq

/-- The client reads. At the end of the channel the body is done with and goes away. -/
def read (s : Session β μ) : Reading × Session β μ :=
  match s.body with
  | .present =>
    match s.machine.receive? with
    | some (frame, machine) => (.frame frame, { s with machine })
    | none => if s.stream.ended then (.ended, { s with body := .leaving }.call .body .leave) else (.pending, s)
  | _ => (.ended, s)

def dropBody (s : Session β μ) : Session β μ :=
  match s.body with
  | .present => { s with body := .leaving }.call .body .leave
  | _ => s

/-- The client drops the request while there is no response. What the dispatcher was doing is dropped with it. -/
def abort (s : Session β μ) : Session β μ :=
  match s.dispatcher with
  | .waiting => { s with dispatcher := .leaving }.call .dispatcher .disconnect
  | .closing =>
    { s with machine := (s.machine.drop? .dispatcher).getD s.machine, dispatcher := .leaving }.call .dispatcher
      .disconnect
  | _ => s

/-- A message to the handler, of which the newest `capacity` are kept. -/
def post (capacity : Nat) (s : Session β μ) (message : μ) : Session β μ :=
  let mailbox := s.mailbox ++ [message]
  { s with mailbox := mailbox.drop (mailbox.length - capacity) }

end Session

end SchemaRpc
