import SchemaRpc.EventStream.Session.Basic

/-!
# The schedule of a session

One party runs at a time, until it has to wait; those that it lets go on follow in the order in which that
happened. Time passes only when every party waits, and then jumps to the next deadline. The client acts in between.
-/

namespace SchemaRpc.Session

variable {β μ : Type}

/-- How many steps a session may take without the client: far more than there are between two waits. -/
def patience : Nat := 1000000

def parties : List Actor :=
  [.dispatcher, .pinger, .handler, .watcher, .body]

def actors (s : Session β μ) : List Actor :=
  parties ++ (s.machine.ops.map Prod.fst).filter fun actor => !parties.contains actor

def newlyReady (source : EventSource β μ) (s : Session β μ) (queue : List Actor) : List Actor :=
  s.actors.filter fun actor => !queue.contains actor && (s.step source actor).isSome

/-- Lets the parties of a queue run in turn, and those that become ready after them. -/
def runQueue (source : EventSource β μ) : Nat → List Actor → Session β μ → Session β μ
  | 0, _, s => s
  | _ + 1, [], s => s
  | fuel + 1, actor :: queue, s =>
    match s.step source actor with
    | none => runQueue source fuel queue s
    | some s =>
      let queue := actor :: queue
      runQueue source fuel (queue ++ s.newlyReady source queue) s

/-- Lets everyone run until all wait, those named first. -/
def settle (source : EventSource β μ) (s : Session β μ) (first : List Actor) : Session β μ :=
  runQueue source patience (first ++ s.newlyReady source first) s

def nextDeadline? (s : Session β μ) : Option Nat :=
  (s.timers.map Prod.fst).min?

/-- Time jumps to a deadline, and those it wakes run in the order in which they went to sleep. -/
def wakeAt (source : EventSource β μ) (s : Session β μ) (deadline : Nat) : Session β μ :=
  let (due, timers) := s.timers.partition fun (time, _) => time ≤ deadline
  { s with timers, clock := max s.clock deadline }.settle source (due.map Prod.snd)

def sleepUntil (source : EventSource β μ) (moment : Nat) : Nat → Session β μ → Session β μ
  | 0, s => s
  | fuel + 1, s =>
    match s.nextDeadline? with
    | none => { s with clock := max s.clock moment }
    | some deadline =>
      if deadline ≤ moment then sleepUntil source moment fuel (s.wakeAt source deadline)
      else { s with clock := max s.clock moment }

def sleep (source : EventSource β μ) (s : Session β μ) (millis : Nat) : Session β μ :=
  sleepUntil source (s.clock + millis) patience s

/-- Waits for the response: lets time pass as long as there is none. -/
def awaitHead (source : EventSource β μ) : Nat → Session β μ → Session β μ
  | 0, s => s
  | fuel + 1, s =>
    match s.dispatcher, s.nextDeadline? with
    | .streaming, _ => s
    | .refused _, _ => s
    | _, some deadline => awaitHead source fuel (s.wakeAt source deadline)
    | _, none => s

/-- Reads frames until the end or until there are as many as the limit. Tells whether the end was reached. -/
def readFrames (source : EventSource β μ) (limit : Nat) :
    Nat → List Frame → Session β μ → List Frame × Bool × Session β μ
  | 0, frames, s => (frames.reverse, false, s)
  | fuel + 1, frames, s =>
    if limit ≤ frames.length then (frames.reverse, false, s)
    else
      match s.read with
      | (.frame frame, s) => readFrames source limit fuel (frame :: frames) (s.settle source [])
      | (.ended, s) => (frames.reverse, true, s.settle source [])
      | (.pending, s) =>
        match s.nextDeadline? with
        | some deadline => readFrames source limit fuel frames (s.wakeAt source deadline)
        | none => (frames.reverse, true, s)

def start (source : EventSource β μ) (s : Session β μ) : Session β μ :=
  awaitHead source patience (s.settle source [.handler])

def drain (source : EventSource β μ) (limit : Nat) (s : Session β μ) : List Frame × Bool × Session β μ :=
  match readFrames source limit patience [] s with
  | (frames, true, s) => (frames, true, s)
  | (frames, false, s) => (frames, false, s.dropBody.settle source [])

/-- Another holder of the controller begins a call and everyone runs; the result, if it has come back. -/
def callFromOutside (source : EventSource β μ) (s : Session β μ) (number : Nat) (what : Call) :
    Option (Except StreamError Unit) × Session β μ :=
  let s := (s.call (.other number) what).settle source [.other number]
  (s.results.lookup number, s)

def dropFromOutside (source : EventSource β μ) (s : Session β μ) (number : Nat) : Session β μ :=
  match s.machine.drop? (.other number) with
  | some machine => { s with machine }.settle source []
  | none => s

/-- Pushes an event from outside, or drops the push when that cannot be done now. -/
def tryPush (source : EventSource β μ) (s : Session β μ) (number : Nat) (event : Value) :
    Option (Except StreamError Unit) × Session β μ :=
  match s.callFromOutside source number (.push (source.encode event)) with
  | (some result, s) => (some result, s)
  | (none, s) => (none, s.dropFromOutside source number)

/-- Sends the handler a message, after which everyone runs; tells whether the handler was still there. -/
def tell (source : EventSource β μ) (s : Session β μ) (message : μ) : Bool × Session β μ :=
  match s.handler with
  | .ended _ => (false, s)
  | _ => (true, { s with mailbox := s.mailbox ++ [message] }.settle source [])

end SchemaRpc.Session
