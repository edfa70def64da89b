import SchemaRpc.EventStream.Channel

/-!
# Operations on an event stream

What the parties do to a stream, in indivisible steps. An operation is the step that it has reached; between two
steps any other party may act. Main definitions: `Call`, what a party may ask for, and `Op.step`, one step.
-/

namespace SchemaRpc

inductive Call where
  /-- Sends an event, whose encoding may have failed. -/
  | push (event : Except CodecError String)
  /-- Closes the stream, with a last frame that tells the client when `notify` is set. -/
  | close (notify : Bool)
  | ping
  /-- Ends a stream that never started. -/
  | abandon
  /-- The request goes away before there is a body. -/
  | disconnect
  /-- The body goes away. -/
  | leave

inductive AfterStart where
  | encode (event : Except CodecError String)
  | close (notify : Bool)

inductive AfterLock where
  | send (frame : Frame)
  | take (notify : Bool)
  deriving DecidableEq

/-- Who noticed that the client is gone. -/
inductive Loser where
  /-- A write, which fails then. -/
  | write
  /-- The receiving end, which is dropped then. -/
  | receiver
  deriving DecidableEq

inductive Op where
  /-- A close looks whether the stream is closed already. -/
  | look (notify : Bool)
  /-- The first of all pushes and closes commits the response. -/
  | start (next : AfterStart)
  /-- Gives the signal for the head of the response and for the pings. -/
  | announce (next : AfterStart)
  | encode (event : Except CodecError String)
  | lock (next : AfterLock)
  | wait (next : AfterLock)
  | send (frame : Frame)
  /-- A close takes the sender out. -/
  | take (notify : Bool)
  | sendDone
  | dropSender
  | setClosed
  | release
  | cancel
  | giveUp
  | dropIdleSender
  /-- The body looks whether the stream is closed before it counts as lost. -/
  | leave
  | lose (loser : Loser)
  | noteLoss (loser : Loser)
  | dropLostSender (loser : Loser)
  | cancelLost (loser : Loser)
  | dropReceiver

namespace Call

def first : Call → Op
  | push event => .start (.encode event)
  | close notify => .look notify
  | ping => .lock (.send .ping)
  | abandon => .giveUp
  | disconnect => .lose .receiver
  | leave => .leave

end Call

inductive Progress where
  | blocked
  | next (op : Op) (s : EventStream)
  | finished (result : Except StreamError Unit) (s : EventStream)

namespace Op

def afterStart : AfterStart → Op
  | .encode event => .encode event
  | .close notify => .lock (.take notify)

def afterLock : AfterLock → Op
  | .send frame => .send frame
  | .take notify => .take notify

def afterLoss (s : EventStream) : Loser → Progress
  | .write => .finished (.error .closed) s
  | .receiver => .next .dropReceiver s

/-- Starts an idle stream. A push to a closed stream fails. -/
def startStep (next : AfterStart) (s : EventStream) : Progress :=
  match s.phase, next with
  | .idle, _ => .next (.announce next) { s with phase := .streaming }
  | .streaming, _ => .next (afterStart next) s
  | .closed, .encode _ => .finished (.error .closed) s
  | .closed, .close _ => .next (afterStart next) s

def sendStep (frame : Frame) (s : EventStream) : Progress :=
  if s.sender ≠ .present then .finished (.error .closed) s.release
  else if !s.receiving then .next (.lose .write) s.release
  else if s.slot.isSome then .blocked
  else .finished (.ok ()) (s.accept frame).release

def sendDoneStep (s : EventStream) : Progress :=
  if !s.receiving then .next .dropSender { s with peerGone := true }
  else if s.slot.isSome then .blocked
  else .next .dropSender (s.accept .done)

def takeStep (notify : Bool) (s : EventStream) : Progress :=
  if s.sender ≠ .present then .next .setClosed s
  else .next (if notify then .sendDone else .dropSender) { s with sender := .taken }

def step (me : Actor) (s : EventStream) : Op → Progress
  | look notify => if s.phase = .closed then .finished (.ok ()) s else .next (start (.close notify)) s
  | start next => startStep next s
  | announce next => .next (afterStart next) { s with announced := true }
  | encode (.error error) => .finished (.error (.encode error)) s
  | encode (.ok json) => .next (lock (.send (.message json))) s
  | lock next => .next (wait next) (s.ask me)
  | wait next => if s.holder = some me then .next (afterLock next) s else .blocked
  | send frame => sendStep frame s
  | take notify => takeStep notify s
  | sendDone => sendDoneStep s
  | dropSender => .next setClosed { s with sender := .gone }
  | setClosed => .next release { s with phase := .closed }
  | release => .next cancel s.release
  | cancel => .finished (.ok ()) { s with cancelled := true }
  | giveUp => .next dropIdleSender { s with phase := .closed }
  | dropIdleSender => .next cancel s.dropIfFree
  | leave => .next (if s.phase = .closed then dropReceiver else lose .receiver) s
  | lose loser =>
    if s.phase = .closed then afterLoss s loser else .next (noteLoss loser) { s with phase := .closed }
  | noteLoss loser => .next (dropLostSender loser) { s with peerGone := true }
  | dropLostSender loser => .next (cancelLost loser) s.dropIfFree
  | cancelLost loser => afterLoss { s with cancelled := true } loser
  | dropReceiver => .finished (.ok ()) { s with receiving := false, slot := none }

/-- The stream after an operation is dropped where it waits; none at the other steps, which do not wait. -/
def dropped? (me : Actor) (s : EventStream) : Op → Option EventStream
  | wait _ => some (s.withdraw me)
  | send _ => some s.release
  | sendDone => some { s with sender := .gone }.release
  | _ => none

end Op

end SchemaRpc
