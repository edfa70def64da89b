import SchemaRpc.EventStream.Basic

/-!
# The state of an event stream

All frames go through one sender into a channel with room for one frame. The sender is guarded by a lock that is
handed on in the order in which it was asked for, so at most one write is under way and nothing is written once the
sender is taken. Each function here is one indivisible step on the state that all parties share.
-/

namespace SchemaRpc

/-- The parties that act on a stream. -/
inductive Actor where
  /-- The procedure's own code. -/
  | handler
  /-- Turns the outcome of the handler, or the first write, into a response. -/
  | dispatcher
  /-- Waits for the handler once the response is on its way. -/
  | watcher
  | pinger
  /-- The body of the response. -/
  | body
  /-- Another holder of the handler's controller. -/
  | other (number : Nat)
  deriving DecidableEq, Inhabited

/-- The only sender of frames. -/
inductive Sender where
  /-- Behind the lock, for whoever holds it. -/
  | present
  /-- Taken out by a close that is going to send its last frame. -/
  | taken
  | gone
  deriving DecidableEq, Inhabited

structure EventStream where
  phase : Phase := .idle
  sender : Sender := .present
  /-- Who has the lock, or has been handed it. -/
  holder : Option Actor := none
  /-- Who waits for the lock, in order. -/
  queue : List Actor := []
  slot : Option Frame := none
  receiving : Bool := true
  announced : Bool := false
  /-- The done signal. -/
  cancelled : Bool := false
  /-- The client went away before the stream was closed. -/
  peerGone : Bool := false
  pingMillis : Nat
  /-- Every frame that ever entered the channel. -/
  accepted : List Frame := []
  deriving DecidableEq, Inhabited

namespace EventStream

def minPingMillis : Nat := 1

def new (pingMillis : Nat) : EventStream :=
  { pingMillis := max pingMillis minPingMillis }

def setPing (s : EventStream) (millis : Nat) : EventStream :=
  { s with pingMillis := max millis minPingMillis }

/-- Asks for the lock: it is given at once when free, and else in turn. -/
def ask (s : EventStream) (who : Actor) : EventStream :=
  match s.holder with
  | none => { s with holder := some who }
  | some _ => { s with queue := s.queue ++ [who] }

def release (s : EventStream) : EventStream :=
  { s with holder := s.queue.head?, queue := s.queue.tail }

/-- Gives up waiting for the lock, or the lock itself when it has been handed over. -/
def withdraw (s : EventStream) (who : Actor) : EventStream :=
  if s.holder = some who then s.release else { s with queue := s.queue.filter (· ≠ who) }

def accept (s : EventStream) (frame : Frame) : EventStream :=
  { s with slot := some frame, accepted := s.accepted ++ [frame] }

/-- Drops the sender unless the lock is held. -/
def dropIfFree (s : EventStream) : EventStream :=
  if s.holder.isNone then { s with sender := .gone } else s

/-- The channel ends: no frame is left and none can follow. -/
def ended (s : EventStream) : Bool :=
  s.slot.isNone && s.sender = .gone

@[simp]
theorem accepted_ask (s : EventStream) (who : Actor) : (s.ask who).accepted = s.accepted := by
  unfold ask
  split <;> rfl

@[simp]
theorem accepted_release (s : EventStream) : s.release.accepted = s.accepted := rfl

@[simp]
theorem accepted_withdraw (s : EventStream) (who : Actor) : (s.withdraw who).accepted = s.accepted := by
  unfold withdraw
  split <;> rfl

@[simp]
theorem accepted_dropIfFree (s : EventStream) : s.dropIfFree.accepted = s.accepted := by
  unfold dropIfFree
  split <;> rfl

@[simp]
theorem accepted_accept (s : EventStream) (frame : Frame) : (s.accept frame).accepted = s.accepted ++ [frame] := rfl

end EventStream

end SchemaRpc
