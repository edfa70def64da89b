import SchemaRpc.EventStream.Session.Schedule
import SchemaRpc.Proofs.EventStream.Line

/-!
# Viewings

A session together with the client that looks at its response, from the call of the handler on. Its parties take their
turns in any order (`Viewing.run?`): each of them goes one step on, the client reads a frame or drops the body, or time
passes. What one turn changes is said once, by the rules of `Viewing.Happens`.
-/

namespace SchemaRpc

namespace Session

variable {β μ : Type}

/-- The dispatcher takes note of the end of the handler first, also when the first write is there as well. -/
def join? (s : Session β μ) : Option (Session β μ) :=
  match s.dispatcher, s.handler with
  | .waiting, .ended ending => some (s.settleEarly ending)
  | _, _ => none

/-- Time passes, and the timers run out that are due then. -/
def elapse (s : Session β μ) (millis : Nat) : Session β μ :=
  { s with clock := s.clock + millis, timers := s.timers.filter fun (deadline, _) => s.clock + millis < deadline }

/-- The move that the handler makes when a party takes a step. -/
def moves (source : EventSource β μ) (s : Session β μ) : Actor → List Move
  | .handler =>
    match s.handler with
    | .moving state reply => [(source.next state reply).2]
    | _ => []
  | _ => []

/-- What is reported of the end of the handler once the stream has started. -/
def verdict (s : Session β μ) (ending : Ending Unit) : List (SessionEvent μ) :=
  match ending.result with
  | .ok () => [.completed]
  | .error error => if s.stream.peerGone then [] else [.failed error]

/-- The operation that a party waits for, by the state that it is in. -/
def Asks (s : Session β μ) : Actor → Call → Prop
  | .handler, call =>
    (∃ state, s.handler = .pushing state) ∧ (∃ event, call = .push event) ∨
      (∃ state, s.handler = .closing state) ∧ ∃ notify, call = .close notify
  | .dispatcher, call =>
    (∃ error, s.dispatcher = .abandoning error) ∧ call = .abandon ∨ s.dispatcher = .closing ∧ call = .close false
  | .watcher, call => s.watcher = .closing ∧ call = .close false
  | .pinger, call => s.pinger = .writing ∧ call = .ping
  | .body, call => s.body = .leaving ∧ call = .leave
  | .other _, _ => False

/-- The operations under way are those that the parties wait for. -/
structure Manned (s : Session β μ) : Prop where
  serves : ∀ who op, s.machine.op? who = some op → ∃ call, s.Asks who call ∧ op.Serves call
  busy : ∀ who call, s.Asks who call → ∃ op, s.machine.op? who = some op

variable {s : Session β μ} {who : Actor}

theorem Manned.free (manned : s.Manned) (idle : ∀ call, ¬s.Asks who call) : s.machine.op? who = none := by
  cases under : s.machine.op? who with
  | none =>
      rfl
  | some op =>
      obtain ⟨call, asks, -⟩ := manned.serves who op under
      exact absurd asks (idle call)

end Session

/-- What can happen next. -/
inductive Turn where
  | step (who : Actor)
  /-- The end of the handler reaches the dispatcher before the first write does. -/
  | join
  | pass (millis : Nat)
  /-- The client reads from the body, when there is something to read. -/
  | read
  /-- The client drops the body. -/
  | drop

/-- A session, what the client has read of its response and what the handler has done. -/
structure Viewing (β μ : Type) extends Session β μ where
  frames : List Frame := []
  moves : List Move := []
  dropped : Bool := false

namespace Viewing

variable {β μ : Type}

/-- A turn, unless it cannot be taken now. -/
def act? (source : EventSource β μ) (v : Viewing β μ) : Turn → Option (Viewing β μ)
  | .step who =>
    (v.step source who).map fun s => { v with toSession := s, moves := v.moves ++ v.toSession.moves source who }
  | .join => v.join?.map fun s => { v with toSession := s }
  | .pass millis => some { v with toSession := v.elapse millis }
  | .read =>
    match v.body, v.read with
    | .present, (.frame frame, s) => some { v with toSession := s, frames := v.frames ++ [frame] }
    | .present, (.ended, s) => some { v with toSession := s }
    | _, _ => none
  | .drop =>
    match v.body with
    | .present => some { v with toSession := v.dropBody, dropped := true }
    | _ => none

/-- Turns one after another, unless one of them cannot be taken. -/
def run? (source : EventSource β μ) (v : Viewing β μ) : List Turn → Option (Viewing β μ)
  | [] => some v
  | turn :: turns => (v.act? source turn).bind fun v => run? source v turns

/-- What becomes of a viewing in one turn. -/
inductive Happens (source : EventSource β μ) (v : Viewing β μ) : Viewing β μ → Prop
  /-- An operation goes on and does not return yet. -/
  | works (who : Actor) (op op' : Op) (s : EventStream) (under : v.machine.op? who = some op)
      (stepped : op.step who v.stream = .next op' s) :
      Happens source v { v with machine := { v.machine with stream := s }.reach who op' }
  | pushes (state state' : β) (reply : Reply μ) (event : Value) (free : v.machine.op? .handler = none)
      (moving : v.handler = .moving state reply) (next : source.next state reply = (state', .push event)) :
      Happens source v
        { v with
          machine := v.machine.reach .handler (Call.push (source.encode event)).first
          handler := .pushing state'
          moves := v.moves ++ [.push event] }
  | closes (state state' : β) (reply : Reply μ) (notify : Bool) (free : v.machine.op? .handler = none)
      (moving : v.handler = .moving state reply) (next : source.next state reply = (state', .close notify)) :
      Happens source v
        { v with
          machine := v.machine.reach .handler (Call.close notify).first
          handler := .closing state'
          moves := v.moves ++ [.close notify] }
  | setsPing (state state' : β) (reply : Reply μ) (millis : Nat) (moving : v.handler = .moving state reply)
      (next : source.next state reply = (state', .setPing millis)) :
      Happens source v
        { v with
          machine := { v.machine with stream := v.stream.setPing millis }
          handler := .moving state' .pingSet
          events := v.events ++ [.replied .pingSet]
          moves := v.moves ++ [.setPing millis] }
  | sleeps (state state' : β) (reply : Reply μ) (millis : Nat) (moving : v.handler = .moving state reply)
      (next : source.next state reply = (state', .sleep millis)) :
      Happens source v
        { v with
          handler := .sleeping state'
          timers := v.timers ++ [(v.clock + millis, .handler)]
          moves := v.moves ++ [.sleep millis] }
  | awaits (state state' : β) (reply : Reply μ) (move : Move) (waiting : HandlerState β μ)
      (moving : v.handler = .moving state reply) (next : source.next state reply = (state', move))
      (waits : waiting = .awaiting state' ∧ move = .awaitDone ∨
        ∃ untilDone, waiting = .receiving state' untilDone ∧ move = .receive untilDone) :
      Happens source v { v with handler := waiting, moves := v.moves ++ [move] }
  /-- A move that is over at once. -/
  | passes (state state' : β) (reply reply' : Reply μ) (move : Move) (moving : v.handler = .moving state reply)
      (next : source.next state reply = (state', move)) (short : move = .observe ∨ move = .sleep 0) :
      Happens source v
        { v with
          handler := .moving state' reply'
          events := v.events ++ [.replied reply']
          moves := v.moves ++ [move] }
  | finishes (state state' : β) (reply : Reply μ) (ending : Ending Unit) (moving : v.handler = .moving state reply)
      (next : source.next state reply = (state', .finish ending)) :
      Happens source v { v with handler := .ended ending, moves := v.moves ++ [.finish ending] }
  | replied (state : β) (reply : Reply μ) (op : Op) (result : Except StreamError Unit) (s : EventStream)
      (waits : v.handler = .pushing state ∨ v.handler = .closing state) (under : v.machine.op? .handler = some op)
      (stepped : op.step .handler v.stream = .finished result s) :
      Happens source v
        { v with
          machine := { v.machine with stream := s }.forget .handler
          handler := .moving state reply
          events := v.events ++ [.replied reply] }
  | wakes (state : β) (reply : Reply μ) (mailbox : List μ)
      (waits : v.handler = .sleeping state ∨ v.handler = .awaiting state ∨
        ∃ untilDone, v.handler = .receiving state untilDone) :
      Happens source v
        { v with
          mailbox
          handler := .moving state reply
          events := v.events ++ [.replied reply] }
  | streams (waits : v.dispatcher = .waiting) (announced : v.stream.announced = true) :
      Happens source v { v with dispatcher := .streaming, watcher := .waiting, body := .present }
  | abandons (ending : Ending Unit) (error : RpcError) (free : v.machine.op? .dispatcher = none)
      (waits : v.dispatcher = .waiting) (ended : v.handler = .ended ending) (failed : ending.result = .error error)
      (idle : v.stream.phase = .idle) :
      Happens source v
        { v with machine := v.machine.reach .dispatcher Call.abandon.first, dispatcher := .abandoning error }
  | settles (ending : Ending Unit) (free : v.machine.op? .dispatcher = none) (waits : v.dispatcher = .waiting)
      (ended : v.handler = .ended ending)
      (started : ∀ error, ending.result = .error error → v.stream.phase ≠ .idle) :
      Happens source v
        { v with
          machine := v.machine.reach .dispatcher (Call.close false).first
          dispatcher := .closing
          events := v.events ++ v.verdict ending }
  | refuses (error : RpcError) (op : Op) (result : Except StreamError Unit) (s : EventStream)
      (abandoning : v.dispatcher = .abandoning error) (under : v.machine.op? .dispatcher = some op)
      (stepped : op.step .dispatcher v.stream = .finished result s) :
      Happens source v
        { v with
          machine := { ({ v.machine with stream := s }.forget .dispatcher) with
            stream := { s with receiving := false, slot := none } }
          dispatcher := .refused error
          events := v.events ++ [.failed error] }
  | answers (op : Op) (result : Except StreamError Unit) (s : EventStream) (closing : v.dispatcher = .closing)
      (under : v.machine.op? .dispatcher = some op) (stepped : op.step .dispatcher v.stream = .finished result s) :
      Happens source v
        { v with
          machine := { v.machine with stream := s }.forget .dispatcher
          dispatcher := .streaming
          body := .present }
  /-- The watcher reports how the handler has ended, and closes the stream. -/
  | reports (ending : Ending Unit) (free : v.machine.op? .watcher = none) (waits : v.watcher = .waiting)
      (ended : v.handler = .ended ending) :
      Happens source v
        { v with
          machine := v.machine.reach .watcher (Call.close false).first
          watcher := .closing
          events := v.events ++ v.verdict ending }
  | watched (op : Op) (result : Except StreamError Unit) (s : EventStream) (closing : v.watcher = .closing)
      (under : v.machine.op? .watcher = some op) (stepped : op.step .watcher v.stream = .finished result s) :
      Happens source v
        { v with machine := { v.machine with stream := s }.forget .watcher, watcher := .finished }
  | rests (absent : v.pinger = .absent) (announced : v.stream.announced = true) :
      Happens source v
        { v with pinger := .sleeping, timers := v.timers ++ [(v.clock + v.stream.pingMillis, .pinger)] }
  | stops (sleeping : v.pinger = .sleeping) :
      Happens source v { v with pinger := .stopped, timers := v.timers.filter fun (_, actor) => actor ≠ .pinger }
  | pings (free : v.machine.op? .pinger = none) (sleeping : v.pinger = .sleeping)
      (awake : v.isAsleep .pinger = false) :
      Happens source v { v with machine := v.machine.reach .pinger Call.ping.first, pinger := .writing }
  | pinged (op : Op) (s : EventStream) (writing : v.pinger = .writing) (under : v.machine.op? .pinger = some op)
      (stepped : op.step .pinger v.stream = .finished (.ok ()) s) :
      Happens source v
        { v with
          machine := { v.machine with stream := s }.forget .pinger
          pinger := .sleeping
          timers := v.timers ++ [(v.clock + s.pingMillis, .pinger)] }
  | quits (op : Op) (error : StreamError) (s : EventStream) (writing : v.pinger = .writing)
      (under : v.machine.op? .pinger = some op) (stepped : op.step .pinger v.stream = .finished (.error error) s) :
      Happens source v
        { v with machine := { v.machine with stream := s }.forget .pinger, pinger := .stopped }
  | left (op : Op) (result : Except StreamError Unit) (s : EventStream) (leaving : v.body = .leaving)
      (under : v.machine.op? .body = some op) (stepped : op.step .body v.stream = .finished result s) :
      Happens source v { v with machine := { v.machine with stream := s }.forget .body, body := .gone }
  | receives (frame : Frame) (present : v.body = .present) (receiving : v.stream.receiving = true)
      (slot : v.stream.slot = some frame) :
      Happens source v
        { v with
          machine := { v.machine with stream := { v.stream with slot := none } }
          frames := v.frames ++ [frame] }
  | leaves (free : v.machine.op? .body = none) (present : v.body = .present) (dropped : Bool)
      (why : dropped = v.dropped ∧ v.stream.ended = true ∨ dropped = true) :
      Happens source v
        { v with machine := v.machine.reach .body Call.leave.first, body := .leaving, dropped }

variable {source : EventSource β μ} {v v' : Viewing β μ} {s : Session β μ} {who : Actor}

theorem advance_eq_some {after : Except StreamError Unit → Session β μ → Session β μ} {s' : Session β μ}
    (advanced : s.advance who after = some s') :
    ∃ op, s.machine.op? who = some op ∧
      ((∃ op' stream, op.step who s.stream = .next op' stream ∧
          s' = { s with machine := { s.machine with stream }.reach who op' }) ∨
        ∃ result stream, op.step who s.stream = .finished result stream ∧
          s' = after result { s with machine := { s.machine with stream }.forget who }) := by
  unfold Session.advance Machine.advance at advanced
  cases under : s.machine.op? who with
  | none =>
      rw [under] at advanced
      cases advanced
  | some op =>
      have sameStream : s.machine.stream = s.stream := rfl
      rw [under] at advanced
      refine ⟨op, rfl, ?_⟩
      dsimp only at advanced
      rw [sameStream] at advanced
      cases stepped : op.step who s.stream with
      | blocked =>
          rw [stepped] at advanced
          cases advanced
      | next op' stream =>
          rw [stepped] at advanced
          exact .inl ⟨op', stream, rfl, (Option.some.inj advanced).symm⟩
      | finished result stream =>
          rw [stepped] at advanced
          exact .inr ⟨result, stream, rfl, (Option.some.inj advanced).symm⟩

theorem call_of_free (free : s.machine.op? who = none) (what : Call) :
    s.call who what = { s with machine := s.machine.reach who what.first } := by
  rw [Session.call, Machine.call, free]

theorem report_eq (error : RpcError) :
    s.report error = { s with events := s.events ++ if s.stream.peerGone then [] else [.failed error] } := by
  unfold Session.report
  split
  · rw [List.append_nil]
  · rfl

/-! ## The turns of the parties -/

section Party

variable (manned : v.Manned)

include manned

theorem happens_of_perform {state state' : β} {reply : Reply μ} {move : Move} (moving : v.handler = .moving state reply)
    (next : source.next state reply = (state', move)) :
    v.Happens source { v with toSession := v.perform source state' move, moves := v.moves ++ [move] } := by
  have free : v.machine.op? .handler = none := by
    apply manned.free
    rintro call (⟨⟨state, pushing⟩, -⟩ | ⟨⟨state, closing⟩, -⟩)
    · rw [moving] at pushing
      nomatch pushing
    · rw [moving] at closing
      nomatch closing
  cases move with
  | push event =>
      have same := call_of_free (s := { v.toSession with handler := .pushing state' }) free (.push (source.encode event))
      rw [Session.perform, same]
      exact .pushes state state' reply event free moving next
  | close notify =>
      have same := call_of_free (s := { v.toSession with handler := .closing state' }) free (.close notify)
      rw [Session.perform, same]
      exact .closes state state' reply notify free moving next
  | setPing millis =>
      exact .setsPing state state' reply millis moving next
  | sleep millis =>
      cases millis with
      | zero =>
          exact .passes state state' reply .slept (.sleep 0) moving next (.inr rfl)
      | succ millis =>
          exact .sleeps state state' reply (millis + 1) moving next
  | awaitDone =>
      exact .awaits state state' reply .awaitDone _ moving next (.inl ⟨rfl, rfl⟩)
  | observe =>
      exact .passes state state' reply _ .observe moving next (.inl rfl)
  | receive untilDone =>
      exact .awaits state state' reply _ _ moving next (.inr ⟨untilDone, rfl, rfl⟩)
  | finish ending =>
      exact .finishes state state' reply ending moving next

theorem happens_of_handlerStep (stepped : v.handlerStep source = some s) :
    v.Happens source { v with toSession := s, moves := v.moves ++ v.toSession.moves source .handler } := by
  unfold Session.handlerStep at stepped
  unfold Session.moves
  cases handler : v.handler with
  | moving state reply =>
      rw [handler] at stepped
      cases stepped
      exact happens_of_perform manned handler rfl
  | pushing state =>
      rw [handler] at stepped
      dsimp only
      rw [List.append_nil]
      obtain ⟨op, under, ⟨op', stream, step, rfl⟩ | ⟨result, stream, step, rfl⟩⟩ := advance_eq_some stepped
      · exact .works .handler op op' stream under step
      · exact .replied state _ op result stream (.inl handler) under step
  | closing state =>
      rw [handler] at stepped
      dsimp only
      rw [List.append_nil]
      obtain ⟨op, under, ⟨op', stream, step, rfl⟩ | ⟨result, stream, step, rfl⟩⟩ := advance_eq_some stepped
      · exact .works .handler op op' stream under step
      · exact .replied state _ op result stream (.inr handler) under step
  | sleeping state =>
      rw [handler] at stepped
      dsimp only at stepped ⊢
      rw [List.append_nil]
      split at stepped <;> cases stepped
      exact .wakes state .slept v.mailbox (.inl handler)
  | awaiting state =>
      rw [handler] at stepped
      dsimp only at stepped ⊢
      rw [List.append_nil]
      split at stepped <;> cases stepped
      exact .wakes state .done v.mailbox (.inr (.inl handler))
  | receiving state untilDone =>
      rw [handler] at stepped
      dsimp only at stepped ⊢
      rw [List.append_nil]
      split at stepped
      · cases stepped
        exact .wakes state _ _ (.inr (.inr ⟨untilDone, handler⟩))
      · split at stepped <;> cases stepped
        exact .wakes state .done v.mailbox (.inr (.inr ⟨untilDone, handler⟩))
  | ended ending =>
      rw [handler] at stepped
      nomatch stepped

theorem happens_of_settleEarly {ending : Ending Unit} (waits : v.dispatcher = .waiting)
    (ended : v.handler = .ended ending) :
    v.Happens source { v with toSession := v.settleEarly ending } := by
  have free : v.machine.op? .dispatcher = none := by
    apply manned.free
    rintro call (⟨⟨error, abandoning⟩, -⟩ | ⟨closing, -⟩)
    · rw [waits] at abandoning
      nomatch abandoning
    · rw [waits] at closing
      nomatch closing
  unfold Session.settleEarly
  cases result : ending.result with
  | ok value =>
      have verdict : v.verdict ending = [.completed] := by
        rw [Session.verdict, result]
      have same := call_of_free (s := { v.record .completed with dispatcher := .closing }) free (.close false)
      have settled : v.Happens source _ := .settles ending free waits ended (by rw [result]; nofun)
      rw [verdict] at settled
      dsimp only
      rw [same]
      exact settled
  | error error =>
      dsimp only
      by_cases idle : v.stream.phase = .idle
      · have same := call_of_free (s := { v.toSession with dispatcher := .abandoning error }) free .abandon
        rw [if_pos idle, same]
        exact .abandons ending error free waits ended result idle
      · have settled : v.Happens source _ := .settles ending free waits ended fun _ _ => idle
        have reported : v.report error = { v.toSession with events := v.events ++ v.verdict ending } := by
          rw [report_eq, Session.verdict, result]
        have same := call_of_free (s := { v.report error with dispatcher := .closing })
          (by rw [reported]; exact free) (.close false)
        rw [if_neg idle, same, reported]
        exact settled

theorem happens_of_dispatcherStep (stepped : v.dispatcherStep = some s) :
    v.Happens source { v with toSession := s } := by
  unfold Session.dispatcherStep at stepped
  cases dispatcher : v.dispatcher with
  | waiting =>
      rw [dispatcher] at stepped
      dsimp only at stepped
      split at stepped
      · cases stepped
        exact .streams dispatcher ‹_›
      · split at stepped <;> cases stepped
        exact happens_of_settleEarly manned dispatcher ‹_›
  | abandoning error =>
      rw [dispatcher] at stepped
      obtain ⟨op, under, ⟨op', stream, step, rfl⟩ | ⟨result, stream, step, rfl⟩⟩ := advance_eq_some stepped
      · exact .works .dispatcher op op' stream under step
      · exact .refuses error op result stream dispatcher under step
  | closing =>
      rw [dispatcher] at stepped
      obtain ⟨op, under, ⟨op', stream, step, rfl⟩ | ⟨result, stream, step, rfl⟩⟩ := advance_eq_some stepped
      · exact .works .dispatcher op op' stream under step
      · exact .answers op result stream dispatcher under step
  | leaving =>
      rw [dispatcher] at stepped
      obtain ⟨op, under, -⟩ := advance_eq_some stepped
      obtain ⟨call, ⟨⟨error, abandoning⟩, -⟩ | ⟨closing, -⟩, -⟩ := manned.serves .dispatcher op under
      · rw [dispatcher] at abandoning
        nomatch abandoning
      · rw [dispatcher] at closing
        nomatch closing
  | streaming | refused | gone =>
      rw [dispatcher] at stepped
      nomatch stepped

theorem happens_of_watcherStep (stepped : v.watcherStep = some s) : v.Happens source { v with toSession := s } := by
  unfold Session.watcherStep at stepped
  cases watcher : v.watcher with
  | waiting =>
      have free : v.machine.op? .watcher = none := by
        apply manned.free
        rintro call ⟨closing, -⟩
        rw [watcher] at closing
        nomatch closing
      cases handler : v.handler with
      | ended ending =>
          have reported : v.Happens source _ := .reports ending free watcher handler
          have same := call_of_free (s := { v.toSession with watcher := .closing, events := v.events ++ v.verdict ending })
            free (.close false)
          rw [watcher, handler] at stepped
          dsimp only at stepped
          cases result : ending.result with
          | ok value =>
              have verdict : v.verdict ending = [.completed] := by
                rw [Session.verdict, result]
              rw [verdict] at reported same
              rw [result] at stepped
              cases stepped
              exact same ▸ reported
          | error error =>
              have verdict : v.verdict ending = if v.stream.peerGone then [] else [.failed error] := by
                rw [Session.verdict, result]
              rw [verdict] at reported same
              rw [result] at stepped
              dsimp only at stepped
              rw [report_eq] at stepped
              cases stepped
              exact same ▸ reported
      | _ =>
          rw [watcher, handler] at stepped
          nomatch stepped
  | closing =>
      rw [watcher] at stepped
      obtain ⟨op, under, ⟨op', stream, step, rfl⟩ | ⟨result, stream, step, rfl⟩⟩ := advance_eq_some stepped
      · exact .works .watcher op op' stream under step
      · exact .watched op result stream watcher under step
  | absent | finished =>
      rw [watcher] at stepped
      nomatch stepped

theorem happens_of_pingerStep (stepped : v.pingerStep = some s) : v.Happens source { v with toSession := s } := by
  unfold Session.pingerStep at stepped
  cases pinger : v.pinger with
  | absent =>
      rw [pinger] at stepped
      dsimp only at stepped
      split at stepped <;> cases stepped
      exact .rests pinger ‹_›
  | sleeping =>
      have free : v.machine.op? .pinger = none := by
        apply manned.free
        rintro call ⟨writing, -⟩
        rw [pinger] at writing
        nomatch writing
      rw [pinger] at stepped
      dsimp only at stepped
      split at stepped
      · cases stepped
        exact .stops pinger
      · split at stepped <;> cases stepped
        have same := call_of_free (s := { v.toSession with pinger := .writing }) free .ping
        rw [same]
        exact .pings free pinger (by simpa using ‹¬v.isAsleep .pinger = true›)
  | writing =>
      rw [pinger] at stepped
      obtain ⟨op, under, ⟨op', stream, step, rfl⟩ | ⟨result, stream, step, rfl⟩⟩ := advance_eq_some stepped
      · exact .works .pinger op op' stream under step
      · cases result with
        | ok value =>
            exact .pinged op stream pinger under step
        | error error =>
            exact .quits op error stream pinger under step
  | stopped =>
      rw [pinger] at stepped
      nomatch stepped

omit manned in
theorem happens_of_bodyStep (stepped : v.bodyStep = some s) : v.Happens source { v with toSession := s } := by
  unfold Session.bodyStep at stepped
  cases body : v.body with
  | leaving =>
      rw [body] at stepped
      obtain ⟨op, under, ⟨op', stream, step, rfl⟩ | ⟨result, stream, step, rfl⟩⟩ := advance_eq_some stepped
      · exact .works .body op op' stream under step
      · exact .left op result stream body under step
  | absent | present | gone =>
      rw [body] at stepped
      nomatch stepped

theorem happens_of_read (present : v.body = .present) {reading : Session.Reading} (read : v.read = (reading, s)) :
    (∀ frame, reading = .frame frame → v.Happens source { v with toSession := s, frames := v.frames ++ [frame] }) ∧
      (reading = .ended → v.Happens source { v with toSession := s }) := by
  have free : v.machine.op? .body = none := by
    apply manned.free
    rintro call ⟨leaving, -⟩
    rw [present] at leaving
    nomatch leaving
  unfold Session.read at read
  rw [present] at read
  dsimp only at read
  cases received : v.machine.receive? with
  | some result =>
      obtain ⟨frame, machine⟩ := result
      rw [received] at read
      cases read
      unfold Machine.receive? at received
      split at received
      · nomatch received
      · next receiving =>
        obtain ⟨frame', slot, same⟩ := Option.map_eq_some_iff.mp received
        cases same
        refine ⟨?_, nofun⟩
        rintro frame ⟨⟩
        have isReceiving : v.machine.stream.receiving = true := by
          simpa using receiving
        have happens : v.Happens source _ := .receives frame present isReceiving slot
        rw [present] at happens
        exact happens
  | none =>
      rw [received] at read
      dsimp only at read
      split at read
      · next ended =>
        cases read
        refine ⟨nofun, fun _ => ?_⟩
        have same := call_of_free (s := { v.toSession with body := .leaving }) free .leave
        rw [same]
        exact .leaves free present v.dropped (.inl ⟨rfl, ended⟩)
      · cases read
        exact ⟨nofun, nofun⟩

/-- Each turn keeps to the rules, or time passes. -/
theorem happens_of_act? {turn : Turn} (taken : v.act? source turn = some v') :
    v.Happens source v' ∨ ∃ millis, turn = .pass millis ∧ v' = { v with toSession := v.elapse millis } := by
  cases turn with
  | step who =>
      left
      obtain ⟨s, stepped, rfl⟩ := Option.map_eq_some_iff.mp taken
      cases who with
      | handler =>
          exact happens_of_handlerStep manned stepped
      | dispatcher =>
          have none : v.toSession.moves source .dispatcher = [] := rfl
          rw [none, List.append_nil]
          exact happens_of_dispatcherStep manned stepped
      | watcher =>
          have none : v.toSession.moves source .watcher = [] := rfl
          rw [none, List.append_nil]
          exact happens_of_watcherStep manned stepped
      | pinger =>
          have none : v.toSession.moves source .pinger = [] := rfl
          rw [none, List.append_nil]
          exact happens_of_pingerStep manned stepped
      | body =>
          have none : v.toSession.moves source .body = [] := rfl
          rw [none, List.append_nil]
          exact happens_of_bodyStep stepped
      | other number =>
          unfold Session.step at stepped
          obtain ⟨op, under, -⟩ := advance_eq_some stepped
          obtain ⟨call, nobody, -⟩ := manned.serves (.other number) op under
          exact nobody.elim
  | join =>
      left
      obtain ⟨s, joined, rfl⟩ := Option.map_eq_some_iff.mp taken
      unfold Session.join? at joined
      split at joined <;> cases joined
      exact happens_of_settleEarly manned ‹_› ‹_›
  | pass millis =>
      cases taken
      exact .inr ⟨millis, rfl, rfl⟩
  | read =>
      left
      unfold act? at taken
      dsimp only at taken
      cases body : v.body with
      | present =>
          rcases read : v.read with ⟨reading, s⟩
          obtain ⟨frames, ended⟩ := @happens_of_read _ _ source _ _ manned body _ read
          rw [body, read] at taken
          cases reading with
          | frame frame =>
              cases taken
              exact frames frame rfl
          | ended =>
              cases taken
              exact ended rfl
          | pending =>
              nomatch taken
      | _ =>
          rw [body] at taken
          nomatch taken
  | drop =>
      left
      unfold act? at taken
      dsimp only at taken
      cases body : v.body with
      | present =>
          have free : v.machine.op? .body = none := by
            apply manned.free
            rintro call ⟨leaving, -⟩
            rw [body] at leaving
            nomatch leaving
          have same := call_of_free (s := { v.toSession with body := .leaving }) free .leave
          rw [body] at taken
          cases taken
          rw [Session.dropBody, body]
          dsimp only
          rw [same]
          exact .leaves free body true (.inr rfl)
      | _ =>
          rw [body] at taken
          nomatch taken

end Party

end Viewing

end SchemaRpc
