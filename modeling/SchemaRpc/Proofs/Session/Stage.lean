import SchemaRpc.Proofs.Session.Viewing

/-!
# The stages of a session

How far the parties of a session have come together (`Session.Stage`), and what has been told of the end of the handler by
then (`Session.Told`). Also what a call that begins, goes on or returns does to the operations that the parties are in
(`Session.Manned`).
-/

namespace SchemaRpc

/-- The event tells how the handler has ended. -/
def SessionEvent.isOutcome {μ : Type} : SessionEvent μ → Bool
  | replied _ => false
  | completed | failed _ => true

/-- What is told of a handler that has ended so. -/
def SessionEvent.ofResult {μ : Type} : Except RpcError Unit → SessionEvent μ
  | .ok () => completed
  | .error error => failed error

namespace Session

variable {β μ : Type}

def outcomes (s : Session β μ) : List (SessionEvent μ) :=
  s.events.filter SessionEvent.isOutcome

/-- The end of the handler has been reported, unless it failed with the client gone. -/
def Told (s : Session β μ) (ending : Ending Unit) : Prop :=
  match ending.result with
  | .ok () => s.outcomes = [.completed]
  | .error error => s.outcomes = [.failed error] ∨ s.outcomes = [] ∧ s.stream.peerGone = true

/-- How far the parties have come: with a response that is an error, with the end of the handler before the response, or
with the response before the end of the handler. -/
inductive Stage (s : Session β μ) : Prop
  | waiting (dispatcher : s.dispatcher = .waiting) (watcher : s.watcher = .absent) (body : s.body = .absent)
      (quiet : s.outcomes = [])
  | abandoning (ending : Ending Unit) (error : RpcError) (dispatcher : s.dispatcher = .abandoning error)
      (watcher : s.watcher = .absent) (body : s.body = .absent) (handler : s.handler = .ended ending)
      (failed : ending.result = .error error) (quiet : s.outcomes = [])
  | refused (ending : Ending Unit) (error : RpcError) (dispatcher : s.dispatcher = .refused error)
      (watcher : s.watcher = .absent) (body : s.body = .absent) (handler : s.handler = .ended ending)
      (failed : ending.result = .error error) (told : s.outcomes = [.failed error])
  | closing (ending : Ending Unit) (dispatcher : s.dispatcher = .closing) (watcher : s.watcher = .absent)
      (body : s.body = .absent) (handler : s.handler = .ended ending) (told : s.Told ending)
  | answered (ending : Ending Unit) (dispatcher : s.dispatcher = .streaming) (watcher : s.watcher = .absent)
      (body : s.body ≠ .absent) (handler : s.handler = .ended ending) (told : s.Told ending)
  | watched (dispatcher : s.dispatcher = .streaming) (watcher : s.watcher = .waiting) (body : s.body ≠ .absent)
      (quiet : s.outcomes = [])
  | reporting (ending : Ending Unit) (dispatcher : s.dispatcher = .streaming) (watcher : s.watcher = .closing)
      (body : s.body ≠ .absent) (handler : s.handler = .ended ending) (told : s.Told ending)
  | finished (ending : Ending Unit) (dispatcher : s.dispatcher = .streaming) (watcher : s.watcher = .finished)
      (body : s.body ≠ .absent) (handler : s.handler = .ended ending) (told : s.Told ending)

/-- The response is an error, or is going to be one. -/
def IsRefusing (s : Session β μ) : Prop :=
  ∃ error, s.dispatcher = .abandoning error ∨ s.dispatcher = .refused error

/-- The client has dropped the body or come to its end. -/
def IsLeft (s : Session β μ) : Prop :=
  s.body = .leaving ∨ s.body = .gone

/-- Nothing is left to do but for the client. -/
def IsOver (s : Session β μ) : Prop :=
  (∃ error, s.dispatcher = .refused error) ∨
    s.dispatcher = .streaming ∧ (s.watcher = .absent ∨ s.watcher = .finished)

theorem not_isLeft_of_absent {s : Session β μ} (absent : s.body = .absent) : ¬s.IsLeft := by
  rw [IsLeft, absent]
  rintro (impossible | impossible) <;> nomatch impossible

section Stage

variable {s s' : Session β μ} {ending : Ending Unit}

/-- Where the dispatcher, the watcher and the body stand as before, the session has come as far as before. -/
theorem Stage.same (stage : s.Stage) (dispatcher : s'.dispatcher = s.dispatcher) (watcher : s'.watcher = s.watcher)
    (body : s'.body = .absent ↔ s.body = .absent)
    (handler : ∀ ending, s.handler = .ended ending → s'.handler = .ended ending)
    (outcomes : s'.outcomes = s.outcomes) (told : ∀ ending, s.Told ending → s'.Told ending) : s'.Stage := by
  cases stage with
  | waiting isDispatcher isWatcher isBody quiet =>
      exact .waiting (dispatcher.trans isDispatcher) (watcher.trans isWatcher) (body.mpr isBody) (outcomes.trans quiet)
  | abandoning ending error isDispatcher isWatcher isBody ended failed quiet =>
      exact .abandoning ending error (dispatcher.trans isDispatcher) (watcher.trans isWatcher) (body.mpr isBody)
        (handler ending ended) failed (outcomes.trans quiet)
  | refused ending error isDispatcher isWatcher isBody ended failed isTold =>
      exact .refused ending error (dispatcher.trans isDispatcher) (watcher.trans isWatcher) (body.mpr isBody)
        (handler ending ended) failed (outcomes.trans isTold)
  | closing ending isDispatcher isWatcher isBody ended isTold =>
      exact .closing ending (dispatcher.trans isDispatcher) (watcher.trans isWatcher) (body.mpr isBody)
        (handler ending ended) (told ending isTold)
  | answered ending isDispatcher isWatcher isBody ended isTold =>
      exact .answered ending (dispatcher.trans isDispatcher) (watcher.trans isWatcher) (mt body.mp isBody)
        (handler ending ended) (told ending isTold)
  | watched isDispatcher isWatcher isBody quiet =>
      exact .watched (dispatcher.trans isDispatcher) (watcher.trans isWatcher) (mt body.mp isBody)
        (outcomes.trans quiet)
  | reporting ending isDispatcher isWatcher isBody ended isTold =>
      exact .reporting ending (dispatcher.trans isDispatcher) (watcher.trans isWatcher) (mt body.mp isBody)
        (handler ending ended) (told ending isTold)
  | finished ending isDispatcher isWatcher isBody ended isTold =>
      exact .finished ending (dispatcher.trans isDispatcher) (watcher.trans isWatcher) (mt body.mp isBody)
        (handler ending ended) (told ending isTold)

theorem Stage.of_waiting (stage : s.Stage) (waits : s.dispatcher = .waiting) :
    s.watcher = .absent ∧ s.body = .absent ∧ s.outcomes = [] := by
  cases stage with
  | waiting dispatcher watcher body quiet =>
      exact ⟨watcher, body, quiet⟩
  | _ =>
      simp_all

theorem Stage.of_refusing (stage : s.Stage) (refusing : s.IsRefusing) :
    s.watcher = .absent ∧ s.body = .absent ∧ ∃ ending, s.handler = .ended ending := by
  obtain ⟨error, refusing⟩ := refusing
  cases stage with
  | abandoning ending error' dispatcher watcher body handler =>
      exact ⟨watcher, body, ending, handler⟩
  | refused ending error' dispatcher watcher body handler =>
      exact ⟨watcher, body, ending, handler⟩
  | _ =>
      simp_all

theorem Stage.of_closing (stage : s.Stage) (closing : s.dispatcher = .closing) :
    s.body = .absent ∧ ∃ ending, s.handler = .ended ending := by
  cases stage with
  | closing ending dispatcher watcher body handler =>
      exact ⟨body, ending, handler⟩
  | _ =>
      simp_all

theorem Stage.body_of_streaming (stage : s.Stage) (streaming : s.dispatcher = .streaming) : s.body ≠ .absent := by
  cases stage with
  | answered ending dispatcher watcher body | watched dispatcher watcher body
  | reporting ending dispatcher watcher body | finished ending dispatcher watcher body =>
      exact body
  | _ =>
      simp_all

/-- Nothing has been reported, or how the handler has ended. -/
theorem Stage.outcomes (stage : s.Stage) :
    s.outcomes = [] ∨ ∃ ending, s.handler = .ended ending ∧ s.outcomes = [.ofResult ending.result] := by
  have ofTold (ending : Ending Unit) (handler : s.handler = .ended ending) (told : s.Told ending) :
      s.outcomes = [] ∨ ∃ ending, s.handler = .ended ending ∧ s.outcomes = [.ofResult ending.result] := by
    unfold Told at told
    cases result : ending.result with
    | ok value =>
        rw [result] at told
        exact .inr ⟨ending, handler, told.trans (by rw [result]; rfl)⟩
    | error error =>
        rw [result] at told
        rcases told with reported | ⟨quiet, -⟩
        · exact .inr ⟨ending, handler, reported.trans (by rw [result]; rfl)⟩
        · exact .inl quiet
  cases stage with
  | waiting _ _ _ quiet | watched _ _ _ quiet | abandoning _ _ _ _ _ _ _ quiet =>
      exact .inl quiet
  | refused ending error _ _ _ handler failed told =>
      exact .inr ⟨ending, handler, told.trans (by rw [failed]; rfl)⟩
  | closing ending _ _ _ handler told | answered ending _ _ _ handler told | reporting ending _ _ _ handler told
  | finished ending _ _ _ handler told =>
      exact ofTold ending handler told

/-- What has been reported in the end. -/
theorem Stage.told (stage : s.Stage) (isOver : s.IsOver) (ended : s.handler = .ended ending) :
    (∃ error, s.dispatcher = .refused error ∧ ending.result = .error error ∧ s.outcomes = [.failed error]) ∨
      s.dispatcher = .streaming ∧ s.Told ending := by
  have same {ending' : Ending Unit} (handler : s.handler = .ended ending') : ending' = ending :=
    HandlerState.ended.inj (handler.symm.trans ended)
  cases stage with
  | refused ending' error dispatcher _ _ handler failed told =>
      obtain rfl := same handler
      exact .inl ⟨error, dispatcher, failed, told⟩
  | answered ending' dispatcher _ _ handler told | finished ending' dispatcher _ _ handler told =>
      obtain rfl := same handler
      exact .inr ⟨dispatcher, told⟩
  | watched dispatcher watcher | reporting ending' dispatcher watcher =>
      rcases isOver with ⟨error, impossible⟩ | ⟨-, impossible | impossible⟩ <;> simp_all
  | waiting dispatcher | abandoning _ _ dispatcher | closing _ dispatcher =>
      rcases isOver with ⟨error, impossible⟩ | ⟨impossible, -⟩ <;> simp_all

/-- The verdict tells the end of the handler. -/
theorem told_of_verdict (quiet : s.outcomes = []) (events : s'.events = s.events ++ s.verdict ending)
    (peerGone : s'.stream.peerGone = s.stream.peerGone) : s'.Told ending := by
  have outcomes : s'.outcomes = (s.verdict ending).filter SessionEvent.isOutcome := by
    rw [Session.outcomes, events, List.filter_append]
    change s.outcomes ++ _ = _
    rw [quiet, List.nil_append]
  unfold Told
  rw [outcomes, verdict]
  cases ending.result with
  | ok value =>
      rfl
  | error error =>
      dsimp only
      cases known : s.stream.peerGone with
      | true =>
          exact .inr ⟨rfl, peerGone.trans known⟩
      | false =>
          exact .inl rfl

theorem outcomes_replied (reply : Reply μ) (events : s'.events = s.events ++ [.replied reply]) :
    s'.outcomes = s.outcomes := by
  rw [outcomes, events, List.filter_append]
  exact List.append_nil _

end Stage

section Manned

variable {s s' : Session β μ} {who : Actor}

theorem Manned.works (manned : s.Manned) {op op' : Op} {stream : EventStream} (under : s.machine.op? who = some op)
    (stepped : op.step who s.stream = .next op' stream) :
    Manned { s with machine := { s.machine with stream }.reach who op' } := by
  constructor
  case serves =>
    intro other op'' underOther
    by_cases same : other = who
    · subst same
      rw [Machine.op?_reach_self] at underOther
      cases underOther
      obtain ⟨call, asks, serves⟩ := manned.serves other op under
      exact ⟨call, asks, (Op.leads_of_next stepped).serves serves⟩
    · rw [Machine.op?_reach_of_ne same] at underOther
      exact manned.serves other op'' underOther
  case busy =>
    intro other call asks
    by_cases same : other = who
    · subst same
      exact ⟨op', Machine.op?_reach_self⟩
    · obtain ⟨op'', underOther⟩ := manned.busy other call asks
      exact ⟨op'', (Machine.op?_reach_of_ne same).trans underOther⟩

/-- A party begins a call. -/
theorem Manned.calls (manned : s.Manned) {what : Call} (machine : s'.machine = s.machine.reach who what.first)
    (asks : s'.Asks who what) (others : ∀ other, other ≠ who → ∀ call, s'.Asks other call ↔ s.Asks other call) :
    s'.Manned := by
  constructor
  case serves =>
    intro other op under
    rw [machine] at under
    by_cases same : other = who
    · subst same
      rw [Machine.op?_reach_self] at under
      cases under
      exact ⟨what, asks, Op.serves_first what⟩
    · rw [Machine.op?_reach_of_ne same] at under
      obtain ⟨call, asked, serves⟩ := manned.serves other op under
      exact ⟨call, (others other same call).mpr asked, serves⟩
  case busy =>
    intro other call asked
    rw [machine]
    by_cases same : other = who
    · subst same
      exact ⟨what.first, Machine.op?_reach_self⟩
    · obtain ⟨op, under⟩ := manned.busy other call ((others other same call).mp asked)
      exact ⟨op, (Machine.op?_reach_of_ne same).trans under⟩

/-- A call returns. -/
theorem Manned.returns (manned : s.Manned) {stream : EventStream}
    (machine : ∀ other, s'.machine.op? other = ({ s.machine with stream }.forget who).op? other)
    (idle : ∀ call, ¬s'.Asks who call) (others : ∀ other, other ≠ who → ∀ call, s'.Asks other call ↔ s.Asks other call) :
    s'.Manned := by
  constructor
  case serves =>
    intro other op under
    rw [machine] at under
    by_cases same : other = who
    · subst same
      rw [Machine.op?_forget_self] at under
      nomatch under
    · rw [Machine.op?_forget_of_ne same] at under
      obtain ⟨call, asked, serves⟩ := manned.serves other op under
      exact ⟨call, (others other same call).mpr asked, serves⟩
  case busy =>
    intro other call asked
    rw [machine]
    by_cases same : other = who
    · subst same
      exact absurd asked (idle call)
    · obtain ⟨op, under⟩ := manned.busy other call ((others other same call).mp asked)
      exact ⟨op, (Machine.op?_forget_of_ne same).trans under⟩

/-- No call begins or returns. -/
theorem Manned.same (manned : s.Manned) (ops : s'.machine.ops = s.machine.ops)
    (asks : ∀ other call, s'.Asks other call ↔ s.Asks other call) : s'.Manned := by
  have same (other : Actor) : s'.machine.op? other = s.machine.op? other := by
    rw [Machine.op?, ops, Machine.op?]
  constructor
  case serves =>
    intro other op under
    obtain ⟨call, asked, serves⟩ := manned.serves other op ((same other).symm.trans under)
    exact ⟨call, (asks other call).mpr asked, serves⟩
  case busy =>
    intro other call asked
    obtain ⟨op, under⟩ := manned.busy other call ((asks other call).mp asked)
    exact ⟨op, (same other).trans under⟩

end Manned

end Session

end SchemaRpc
