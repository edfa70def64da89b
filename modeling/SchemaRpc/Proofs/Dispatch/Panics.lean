import SchemaRpc.Proofs.Dispatch.Stream

/-!
# Handlers that panic

The code of a handler runs at two moments: in the call that makes what is to be run, and when this is run. A panic of the
second kind is answered like any other failure, with an error that tells nothing of its cause: for a unary procedure at once
and for an event stream when all have come to rest (`Dispatcher.StreamPanic`). A panic of the first kind
(`Admission.BreaksOff`) takes the exchange down with it, and is the only thing that does (`Dispatcher.answers_of_panic`).
-/

namespace SchemaRpc

variable {γ ω β μ : Type}

/-- The call of the handler panics, whatever kind of handler it is. -/
inductive Admission.BreaksOff (a : Admission γ ω β) (state after : ω) : Prop
  | unary (handle : Value → γ → ω → Entry (Ending Value) × ω) (endpoint : a.route.endpoint = .unary handle)
      (broke : handle a.params a.context state = (.brokeOff, after))
  | stream (start : Value → γ → ω → Entry β × ω) (endpoint : a.route.endpoint = .stream start)
      (broke : start a.params a.context state = (.brokeOff, after))

/-- The handler of a unary procedure panics when it is run. -/
def Admission.Panics (a : Admission γ ω β) (state after : ω) : Prop :=
  ∃ handle, a.route.endpoint = .unary handle ∧ handle a.params a.context state = (.entered .panicked, after)

namespace Dispatcher

variable {d : Dispatcher γ ω β} {request : Http.Request} {state : ω} {a : Admission γ ω β} {passage : Passage γ ω}

/-! ## Up to the handler -/

/-- Only a call of the handler can take an exchange down with it. -/
theorem Course.handler_mem {stages : List (Stage γ)} {s t : Situation γ ω β} {events : List (ExchangeEvent γ)}
    (course : d.Course request stages s events (.escaped t)) : .handler ∈ stages := by
  generalize reached : Outcome.escaped t = outcome at course
  induction course with
  | pass stage stages s s' event events outcome passes course inductionHypothesis =>
      exact List.mem_cons_of_mem _ (inductionHypothesis reached)
  | escape stage stages s s' event breaksOff =>
      obtain rfl := breaksOff.isHandler
      exact List.mem_cons_self
  | done | fail =>
      nomatch reached

theorem accept_ne_escaped : (d.accept request).run.run { state } ≠ (.error .escaped, passage) := by
  intro escaped
  cases @follows_accept γ ω β d request [] state with
  | completed events extra t value course ran related =>
      nomatch ran.symm.trans escaped
  | failed events stage error t course ran =>
      nomatch ran.symm.trans escaped
  | escaped events t course ran =>
      have member := course.handler_mem
      simp at member

/-! ## The call of the handler -/

section Answer

variable {events : List (ExchangeEvent γ)} {after : ω} {passage' : Passage γ ω}

theorem run_answer_of_breaksOff (broke : a.BreaksOff state after) :
    (d.answer request a).run.run ⟨events, state⟩ =
      (.error .escaped, ⟨events ++ [.handlerCalled a.context a.params false], after⟩) := by
  unfold answer
  cases broke with
  | unary handle endpoint broke =>
      have entered := run_enter a.context a.params (handle a.params a.context) events state
      rw [broke] at entered
      rw [endpoint]
      exact Pipeline.run_bind_of_error (Pipeline.run_bind_of_error entered)
  | stream start endpoint broke =>
      have entered := run_enter a.context a.params (start a.params a.context) events state
      rw [broke] at entered
      rw [endpoint]
      exact Pipeline.run_bind_of_error entered

theorem run_answer_of_panics (panics : a.Panics state after) :
    (d.answer request a).run.run ⟨events, state⟩ =
      (.error (.failed (some a.context) .internal),
        ⟨events ++ [.handlerCalled a.context a.params true], after⟩) := by
  obtain ⟨handle, endpoint, panicked⟩ := panics
  have entered := run_enter a.context a.params (handle a.params a.context) events state
  rw [panicked] at entered
  unfold answer
  rw [endpoint]
  exact Pipeline.run_bind_of_error (Pipeline.run_bind_of_ok entered)

/-- What a handler comes to is a response or a stream. -/
theorem run_answer_ne_escaped : (d.answer request a).run.run passage ≠ (.ok .escaped, passage') := by
  intro ran
  unfold answer at ran
  cases endpoint : a.route.endpoint with
  | unary handle =>
      rw [endpoint] at ran
      rcases answered : (d.answerUnary request a.route.procedure a.context a.params handle).run.run passage with
        ⟨halt | response, after⟩
      · nomatch (Pipeline.run_bind_of_error answered).symm.trans ran
      · nomatch (Pipeline.run_bind_of_ok answered).symm.trans ran
  | stream start =>
      rw [endpoint] at ran
      rcases entered : (enter a.context a.params (start a.params a.context)).run.run passage with ⟨halt | entry, after⟩
      · nomatch (Pipeline.run_bind_of_error entered).symm.trans ran
      · nomatch (Pipeline.run_bind_of_ok entered).symm.trans ran

/-- An exchange that is taken down has called a handler, and the call has panicked. -/
theorem breaksOff_of_run_answer (escaped : (d.answer request a).run.run ⟨events, state⟩ = (.error .escaped, passage)) :
    ∃ after, a.BreaksOff state after := by
  unfold answer at escaped
  cases endpoint : a.route.endpoint with
  | unary handle =>
      rw [endpoint] at escaped
      let s : Situation γ ω β := { route := some a.route, context := some a.context, params := a.params, state }
      have stands : s.At a.route a.context := ⟨rfl, rfl⟩
      cases @follows_answerUnary γ ω β d request s events a.route a.context handle stands endpoint with
      | completed events extra t value course ran related =>
          nomatch (Pipeline.run_bind_of_ok ran).symm.trans escaped
      | failed events stage error t course ran =>
          nomatch (Pipeline.run_bind_of_error ran).symm.trans escaped
      | escaped events t course ran =>
          cases course with
          | pass stage stages s s' event events outcome passes course =>
              have member := course.handler_mem
              simp at member
          | escape stage stages s s' event breaksOff =>
              obtain ⟨route, context, handle', after, ⟨sameRoute, sameContext⟩, unary, broke, -⟩ := breaksOff.broke
              obtain rfl : a.route = route := Option.some.inj sameRoute
              obtain rfl : a.context = context := Option.some.inj sameContext
              exact ⟨after, .unary handle' unary broke⟩
  | stream start =>
      rw [endpoint] at escaped
      have entered := run_enter a.context a.params (start a.params a.context) events state
      rcases called : start a.params a.context state with ⟨error | _ | value, after⟩
      all_goals rw [called] at entered
      · nomatch (Pipeline.run_bind_of_ok entered).symm.trans escaped
      · exact ⟨after, .stream start endpoint called⟩
      · nomatch (Pipeline.run_bind_of_ok entered).symm.trans escaped

end Answer

/-! ## The exchange -/

section Exchange

variable {after : ω}

theorem dispatch_of_breaksOff (accepted : (d.accept request).run.run { state } = (.ok a, passage))
    (broke : a.BreaksOff passage.state after) :
    d.dispatch request state =
      { procedure := some a.route.procedure.name
        events := passage.events ++ [.handlerCalled a.context a.params false]
        answer := .escaped
        state := after } := by
  unfold dispatch
  dsimp only
  rw [Pipeline.run_bind_of_ok accepted, run_answer_of_breaksOff broke, (way_of_accept accepted).1]
  rfl

theorem dispatch_of_panics (accepted : (d.accept request).run.run { state } = (.ok a, passage))
    (panics : a.Panics passage.state after) :
    d.dispatch request state =
      { procedure := some a.route.procedure.name
        events := passage.events ++ [.handlerCalled a.context a.params true,
          d.failure request (some a.route.procedure.name) (some a.context) .internal]
        answer := .response (.ofError .internal)
        state := after } := by
  unfold dispatch
  dsimp only
  rw [Pipeline.run_bind_of_ok accepted, run_answer_of_panics panics, (way_of_accept accepted).1]
  dsimp only
  rw [List.append_assoc]
  rfl

/-- On the way to the handler nothing is reported. -/
theorem filter_isReport_of_accept (accepted : (d.accept request).run.run { state } = (.ok a, passage))
    (later : List (ExchangeEvent γ)) :
    (passage.events ++ later).filter ExchangeEvent.isReport = later.filter ExchangeEvent.isReport := by
  rw [List.filter_append, filter_isReport_of_isStep (way_of_accept accepted).2, List.nil_append]

/-- Only a call that panics leaves an exchange without an answer. -/
theorem breaksOff_of_escaped (escaped : (d.dispatch request state).answer = .escaped) :
    ∃ a passage after, (d.accept request).run.run { state } = (.ok a, passage) ∧ a.BreaksOff passage.state after := by
  unfold dispatch at escaped
  dsimp only at escaped
  rcases accepted : (d.accept request).run.run { state } with ⟨(⟨context, error⟩ | _) | a, passage⟩
  · rw [Pipeline.run_bind_of_error accepted] at escaped
    nomatch escaped
  · exact absurd accepted accept_ne_escaped
  · rw [Pipeline.run_bind_of_ok accepted] at escaped
    rcases answered : (d.answer request a).run.run passage with ⟨(⟨context, error⟩ | _) | given, passage'⟩
    · rw [answered] at escaped
      nomatch escaped
    · obtain ⟨after, broke⟩ := breaksOff_of_run_answer answered
      exact ⟨a, passage, after, rfl, broke⟩
    · rw [answered] at escaped
      obtain rfl : given = .escaped := escaped
      exact absurd answered run_answer_ne_escaped

end Exchange

/-! ## Event streams -/

/-- What becomes of an event stream whose handler has panicked. -/
structure StreamPanic (d : Dispatcher γ ω β) (request : Http.Request) (state : ω) (opening : Opening γ β)
    (source : EventSource β μ) (turns : List Turn) (v : Viewing β μ) : Prop where
  /-- All come to rest, in whatever order they go on. -/
  comesToRest : ∃ more w, v.run? source more = some w ∧ more.countP Turn.isPass = 0 ∧ w.AtRest source
  bounded : ∀ more w, v.run? source more = some w →
    more.length ≤ v.weight (fun _ => 0) + 12 * more.countP Turn.isPass
  /-- The hooks hear at most once of it, and only that there was an error. -/
  told : d.reports request state opening v.toSession = [] ∨
    d.reports request state opening v.toSession = [d.reportOf request opening (.error .internal)]
  /-- The client gets a done frame only if the handler has asked for it before. -/
  done : .done ∈ v.frames → .close true ∈ v.moves
  /-- The stream is closed and the client has its response: the error, or the frames so far. -/
  atRest : v.AtRest source → ¬v.IsJammed →
    v.stream.phase = .closed ∧ d.StreamEnd request state opening source turns v (.error .internal)
  /-- Nothing but a ping that has come due can keep the dispatcher from closing the stream. -/
  jammed : v.IsJammed → .step .pinger ∈ turns ∧ ∃ millis, .pass millis ∈ turns

theorem streamPanic_of_run {opening : Opening γ β} {source : EventSource β μ} {turns : List Turn} {v : Viewing β μ}
    (opened : d.Opened request opening (d.dispatch request state)) (ran : (d.view opening).run? source turns = some v)
    (panicked : v.handler = .ended .panicked) : d.StreamPanic request state opening source turns v := by
  have streamed := streamed_of_run ran opened
  obtain ⟨comesToRest, bounded⟩ := Viewing.rest_of_ended source (kept_of_run ran) panicked
  have only {ending : Ending Unit} (ended : v.handler = .ended ending) : ending = .panicked :=
    HandlerState.ended.inj (ended.symm.trans panicked)
  constructor
  case comesToRest =>
    exact comesToRest
  case bounded =>
    exact bounded
  case told =>
    rcases streamed.told with quiet | ⟨ending, ended, told⟩
    · exact .inl quiet
    · obtain rfl := only ended
      exact .inr told
  case done =>
    exact fun read => streamed.done (streamed.frames.subset read)
  case atRest =>
    intro rest quiet
    obtain ⟨ending, ended, closed, ends⟩ := streamed.rest rest quiet (HandlerState.not_waits_of_ended panicked)
    obtain rfl := only ended
    exact ⟨closed, ends⟩
  case jammed =>
    exact streamed.jammed

/-- What a panic comes to. An exchange has no answer, and no report, exactly if the call of its handler panics. A panic of the
handler once it is run is answered with an error that tells nothing, by a response or by the end of an event stream. -/
theorem answers_of_panic (d : Dispatcher γ ω β) (request : Http.Request) (state : ω) :
    ((d.dispatch request state).answer = .escaped ↔
        ∃ a passage after, (d.accept request).run.run { state } = (.ok a, passage) ∧ a.BreaksOff passage.state after) ∧
      ((d.dispatch request state).answer = .escaped →
        (d.dispatch request state).events.filter ExchangeEvent.isReport = []) ∧
      (∀ a passage after, (d.accept request).run.run { state } = (.ok a, passage) → a.Panics passage.state after →
        d.dispatch request state =
            { procedure := some a.route.procedure.name
              events := passage.events ++ [.handlerCalled a.context a.params true,
                d.failure request (some a.route.procedure.name) (some a.context) .internal]
              answer := .response (.ofError .internal)
              state := after } ∧
          (d.dispatch request state).events.filter ExchangeEvent.isReport =
            [d.failure request (some a.route.procedure.name) (some a.context) .internal]) ∧
      ∀ opening, (d.dispatch request state).answer = .stream opening →
        ∀ {μ : Type} (next : β → Reply μ → β × Move) (turns : List Turn) (v : Viewing β μ),
          (d.view opening).run? (d.source opening next) turns = some v → v.handler = .ended .panicked →
            d.StreamPanic request state opening (d.source opening next) turns v := by
  refine ⟨⟨breaksOff_of_escaped, ?_⟩, ?_, ?_, ?_⟩
  · rintro ⟨a, passage, after, accepted, broke⟩
    rw [dispatch_of_breaksOff accepted broke]
  · intro escaped
    obtain ⟨a, passage, after, accepted, broke⟩ := breaksOff_of_escaped escaped
    rw [dispatch_of_breaksOff accepted broke]
    exact filter_isReport_of_accept accepted _
  · intro a passage after accepted panics
    have same := dispatch_of_panics accepted panics
    refine ⟨same, ?_⟩
    rw [same]
    exact filter_isReport_of_accept accepted _
  · intro opening answered μ next turns v ran panicked
    exact streamPanic_of_run (opened_dispatch answered) ran panicked

section Brittle

/-- The handler pushes one event and panics. -/
def brittleScript : Script where
  rest := [.push .null false, .panic]

/-- Handlers that panic, of both kinds and at both moments. -/
def brittle : Dispatcher Unit Unit Script where
  options := {}
  registry := {}
  routes := [
    ("/run", ⟨{ name := "run", path := "/run" }, .unary fun _ _ state => (.entered .panicked, state)⟩),
    ("/events", ⟨{ name := "events", path := "/events" }, .stream fun _ _ state => (.entered brittleScript, state)⟩),
    ("/call", ⟨{ name := "call", path := "/call" }, .unary fun _ _ state => (.brokeOff, state)⟩),
    ("/watch", ⟨{ name := "watch", path := "/watch" }, .stream fun _ _ state => (.brokeOff, state)⟩)]
  hooks := { createContext := fun _ _ => .ok () }

/-- What reaches the handler that panics when it is run. -/
def brittleAdmission : Admission Unit Unit Script where
  route := ⟨{ name := "run", path := "/run" }, .unary fun _ _ state => (.entered .panicked, state)⟩
  context := ()
  params := .absent

def brittleOpening : Opening Unit Script :=
  ⟨{ name := "events", path := "/events" }, (), .http11, .ok brittleScript⟩

def brittleSource : EventSource Script Unit :=
  brittle.source brittleOpening Script.next

/-- The client reads the event, and the end of the stream once the watcher has closed it. -/
def brittleTurns : List Turn :=
  List.replicate 8 (.step .handler) ++ [.step .dispatcher, .read] ++ List.replicate 10 (.step .watcher) ++
    [.read, .step .body, .step .body, .step .pinger, .step .pinger]

def brittleView : Viewing Script Unit :=
  ((brittle.view brittleOpening).run? brittleSource brittleTurns).getD (brittle.view brittleOpening)

theorem answers_of_panic_brittle :
    (∃ a passage after, (brittle.accept { path := "/run" }).run.run { state := () } = (.ok a, passage) ∧
        a.Panics passage.state after) ∧
      (brittle.dispatch { path := "/run" } ()).answer = .response (.ofError .internal) ∧
      (brittle.dispatch { path := "/events" } ()).answer = .stream brittleOpening ∧
      (brittle.view brittleOpening).run? brittleSource brittleTurns = some brittleView ∧
      brittleView.handler = .ended .panicked ∧ brittleView.AtRest brittleSource ∧
      brittleView.frames = [.message "\x7b\x7d"] ∧
      brittle.StreamPanic { path := "/events" } () brittleOpening brittleSource brittleTurns brittleView := by
  obtain ⟨-, -, answered, -⟩ := answers_of_panic brittle { path := "/run" } ()
  obtain ⟨-, -, -, streamed⟩ := answers_of_panic brittle { path := "/events" } ()
  have accepted : (brittle.accept { path := "/run" }).run.run { state := () } = (.ok brittleAdmission, _) := rfl
  have panics : brittleAdmission.Panics () () := ⟨_, rfl, rfl⟩
  have opened : (brittle.dispatch { path := "/events" } ()).answer = .stream brittleOpening := rfl
  have ran : (brittle.view brittleOpening).run? brittleSource brittleTurns = some brittleView := rfl
  have panicked : brittleView.handler = .ended .panicked := rfl
  have rest : brittleView.AtRest brittleSource :=
    Viewing.atRest_of_stuck (fun who => by cases who <;> rfl) rfl rfl
  have response : (brittle.dispatch { path := "/run" } ()).answer = .response (.ofError .internal) := by
    rw [(answered brittleAdmission _ () accepted panics).1]
  exact ⟨⟨brittleAdmission, _, (), accepted, panics⟩, response, opened, ran, panicked, rest, rfl,
    streamed _ opened Script.next _ _ ran panicked⟩

/-- After a panic in the call of a handler there is no response and no report. -/
theorem brittle_calls_escape :
    (brittle.dispatch { path := "/call" } ()).answer = .escaped ∧
      (brittle.dispatch { path := "/call" } ()).events.filter ExchangeEvent.isReport = [] ∧
      (brittle.dispatch { path := "/watch" } ()).answer = .escaped ∧
      (brittle.dispatch { path := "/watch" } ()).events.filter ExchangeEvent.isReport = [] :=
  ⟨rfl, rfl, rfl, rfl⟩

end Brittle

end Dispatcher

end SchemaRpc
