import SchemaRpc.Dispatch.Client
import SchemaRpc.EventStream.Script
import SchemaRpc.Proofs.Dispatch.Unary
import SchemaRpc.Proofs.Session.Outcome

/-!
# Requests for event streams

What becomes of a request whose answer is an event stream, however its parties take their turns. The hooks are told of the
end of the handler at most once, by the dispatcher or by the watcher (`Dispatcher.Streamed`). When all have come to rest, the
response is the error of a handler that failed with the stream idle, and else an event stream (`Dispatcher.StreamEnd`). All
come to rest, unless the handler goes on for ever (`Dispatcher.dispatch_stream`). The exception is a jam: there the
dispatcher closes the stream before the response while a ping waits for a reader, and neither goes on
(`Dispatcher.brief_unanswered`).
-/

namespace SchemaRpc

namespace Http

/-- The response begins as an event stream does. -/
structure Head.IsEventStream (head : Head) : Prop where
  status : head.status = 200
  contentType : head.headers.lookup "content-type" = some "text/event-stream"

theorem isEventStream_eventStreamHead (version : HttpVersion) : (eventStreamHead version).IsEventStream :=
  ⟨rfl, rfl⟩

end Http

/-- The event reports how an exchange has ended. -/
def ExchangeEvent.isReport {γ : Type} : ExchangeEvent γ → Bool
  | afterResponse _ _ | failed _ _ _ => true
  | _ => false

namespace Dispatcher

variable {γ ω β μ : Type}

/-! ## The way to the handler -/

section Way

variable {d : Dispatcher γ ω β} {request : Http.Request} {state : ω} {opening : Opening γ β}

/-- The steps of an exchange and the call of its handler. -/
structure Opened (d : Dispatcher γ ω β) (request : Http.Request) (opening : Opening γ β) (exchange : Exchange γ ω β) :
    Prop where
  steps : ∀ event ∈ exchange.events, event.IsStep
  called : ∃ params taken, .handlerCalled opening.context params taken ∈ exchange.events
  procedure : exchange.procedure = some opening.procedure.name
  version : opening.version = request.version

theorem opened_of_answer {a : Admission γ ω β} {events : List (ExchangeEvent γ)} {passage : Passage γ ω}
    (ran : (d.answer request a).run.run ⟨events, state⟩ = (.ok (.stream opening), passage)) :
    ∃ taken, passage.events = events ++ [.handlerCalled a.context a.params taken] ∧ opening.context = a.context ∧
      opening.procedure = a.route.procedure ∧ opening.version = request.version := by
  unfold answer at ran
  cases endpoint : a.route.endpoint with
  | unary handle =>
      rw [endpoint] at ran
      rcases answered : (d.answerUnary request a.route.procedure a.context a.params handle).run.run ⟨events, state⟩ with
        ⟨halt | response, after⟩
      · have same := (Pipeline.run_bind_of_error answered).symm.trans ran
        nomatch same
      · have same := (Pipeline.run_bind_of_ok answered).symm.trans ran
        nomatch same
  | stream start =>
      rw [endpoint] at ran
      have entered := run_enter a.context a.params (start a.params a.context) events state
      rcases called : start a.params a.context state with ⟨error | _ | value, after⟩
      all_goals rw [called] at entered
      · cases (Pipeline.run_bind_of_ok entered).symm.trans ran
        exact ⟨false, rfl, rfl, rfl, rfl⟩
      · nomatch (Pipeline.run_bind_of_error entered).symm.trans ran
      · cases (Pipeline.run_bind_of_ok entered).symm.trans ran
        exact ⟨true, rfl, rfl, rfl, rfl⟩

theorem opened_dispatch (answered : (d.dispatch request state).answer = .stream opening) :
    d.Opened request opening (d.dispatch request state) := by
  unfold dispatch at answered ⊢
  dsimp only at answered ⊢
  cases @follows_accept γ ω β d request [] state with
  | failed events stage error t course ran =>
      rw [Pipeline.run_bind_of_error ran] at answered
      nomatch answered
  | escaped events t course ran =>
      rw [Pipeline.run_bind_of_error ran] at answered
      nomatch answered
  | completed events extra t a course ran related =>
      obtain ⟨rfl, found, -⟩ := related
      rw [Pipeline.run_bind_of_ok ran] at answered ⊢
      rcases ranOn : (d.answer request a).run.run ⟨[] ++ events ++ [], t.state⟩ with
        ⟨(⟨context, error⟩ | _) | given, passage⟩
      all_goals rw [ranOn] at answered
      · nomatch answered
      · nomatch answered
      · obtain rfl : given = .stream opening := answered
        obtain ⟨taken, noted, context, procedure, version⟩ := opened_of_answer ranOn
        rw [List.nil_append, List.append_nil] at noted
        refine ⟨?_, ⟨a.params, taken, ?_⟩, ?_, version⟩
        · intro event member
          change event ∈ passage.events at member
          rw [noted] at member
          rcases List.mem_append.mp member with early | last
          · exact course.isStep event early
          · obtain rfl := List.mem_singleton.mp last
            trivial
        · change _ ∈ passage.events
          rw [noted, context]
          exact List.mem_append_right _ (List.mem_singleton_self _)
        · change (d.route? request.path).map _ = _
          rw [found, procedure]
          rfl

end Way

/-! ## What the hooks and the client learn -/

/-- The hook that is called for a handler that has ended so. -/
def reportOf (d : Dispatcher γ ω β) (request : Http.Request) (opening : Opening γ β) :
    Except RpcError Unit → ExchangeEvent γ
  | .ok () => .afterResponse opening.context .null
  | .error error =>
      .failed (some opening.context) error
        (d.hooks.onError request (some opening.procedure.name) (some opening.context) error)

def heard (d : Dispatcher γ ω β) (request : Http.Request) (opening : Opening γ β) :
    SessionEvent μ → Option (ExchangeEvent γ)
  | .replied _ => none
  | .completed => some (d.reportOf request opening (.ok ()))
  | .failed error => some (d.reportOf request opening (.error error))

/-- The reports of the end of the exchange, by its steps and by its session. -/
def reports (d : Dispatcher γ ω β) (request : Http.Request) (state : ω) (opening : Opening γ β) (s : Session β μ) :
    List (ExchangeEvent γ) :=
  ((d.dispatch request state).events ++ s.events.filterMap (d.heard request opening)).filter ExchangeEvent.isReport

/-- The session of an event stream together with its client. -/
def view (d : Dispatcher γ ω β) (opening : Opening γ β) : Viewing β μ :=
  { toSession := d.openSession opening }

/-- The client's side of the exchange. -/
def client (opening : Opening γ β) (s : Session β μ) : Client β μ :=
  { version := opening.version, session := some s }

variable {d : Dispatcher γ ω β} {request : Http.Request} {state : ω} {opening : Opening γ β} {s : Session β μ}

theorem filter_isReport_of_isStep {events : List (ExchangeEvent γ)} (steps : ∀ event ∈ events, event.IsStep) :
    events.filter ExchangeEvent.isReport = [] := by
  apply List.filter_eq_nil_iff.mpr
  intro event member
  have isStep := steps event member
  cases event with
  | afterResponse | failed =>
      exact isStep.elim
  | _ =>
      nofun

theorem reports_eq (opened : d.Opened request opening (d.dispatch request state)) :
    d.reports request state opening s = s.outcomes.filterMap (d.heard request opening) := by
  rw [reports, List.filter_append, filter_isReport_of_isStep opened.steps, List.nil_append, Session.outcomes,
    List.filter_filterMap, List.filterMap_filter]
  congr 1
  funext event
  cases event <;> rfl

theorem heard_ofResult (result : Except RpcError Unit) :
    ([.ofResult result] : List (SessionEvent μ)).filterMap (d.heard request opening) =
      [d.reportOf request opening result] := by
  cases result <;> rfl

/-! ## The end of a stream -/

/-- How the exchange has ended for the client and for the hooks. -/
inductive StreamEnd (d : Dispatcher γ ω β) (request : Http.Request) (state : ω) (opening : Opening γ β)
    (source : EventSource β μ) (turns : List Turn) (v : Viewing β μ) (result : Except RpcError Unit) : Prop
  /-- The handler failed while the stream was idle: the response is its error. -/
  | refused (error : RpcError) (failed : result = .error error)
      (early : (d.view opening).FailsEarly source turns error)
      (response : (client opening v.toSession).response? = some (.ofError error))
      (tells : (Http.Response.ofError error).Tells error)
      (nothing : v.stream.accepted = [] ∧ v.frames = [])
      (told : d.reports request state opening v.toSession = [d.reportOf request opening result])
  /-- The response is an event stream. -/
  | streamed (started : ∀ error, ¬(d.view opening).FailsEarly source turns error)
      (head : (client opening v.toSession).head? = some (eventStreamHead opening.version))
      (isEventStream : (eventStreamHead opening.version).IsEventStream)
      (whole : v.dropped = false → v.frames = v.stream.accepted)
      (told : d.reports request state opening v.toSession = [d.reportOf request opening result] ∨
        d.reports request state opening v.toSession = [] ∧ v.stream.peerGone = true ∧ ∃ error, result = .error error)

/-- What holds of the exchange after some turns. -/
structure Streamed (d : Dispatcher γ ω β) (request : Http.Request) (state : ω) (opening : Opening γ β)
    (source : EventSource β μ) (turns : List Turn) (v : Viewing β μ) : Prop where
  opened : d.Opened request opening (d.dispatch request state)
  /-- At most one report at any time, and none before the handler has ended. -/
  told : d.reports request state opening v.toSession = [] ∨
    ∃ ending, v.handler = .ended ending ∧
      d.reports request state opening v.toSession = [d.reportOf request opening ending.result]
  frames : v.frames <+: v.stream.accepted
  done : .done ∈ v.stream.accepted → .close true ∈ v.moves
  /-- The client counts as gone only if it has left the body. -/
  gone : v.stream.peerGone = true → v.IsLeft
  /-- Nothing but a ping that has come due can keep the dispatcher from closing the stream. -/
  jammed : v.IsJammed → .step .pinger ∈ turns ∧ ∃ millis, .pass millis ∈ turns
  /-- A jam at rest is for good: there is no response, and the stream is never closed. -/
  stuck : v.AtRest source → v.IsJammed → ∀ more w, v.run? source more = some w →
    (client opening w.toSession).response? = none ∧ (client opening w.toSession).head? = none ∧
      w.stream.phase ≠ .closed
  waited : v.handler.Waits → ∃ move ∈ v.moves, move.waits = true
  rest : v.AtRest source → ¬v.IsJammed → ¬v.handler.Waits →
    ∃ ending, v.handler = .ended ending ∧ v.stream.phase = .closed ∧
      d.StreamEnd request state opening source turns v ending.result

section End

variable {source : EventSource β μ} {turns : List Turn} {v : Viewing β μ} {ending : Ending Unit}
variable (opened : d.Opened request opening (d.dispatch request state)) (seen : v.Seen)

include opened

theorem reports_of_told (told : v.Told ending) :
    d.reports request state opening v.toSession = [d.reportOf request opening ending.result] ∨
      d.reports request state opening v.toSession = [] ∧ v.stream.peerGone = true ∧
        ∃ error, ending.result = .error error := by
  rw [reports_eq opened]
  unfold Session.Told at told
  cases result : ending.result with
  | ok value =>
      rw [result] at told
      rw [told]
      exact .inl rfl
  | error error =>
      rw [result] at told
      rcases told with reported | ⟨quiet, gone⟩
      · rw [reported]
        exact .inl rfl
      · rw [quiet]
        exact .inr ⟨rfl, gone, error, rfl⟩

include seen

/-- Where the dispatcher refuses the request, the client gets the error and nothing else. -/
theorem streamEnd_of_refused (kept : v.Kept) {error : RpcError} (refused : v.dispatcher = .refused error)
    (failed : ending.result = .error error) (early : (d.view opening).FailsEarly source turns error)
    (told : v.outcomes = [.failed error]) : d.StreamEnd request state opening source turns v ending.result := by
  have accepted : v.stream.accepted = [] := (kept.refusing ⟨error, .inr refused⟩).1
  refine .refused error failed early ?_ (Http.Response.tells_ofError error) ⟨accepted, ?_⟩ ?_
  · have dispatcher : (client opening v.toSession).session.map Session.dispatcher = some (.refused error) :=
      congrArg some refused
    rw [Client.response?, dispatcher]
    rfl
  · exact List.prefix_nil.mp (accepted ▸ seen.part)
  · rw [reports_eq opened, told, failed]
    rfl

theorem streamEnd_of_streaming (started : ∀ error, ¬(d.view opening).FailsEarly source turns error)
    (streaming : v.dispatcher = .streaming) (body : v.body = .gone) (told : v.Told ending) :
    d.StreamEnd request state opening source turns v ending.result := by
  refine .streamed started ?_ (Http.isEventStream_eventStreamHead opening.version)
    (fun undropped => (seen.whole undropped (.inr body)).1) (reports_of_told opened told)
  have isStreaming : (client opening v.toSession).isStreaming = true := by
    have dispatcher : (client opening v.toSession).session.map Session.dispatcher = some .streaming :=
      congrArg some streaming
    rw [Client.isStreaming, dispatcher]
  rw [Client.head?, isStreaming]
  rfl

end End

theorem unanswered_of_stuck {v : Viewing β μ} (stuck : v.Stuck) :
    (client opening v.toSession).response? = none ∧ (client opening v.toSession).head? = none ∧
      v.stream.phase ≠ .closed := by
  have dispatcher : (client opening v.toSession).session.map Session.dispatcher = some .closing :=
    congrArg some stuck.closing
  have response : (client opening v.toSession).response? = none := by
    rw [Client.response?, dispatcher]
    rfl
  have notStreaming : (client opening v.toSession).isStreaming = false := by
    rw [Client.isStreaming, dispatcher]
  refine ⟨response, ?_, stuck.unclosed⟩
  rw [Client.head?, notStreaming, response]
  rfl

theorem begins_view (d : Dispatcher γ ω β) (opening : Opening γ β) :
    Viewing.Begins (d.view opening : Viewing β μ).handler := by
  unfold view openSession
  cases opening.entry with
  | ok state =>
      exact .inl ⟨state, .entered, rfl⟩
  | error error =>
      exact .inr ⟨.failed (.ofCodecError error), rfl⟩

section Run

variable {source : EventSource β μ} {turns : List Turn} {v : Viewing β μ}
variable (ran : (d.view opening).run? source turns = some v)

include ran

theorem kept_of_run : v.Kept :=
  Viewing.Kept.run (Viewing.kept_start (begins_view d opening)) ran

theorem seen_of_run : v.Seen :=
  Viewing.seen_start.run (Viewing.kept_start (begins_view d opening)) ran

theorem failsEarly_view_iff {error : RpcError} :
    (d.view opening).FailsEarly source turns error ↔ v.Refuses error := by
  refine Viewing.failsEarly_iff (Viewing.kept_start (begins_view d opening)) ?_ ran
  rintro ⟨error, impossible | impossible⟩ <;> nomatch impossible

theorem streamEnd_of_rest (opened : d.Opened request opening (d.dispatch request state)) (rest : v.AtRest source)
    (quiet : ¬v.IsJammed) (moves : ¬v.handler.Waits) :
    ∃ ending, v.handler = .ended ending ∧ v.stream.phase = .closed ∧
      d.StreamEnd request state opening source turns v ending.result := by
  have kept := kept_of_run ran
  have seen := seen_of_run ran
  obtain ⟨ending, ended⟩ | waits := rest.handler kept quiet
  case inr =>
    exact absurd waits moves
  obtain ⟨isOver, closed, body⟩ := rest.isOver kept quiet ended
  refine ⟨ending, ended, closed, ?_⟩
  obtain ⟨error, refused, failed, told⟩ | ⟨streaming, told⟩ := kept.stage.told isOver ended
  · have refuses : v.Refuses error := ⟨⟨ending, ended, failed⟩, .inr ⟨error, .inr refused⟩⟩
    exact streamEnd_of_refused opened seen kept refused failed ((failsEarly_view_iff ran).mpr refuses) told
  · have notRefusing : ¬v.IsRefusing := by
      rintro ⟨error, impossible | impossible⟩ <;>
        · rw [streaming] at impossible
          nomatch impossible
    refine streamEnd_of_streaming opened seen (fun error early => ?_) streaming (body.resolve_left notRefusing) told
    obtain ⟨-, ⟨waits, -⟩ | refusing⟩ := (failsEarly_view_iff ran).mp early
    · rw [streaming] at waits
      nomatch waits
    · exact notRefusing refusing

theorem streamed_of_run (opened : d.Opened request opening (d.dispatch request state)) :
    d.Streamed request state opening source turns v where
  opened := opened
  told := by
    rw [reports_eq opened]
    rcases (kept_of_run ran).stage.outcomes with quiet | ⟨ending, ended, outcomes⟩
    · rw [quiet]
      exact .inl rfl
    · rw [outcomes, heard_ofResult]
      exact .inr ⟨ending, ended, rfl⟩
  frames := (seen_of_run ran).part
  done := fun done => (kept_of_run ran).backed.done done rfl
  gone := (kept_of_run ran).peer
  jammed := fun jammed =>
    ⟨Viewing.step_pinger_mem_of_isJammed rfl ran jammed,
      Viewing.pass_mem_of_isJammed (Viewing.kept_start (begins_view d opening)) ⟨nofun, nofun⟩ ran jammed⟩
  stuck := fun rest jammed _ _ later =>
    unanswered_of_stuck ((rest.stuck (kept_of_run ran) jammed).run later)
  waited := (Viewing.waited_start (begins_view d opening)).run (Viewing.kept_start (begins_view d opening)) ran
  rest := fun rest quiet moves => streamEnd_of_rest ran opened rest quiet moves

end Run

/-- The outcome of a request for an event stream, whatever its handler does and however all take their turns. -/
theorem dispatch_stream (d : Dispatcher γ ω β) (request : Http.Request) (state : ω) (opening : Opening γ β)
    (answered : (d.dispatch request state).answer = .stream opening) (next : β → Reply μ → β × Move) (rank : β → Nat)
    (ends : (d.source opening next).Ends rank) (turns : List Turn) (v : Viewing β μ)
    (ran : (d.view opening).run? (d.source opening next) turns = some v) :
    d.Streamed request state opening (d.source opening next) turns v ∧
      turns.length ≤ (d.view opening : Viewing β μ).weight rank + 12 * turns.countP Turn.isPass ∧
      ∃ more w, v.run? (d.source opening next) more = some w ∧ more.countP Turn.isPass = 0 ∧
        w.AtRest (d.source opening next) := by
  have kept := kept_of_run ran
  refine ⟨streamed_of_run ran (opened_dispatch answered), ?_, Viewing.exists_rest ends v kept⟩
  have length := Viewing.length_run (Viewing.kept_start (begins_view d opening)) ends ran
  exact Nat.le_trans (Nat.le_add_right _ _) length

section Ticking

/-- The handler pushes one event and closes the stream. -/
def tickingScript : Script where
  rest := [.push .null false, .close true]

def ticking : Dispatcher Unit Unit Script where
  options := {}
  registry := {}
  routes := [("/a", ⟨{ name := "a", path := "/a" }, .stream fun _ _ state => (.entered tickingScript, state)⟩)]
  hooks := { createContext := fun _ _ => .ok () }

def ticks : Opening Unit Script :=
  ⟨{ name := "a", path := "/a" }, (), .http11, .ok tickingScript⟩

def tickingSource : EventSource Script Unit :=
  ticking.source ticks Script.next

/-- The handler runs until the channel is full, then the response is there and the client reads it to its end. -/
def tickingTurns : List Turn :=
  List.replicate 13 (.step .handler) ++ [.step .dispatcher, .read] ++ List.replicate 6 (.step .handler) ++
    [.step .watcher, .step .watcher, .read, .read, .step .body, .step .body, .step .pinger, .step .pinger]

theorem dispatch_stream_ticking :
    (ticking.dispatch { path := "/a" } ()).answer = .stream ticks ∧
      tickingSource.Ends (fun script => script.rest.length) ∧
      ∃ v, (ticking.view ticks).run? tickingSource tickingTurns = some v ∧ v.AtRest tickingSource ∧
        v.frames = [.message "\x7b\x7d", .done] ∧
        ticking.Streamed { path := "/a" } () ticks tickingSource tickingTurns v := by
  have answered : (ticking.dispatch { path := "/a" } ()).answer = .stream ticks := rfl
  have ends : tickingSource.Ends (fun script => script.rest.length) := Script.ends _
  obtain ⟨streamed, -⟩ := dispatch_stream ticking { path := "/a" } () ticks answered Script.next _ ends tickingTurns _ rfl
  refine ⟨answered, ends, _, rfl, ?_, rfl, streamed⟩
  rintro (who | _ | millis | _ | _) notFree
  case step =>
    cases who <;> rfl
  all_goals first | rfl | nomatch notFree

end Ticking

section Brief

/-- The handler pushes one event and returns. -/
def briefScript : Script where
  rest := [.push .null false]

def brief : Dispatcher Unit Unit Script :=
  { ticking with
    routes := [("/a", ⟨{ name := "a", path := "/a" }, .stream fun _ _ state => (.entered briefScript, state)⟩)] }

def briefOpening : Opening Unit Script :=
  ⟨{ name := "a", path := "/a" }, (), .http11, .ok briefScript⟩

def briefSource : EventSource Script Unit :=
  brief.source briefOpening Script.next

/-- The dispatcher takes note of the end of the handler, and a ping comes due before it has closed the stream. -/
def briefTurns : List Turn :=
  List.replicate 8 (.step .handler) ++ [.step .pinger, .join, .pass 10000] ++ List.replicate 3 (.step .pinger) ++
    List.replicate 3 (.step .dispatcher)

def briefView : Viewing Script Unit :=
  ((brief.view briefOpening).run? briefSource briefTurns).getD (brief.view briefOpening)

/-- The handler has returned, but there is never a response and the stream is never closed. -/
theorem brief_unanswered :
    (brief.dispatch { path := "/a" } ()).answer = .stream briefOpening ∧
      briefSource.Ends (fun script => script.rest.length) ∧
      (brief.view briefOpening).run? briefSource briefTurns = some briefView ∧
      briefView.handler = .ended (.returned ()) ∧ briefView.AtRest briefSource ∧ briefView.IsJammed ∧
      ∀ more w, briefView.run? briefSource more = some w →
        (client briefOpening w.toSession).response? = none ∧ (client briefOpening w.toSession).head? = none ∧
          w.stream.phase ≠ .closed := by
  have answered : (brief.dispatch { path := "/a" } ()).answer = .stream briefOpening := rfl
  have ran : (brief.view briefOpening).run? briefSource briefTurns = some briefView := rfl
  have rest : briefView.AtRest briefSource :=
    Viewing.atRest_of_stuck (fun who => by cases who <;> rfl) rfl rfl
  have jammed : briefView.IsJammed := ⟨rfl, rfl⟩
  have streamed := streamed_of_run ran (opened_dispatch answered)
  exact ⟨answered, Script.ends _, ran, rfl, rest, jammed, streamed.stuck rest jammed⟩

end Brief

end Dispatcher

end SchemaRpc
