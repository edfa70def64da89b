import SchemaRpc.Proofs.Dispatch.Stages

/-!
# Unary requests

The dispatcher takes a unary request through its stages and reports how that ends (`Dispatcher.dispatch_unary`). The parts
of the pipeline are related to the stages one by one (`Dispatcher.Follows`), and put together as the pipeline is.
-/

namespace SchemaRpc

namespace Http.Response

/-- The response has a status and one JSON document as its body. -/
structure Carries (response : Response) (status : Nat) (body : Json) : Prop where
  status : response.status = status
  headers : response.headers = [("content-type", "application/json")]
  body : response.body = body.compress

/-- The response tells an error: its status is the code, if that is a status of errors, and its body has the code, the message
and the data that there is. -/
def Tells (response : Response) (error : RpcError) : Prop :=
  response.Carries (if 400 ≤ error.code.toNat ∧ error.code.toNat ≤ 599 then error.code.toNat else 500)
    (match error.data with
      | none => .obj [("code", .ofInt error.code.toNat), ("message", .str error.message)]
      | some data => .obj [("code", .ofInt error.code.toNat), ("message", .str error.message), ("data", data)])

theorem carries_json (status : Nat) (body : Json) : (json status body).Carries status body :=
  ⟨rfl, rfl, rfl⟩

theorem tells_ofError (error : RpcError) : (ofError error).Tells error := by
  obtain ⟨code, message, data⟩ := error
  constructor
  case status => simp [ofError, json, RpcError.status]
  case headers => rfl
  case body => cases data <;> rfl

end Http.Response

namespace Pipeline

variable {γ ω α δ : Type} {p : Pipeline γ ω α} {f : α → Pipeline γ ω δ} {passage passage' : Passage γ ω}

theorem run_bind_of_ok {value : α} (ran : p.run.run passage = (.ok value, passage')) :
    (p >>= f).run.run passage = (f value).run.run passage' := by
  simp only [ExceptT.run_bind, StateT.run_bind, ran]
  rfl

theorem run_bind_of_error {halt : Halt γ} (ran : p.run.run passage = (.error halt, passage')) :
    (p >>= f).run.run passage = (.error halt, passage') := by
  simp only [ExceptT.run_bind, StateT.run_bind, ran]
  rfl

theorem run_note (event : ExchangeEvent γ) (before : List (ExchangeEvent γ)) (state : ω) :
    (note event : Pipeline γ ω Unit).run.run ⟨before, state⟩ = (.ok (), ⟨before ++ [event], state⟩) :=
  rfl

@[simp]
theorem throw_bind (halt : Halt γ) : (throw halt : Pipeline γ ω α) >>= f = throw halt :=
  rfl

@[simp]
theorem orFail_ok (context : Option γ) (value : α) : (orFail context (.ok value) : Pipeline γ ω α) = pure value :=
  rfl

@[simp]
theorem orFail_error (context : Option γ) (error : RpcError) :
    (orFail context (.error error) : Pipeline γ ω α) = throw (.failed context error) :=
  rfl

@[simp]
theorem withContext_ok (context : γ) : (withContext (.ok (), context) : Pipeline γ ω γ) = pure context :=
  rfl

@[simp]
theorem withContext_error (error : RpcError) (context : γ) :
    (withContext (.error error, context) : Pipeline γ ω γ) = throw (.failed (some context) error) :=
  rfl

end Pipeline

namespace Dispatcher

variable {γ ω β α δ : Type} {d : Dispatcher γ ω β} {request : Http.Request}
variable {stage : Stage γ} {stages rest : List (Stage γ)} {s s' : Situation γ ω β} {event : ExchangeEvent γ}
variable {before : List (ExchangeEvent γ)}

/-- A part of the pipeline takes a request along a course: `rel` tells of its value, of what it notes beyond the course
and of the situation in which all stages are passed. -/
inductive Follows (d : Dispatcher γ ω β) (request : Http.Request) (stages : List (Stage γ)) (p : Pipeline γ ω α)
    (s : Situation γ ω β) (rel : α → List (ExchangeEvent γ) → Situation γ ω β → Prop) (before : List (ExchangeEvent γ)) :
    Prop
  | completed (events extra : List (ExchangeEvent γ)) (t : Situation γ ω β) (value : α)
      (course : d.Course request stages s events (.completed t))
      (ran : p.run.run ⟨before, s.state⟩ = (.ok value, ⟨before ++ events ++ extra, t.state⟩)) (related : rel value extra t)
  | failed (events : List (ExchangeEvent γ)) (stage : Stage γ) (error : RpcError) (t : Situation γ ω β)
      (course : d.Course request stages s events (.failed stage error t))
      (ran : p.run.run ⟨before, s.state⟩ = (.error (.failed t.context error), ⟨before ++ events, t.state⟩))
  | escaped (events : List (ExchangeEvent γ)) (t : Situation γ ω β)
      (course : d.Course request stages s events (.escaped t))
      (ran : p.run.run ⟨before, s.state⟩ = (.error .escaped, ⟨before ++ events, t.state⟩))

variable {p : Pipeline γ ω α} {rel : α → List (ExchangeEvent γ) → Situation γ ω β → Prop}

theorem Follows.done {value : α} (related : rel value [] s) : Follows d request [] (pure value) s rel before := by
  refine .completed [] [] s value (.done s) ?_ related
  rw [List.append_nil, List.append_nil]
  rfl

section Stage

variable {q : Pipeline γ ω δ} {f : δ → Pipeline γ ω α} {value : δ}

/-- The first part of a program passes a stage. -/
theorem Follows.step (passes : d.Passes request stage s event s')
    (ran : q.run.run ⟨before, s.state⟩ = (.ok value, ⟨before ++ [event], s'.state⟩))
    (follows : Follows d request stages (f value) s' rel (before ++ [event])) :
    Follows d request (stage :: stages) (q >>= f) s rel before := by
  have shift (events : List (ExchangeEvent γ)) : before ++ [event] ++ events = before ++ event :: events := by
    rw [List.append_assoc, List.singleton_append]
  cases follows with
  | completed events extra t value course ran' related =>
      refine .completed (event :: events) extra t value (.pass _ _ _ _ _ _ _ passes course) ?_ related
      rw [Pipeline.run_bind_of_ok ran, ran', shift]
  | failed events stage error t course ran' =>
      refine .failed (event :: events) stage error t (.pass _ _ _ _ _ _ _ passes course) ?_
      rw [Pipeline.run_bind_of_ok ran, ran', shift]
  | escaped events t course ran' =>
      refine .escaped (event :: events) t (.pass _ _ _ _ _ _ _ passes course) ?_
      rw [Pipeline.run_bind_of_ok ran, ran', shift]

/-- The first part of a program shows a stage at which the program fails then. -/
theorem Follows.stop {error : RpcError} (fails : d.Fails request stage s event error s')
    (ran : q.run.run ⟨before, s.state⟩ = (.ok value, ⟨before ++ [event], s'.state⟩))
    (throws : f value = throw (.failed s'.context error)) :
    Follows d request (stage :: stages) (q >>= f) s rel before := by
  refine .failed [event] stage error s' (.fail _ _ _ _ _ _ fails) ?_
  rw [Pipeline.run_bind_of_ok ran, throws]
  rfl

theorem Follows.pass (passes : d.Passes request stage s event s') (state : s'.state = s.state)
    (follows : ∀ before, Follows d request stages p s' rel before) :
    Follows d request (stage :: stages) (do Pipeline.note event; p) s rel before :=
  .step passes (by rw [state]; exact Pipeline.run_note event before s.state) (follows _)

theorem Follows.fail {error : RpcError} (fails : d.Fails request stage s event error s') (state : s'.state = s.state) :
    Follows d request (stage :: stages) (do Pipeline.note event; throw (.failed s'.context error)) s rel before :=
  .stop fails (by rw [state]; exact Pipeline.run_note event before s.state) rfl

end Stage

theorem Follows.bind {f : α → Pipeline γ ω δ} {rel' : δ → List (ExchangeEvent γ) → Situation γ ω β → Prop}
    (first : Follows d request stages p s rel before) (noExtra : ∀ value extra t, rel value extra t → extra = [])
    (next : ∀ value t before, rel value [] t → Follows d request rest (f value) t rel' before) :
    Follows d request (stages ++ rest) (p >>= f) s rel' before := by
  cases first with
  | failed events stage error t course ran =>
      exact .failed events stage error t (course.append_of_ended rfl rest) (Pipeline.run_bind_of_error ran)
  | escaped events t course ran =>
      exact .escaped events t (course.append_of_ended rfl rest) (Pipeline.run_bind_of_error ran)
  | completed events extra t value course ran related =>
      obtain rfl := noExtra value extra t related
      rw [List.append_nil] at ran
      cases next value t (before ++ events) related with
      | completed events' extra' t' value' course' ran' related' =>
          refine .completed (events ++ events') extra' t' value' (course.append course') ?_ related'
          rw [Pipeline.run_bind_of_ok ran, ran', ← List.append_assoc before]
      | failed events' stage error t' course' ran' =>
          refine .failed (events ++ events') stage error t' (course.append course') ?_
          rw [Pipeline.run_bind_of_ok ran, ran', ← List.append_assoc before]
      | escaped events' t' course' ran' =>
          refine .escaped (events ++ events') t' (course.append course') ?_
          rw [Pipeline.run_bind_of_ok ran, ran', ← List.append_assoc before]

theorem Follows.map {g : α → δ} {rel' : δ → List (ExchangeEvent γ) → Situation γ ω β → Prop}
    (follows : Follows d request stages p s rel before)
    (related : ∀ value extra t, rel value extra t → rel' (g value) extra t) :
    Follows d request stages (do return g (← p)) s rel' before := by
  cases follows with
  | completed events extra t value course ran holds =>
      exact .completed events extra t (g value) course (Pipeline.run_bind_of_ok ran) (related value extra t holds)
  | failed events stage error t course ran =>
      exact .failed events stage error t course (Pipeline.run_bind_of_error ran)
  | escaped events t course ran =>
      exact .escaped events t course (Pipeline.run_bind_of_error ran)

/-! ## The parts of the pipeline -/

theorem follows_middleware {route : Route γ ω β} (hooks : List (ContextHook γ)) (index : Nat) (context : γ)
    (stands : s.At route context) :
    Follows d request ((hooks.zipIdx index).map fun (hook, index) => .middleware index hook)
      (runMiddleware request route.procedure.name index hooks context) s
      (fun context extra t => extra = [] ∧ t.At route context) before := by
  induction hooks generalizing index context s before with
  | nil =>
      exact .done ⟨rfl, stands⟩
  | cons hook hooks inductionHypothesis =>
      rw [List.zipIdx_cons, List.map_cons, runMiddleware]
      rcases ran : hook request route.procedure.name context with ⟨error | value, after⟩
      · have fails := Fails.middleware (d := d) s index hook route context after error stands ran
        rw [Pipeline.withContext_error, Pipeline.throw_bind]
        exact .fail fails rfl
      · have passes := Passes.middleware (d := d) s index hook route context after stands ran
        refine .pass passes rfl fun before => ?_
        rw [Pipeline.withContext_ok, pure_bind]
        exact inductionHypothesis (index + 1) after ⟨stands.1, rfl⟩

/-- What is known when the params are decoded. -/
def Admits (d : Dispatcher γ ω β) (request : Http.Request) (a : Admission γ ω β) (extra : List (ExchangeEvent γ))
    (t : Situation γ ω β) : Prop :=
  extra = [] ∧ d.route? request.path = some a.route ∧ t.At a.route a.context ∧ t.params = a.params

/-- From the request hook on there is a route and a context. -/
theorem follows_admission {route : Route γ ω β} {context : γ} (found : d.route? request.path = some route)
    (stands : s.At route context) :
    Follows d request
      (.request :: .method ::
        (d.hooks.middleware.zipIdx.map (fun (hook, index) => .middleware index hook) ++ [.params]))
      (do
        Pipeline.note .requestSeen
        let context ← Pipeline.withContext (d.hooks.onRequest request route.procedure.name context)
        Pipeline.note .methodChecked
        if request.method ≠ route.procedure.method.token then throw (.failed (some context) .notFound)
        let context ← runMiddleware request route.procedure.name 0 d.hooks.middleware context
        Pipeline.note .paramsSought
        let params ← Pipeline.orFail (some context) (d.decodeParams route.procedure request)
        return { route, context, params })
      s (d.Admits request) before := by
  rcases seen : d.hooks.onRequest request route.procedure.name context with ⟨error | value, after⟩
  · have fails := Fails.request s route context after error stands seen
    rw [Pipeline.withContext_error, Pipeline.throw_bind]
    exact .fail fails rfl
  have passes := Passes.request s route context after stands seen
  refine .pass passes rfl fun before => ?_
  rw [Pipeline.withContext_ok, pure_bind]
  replace stands : Situation.At { s with context := some after } route after := ⟨stands.1, rfl⟩
  generalize { s with context := some after } = s at stands
  by_cases fits : request.method = route.procedure.method.token
  case neg =>
    have fails := Fails.method (d := d) s route after stands fits
    rw [if_pos fits, Pipeline.throw_bind, ← stands.2]
    exact .fail fails rfl
  have passes := Passes.method (d := d) s route after stands fits
  rw [if_neg (not_not_intro fits)]
  refine .pass passes rfl fun before => ?_
  refine Follows.bind (follows_middleware d.hooks.middleware 0 after stands) (fun _ _ _ related => related.1) ?_
  rintro context t before ⟨-, stands⟩
  cases decoded : d.decodeParams route.procedure request with
  | error error =>
      have fails := Fails.params t route context error stands decoded
      rw [Pipeline.orFail_error, Pipeline.throw_bind, ← stands.2]
      exact .fail fails rfl
  | ok params =>
      have passes := Passes.params t route context params stands decoded
      refine .pass passes rfl fun before => ?_
      exact .done ⟨rfl, found, stands, rfl⟩

theorem follows_accept (state : ω) :
    Follows d request
      (.route :: .context :: .request :: .method ::
        (d.hooks.middleware.zipIdx.map (fun (hook, index) => .middleware index hook) ++ [.params]))
      (d.accept request) { state } (d.Admits request) before := by
  unfold accept
  cases found : d.route? request.path with
  | none =>
      have fails := Fails.route ({ state } : Situation γ ω β) found
      exact .fail fails rfl
  | some route =>
      have passes := Passes.route ({ state } : Situation γ ω β) route found
      refine .pass passes rfl fun before => ?_
      dsimp only
      cases made : d.hooks.createContext request route.procedure.name with
      | error error =>
          have fails := Fails.context ({ route := some route, state } : Situation γ ω β) route error rfl made
          rw [Pipeline.orFail_error, Pipeline.throw_bind]
          exact .fail fails rfl
      | ok context =>
          have passes := Passes.context ({ route := some route, state } : Situation γ ω β) route context rfl made
          have stands : ({ route := some route, context := some context, state } : Situation γ ω β).At route context :=
            ⟨rfl, rfl⟩
          refine .pass passes rfl fun before => ?_
          rw [Pipeline.orFail_ok, pure_bind]
          exact follows_admission found stands

theorem procedure_dispatch (d : Dispatcher γ ω β) (request : Http.Request) (state : ω) :
    (d.dispatch request state).procedure = (d.route? request.path).map fun route => route.procedure.name := by
  unfold dispatch
  dsimp only
  split <;> rfl

section Accepted

variable {state : ω}

/-- A request that reaches a handler has come by the route of its path, and nothing is reported on the way. -/
theorem way_of_accept {a : Admission γ ω β} {passage : Passage γ ω}
    (accepted : (d.accept request).run.run { state } = (.ok a, passage)) :
    d.route? request.path = some a.route ∧ ∀ event ∈ passage.events, event.IsStep := by
  cases @follows_accept γ ω β d request [] state with
  | completed events extra t value course ran related =>
      cases ran.symm.trans accepted
      obtain ⟨rfl, found, -⟩ := related
      rw [List.nil_append, List.append_nil]
      exact ⟨found, course.isStep⟩
  | failed events stage error t course ran =>
      cases ran.symm.trans accepted
  | escaped events t course ran =>
      cases ran.symm.trans accepted

end Accepted

theorem run_enter (context : γ) (params : Value) (call : ω → Entry α × ω) (before : List (ExchangeEvent γ)) (state : ω) :
    (enter context params call).run.run ⟨before, state⟩ =
      match call state with
      | (.refused error, after) => (.ok (.error error), ⟨before ++ [.handlerCalled context params false], after⟩)
      | (.brokeOff, after) => (.error .escaped, ⟨before ++ [.handlerCalled context params false], after⟩)
      | (.entered value, after) => (.ok (.ok value), ⟨before ++ [.handlerCalled context params true], after⟩) := by
  have got : (get : Pipeline γ ω (Passage γ ω)).run.run ⟨before, state⟩ = (.ok ⟨before, state⟩, ⟨before, state⟩) := rfl
  rw [enter, Pipeline.run_bind_of_ok got]
  dsimp only
  rcases call state with ⟨error | _ | value, after⟩ <;> rfl

/-- The response hook, and the response once it has agreed. -/
theorem follows_before {route : Route γ ω β} {context : γ} (stands : s.At route context) :
    Follows d request [.before]
      (do
        Pipeline.note (.beforeResponse context s.body)
        Pipeline.orFail (some context) (d.hooks.beforeResponse request route.procedure.name context s.body)
        Pipeline.note (.afterResponse context s.body)
        return .json 200 s.body)
      s (fun response extra t => t.At route context ∧ response = Http.Response.json 200 t.body ∧
        extra = [.afterResponse context t.body])
      before := by
  cases allowed : d.hooks.beforeResponse request route.procedure.name context s.body with
  | error error =>
      have fails := Fails.before s route context error stands allowed
      rw [Pipeline.orFail_error, Pipeline.throw_bind, ← stands.2]
      exact .fail fails rfl
  | ok value =>
      have passes := Passes.before s route context stands allowed
      refine .completed _ [.afterResponse context s.body] s _ (.pass _ _ _ _ _ _ _ passes (.done s)) rfl ⟨stands, rfl, rfl⟩

theorem encodeResponse_of_error {p : Procedure} {v : Value} {name : String} {cause : CodecError}
    (response : p.response = some name) (refused : d.codec.encodeJson v (.ref name) = .error cause) :
    d.encodeResponse p v = .error .internal := by
  unfold encodeResponse
  rw [response]
  dsimp only
  rw [refused]
  rfl

theorem encodeResponse_of_ok {p : Procedure} {v : Value} {name : String} {body : Json}
    (response : p.response = some name) (encoded : d.codec.encodeJson v (.ref name) = .ok body) :
    d.encodeResponse p v = .ok body := by
  unfold encodeResponse
  rw [response]
  dsimp only
  rw [encoded]
  rfl

theorem follows_encode {route : Route γ ω β} {context : γ} (stands : s.At route context) :
    Follows d request [.encode, .before]
      (do
        Pipeline.note .responseEncoded
        let body ← Pipeline.orFail (some context) (d.encodeResponse route.procedure s.value)
        Pipeline.note (.beforeResponse context body)
        Pipeline.orFail (some context) (d.hooks.beforeResponse request route.procedure.name context body)
        Pipeline.note (.afterResponse context body)
        return .json 200 body)
      s (fun response extra t => t.At route context ∧ response = Http.Response.json 200 t.body ∧
        extra = [.afterResponse context t.body])
      before := by
  cases response : route.procedure.response with
  | none =>
      refine .pass (Passes.encodeNothing s route context stands response) rfl fun before => ?_
      rw [encodeResponse, response]
      dsimp only
      rw [Pipeline.orFail_ok, pure_bind]
      exact follows_before (s := { s with body := .obj [] }) stands
  | some name =>
      cases encoded : d.codec.encodeJson s.value (.ref name) with
      | error cause =>
          rw [encodeResponse_of_error response encoded, Pipeline.orFail_error, Pipeline.throw_bind, ← stands.2]
          exact .fail (Fails.encode s route context name cause stands response encoded) rfl
      | ok body =>
          refine .pass (Passes.encode s route context name body stands response encoded) rfl fun before => ?_
          rw [encodeResponse_of_ok response encoded, Pipeline.orFail_ok, pure_bind]
          exact follows_before (s := { s with body }) stands

/-- The handler and what comes after it. -/
theorem follows_answerUnary {route : Route γ ω β} {context : γ} {handle : Value → γ → ω → Entry (Ending Value) × ω}
    (stands : s.At route context) (unary : route.endpoint = .unary handle) :
    Follows d request [.handler, .encode, .before] (d.answerUnary request route.procedure context s.params handle) s
      (fun response extra t => t.At route context ∧ response = .json 200 t.body ∧ extra = [.afterResponse context t.body])
      before := by
  have ran := run_enter context s.params (handle s.params context) before s.state
  unfold answerUnary
  rcases called : handle s.params context s.state with ⟨error | _ | ending, after⟩
  all_goals rw [called] at ran
  · refine .stop (Fails.refused s route context handle error after stands unary called) ran ?_
    rw [← stands.2]
    rfl
  · have breaksOff : BreaksOff .handler s (.handlerCalled context s.params false) { s with state := after } :=
      ⟨rfl, route, context, handle, after, stands, unary, called, rfl, rfl⟩
    exact .escaped _ _ (.escape _ _ _ _ _ breaksOff) (Pipeline.run_bind_of_error ran)
  cases ending with
  | returned value =>
      exact .step (Passes.handler s route context handle value after stands unary called) ran
        (follows_encode (s := { s with value, state := after }) stands)
  | failed error =>
      refine .stop (Fails.handler s route context handle error after stands unary called) ran ?_
      rw [← stands.2]
      rfl
  | panicked =>
      refine .stop (Fails.panicked s route context handle after stands unary called) ran ?_
      rw [← stands.2]
      rfl

/-- The whole pipeline, for a request whose route, if there is one, has a unary handler. -/
theorem follows_pipeline (unary : ∀ route, d.route? request.path = some route → ∃ handle, route.endpoint = .unary handle)
    (state : ω) :
    Follows d request d.stages (do d.answer request (← d.accept request)) { state }
      (fun answer extra t => ∃ context, t.context = some context ∧ answer = .response (.json 200 t.body) ∧
        extra = [.afterResponse context t.body])
      before := by
  have split : d.stages =
      (.route :: .context :: .request :: .method ::
        (d.hooks.middleware.zipIdx.map (fun (hook, index) => .middleware index hook) ++ [.params])) ++
        [.handler, .encode, .before] := by
    simp [stages]
  rw [split]
  refine Follows.bind (follows_accept state) (fun _ _ _ related => related.1) ?_
  rintro a t before ⟨-, found, stands, params⟩
  obtain ⟨handle, endpoint⟩ := unary a.route found
  rw [answer, endpoint, ← params]
  refine Follows.map (follows_answerUnary stands endpoint) ?_
  rintro response extra t' ⟨stands', rfl, rfl⟩
  exact ⟨a.context, stands'.2, rfl, rfl⟩

/-- What the exchange shows of the course that it has taken: its steps, then one report, and the response. -/
inductive Reports (d : Dispatcher γ ω β) (request : Http.Request) (events : List (ExchangeEvent γ)) :
    Outcome γ ω β → Exchange γ ω β → Prop
  | completed (s : Situation γ ω β) (context : γ) (response : Http.Response) (known : s.context = some context)
      (carries : response.Carries 200 s.body) :
      Reports d request events (.completed s)
        { procedure := (d.route? request.path).map fun route => route.procedure.name
          events := events ++ [.afterResponse context s.body]
          answer := .response response
          state := s.state }
  | failed (stage : Stage γ) (error : RpcError) (s : Situation γ ω β) (observed : Observation) (response : Http.Response)
      (heard : observed =
        d.hooks.onError request ((d.route? request.path).map fun route => route.procedure.name) s.context error)
      (tells : response.Tells error) :
      Reports d request events (.failed stage error s)
        { procedure := (d.route? request.path).map fun route => route.procedure.name
          events := events ++ [.failed s.context error observed]
          answer := .response response
          state := s.state }
  | escaped (s : Situation γ ω β) :
      Reports d request events (.escaped s)
        { procedure := (d.route? request.path).map fun route => route.procedure.name
          events := events
          answer := .escaped
          state := s.state }

theorem reports_dispatch (unary : ∀ route, d.route? request.path = some route → ∃ handle, route.endpoint = .unary handle)
    (state : ω) :
    ∃ events outcome, d.Course request d.stages { state } events outcome ∧
      d.Reports request events outcome (d.dispatch request state) := by
  cases @follows_pipeline γ ω β d request [] unary state with
  | completed events extra t value course ran related =>
      obtain ⟨context, known, rfl, rfl⟩ := related
      refine ⟨events, .completed t, course, ?_⟩
      dsimp only [dispatch]
      rw [ran]
      exact .completed t context _ known (Http.Response.carries_json 200 t.body)
  | failed events stage error t course ran =>
      refine ⟨events, .failed stage error t, course, ?_⟩
      dsimp only [dispatch]
      rw [ran]
      exact .failed stage error t _ _ rfl (Http.Response.tells_ofError error)
  | escaped events t course ran =>
      refine ⟨events, .escaped t, course, ?_⟩
      dsimp only [dispatch]
      rw [ran]
      exact .escaped t

/-- A unary request takes the one course that there is for it, and the exchange reports how that ends. -/
theorem dispatch_unary (d : Dispatcher γ ω β) (request : Http.Request) (state : ω)
    (unary : ∀ route, d.route? request.path = some route → ∃ handle, route.endpoint = .unary handle) :
    ∃ events outcome, d.Course request d.stages { state } events outcome ∧
      (∀ events' outcome', d.Course request d.stages { state } events' outcome' →
        events' = events ∧ outcome' = outcome) ∧
      d.Reports request events outcome (d.dispatch request state) ∧
      (∀ event ∈ events, event.IsStep) ∧
      events.countP ExchangeEvent.isHandlerCall ≤ 1 ∧
      ∀ stage error s, outcome = .failed stage error s → (s.context = none ↔ stage = .route ∨ stage = .context) := by
  obtain ⟨events, outcome, course, reports⟩ := reports_dispatch unary state
  refine ⟨events, outcome, course, fun events' outcome' other => other.unique course, reports, course.isStep, ?_, ?_⟩
  · rw [← countP_isHandler_stages d]
    exact course.countP_isHandlerCall_le
  · rintro stage error s rfl
    exact course.context_eq_none_iff

section Refusal

/-- A procedure behind a middleware that lets nobody pass. -/
def guarded : Dispatcher Unit Unit Unit where
  options := {}
  registry := {}
  routes := [("/a", ⟨{ name := "a", path := "/a" }, .unary fun _ _ state => (.entered (.returned .null), state)⟩)]
  hooks := { createContext := fun _ _ => .ok (), middleware := [fun _ _ context => (.error (.forbidden "no"), context)] }

theorem dispatch_unary_guarded :
    (∀ route, guarded.route? "/a" = some route → ∃ handle, route.endpoint = .unary handle) ∧
      (∃ events outcome, guarded.Course { path := "/a" } guarded.stages { state := () } events outcome ∧
        guarded.Reports { path := "/a" } events outcome (guarded.dispatch { path := "/a" } ())) ∧
      (guarded.dispatch { path := "/a" } ()).events.length = 6 := by
  have unary : ∀ route, guarded.route? "/a" = some route → ∃ handle, route.endpoint = .unary handle := by
    rintro route found
    cases found
    exact ⟨_, rfl⟩
  obtain ⟨events, outcome, course, -, reports, -⟩ := dispatch_unary guarded { path := "/a" } () unary
  exact ⟨unary, ⟨events, outcome, course, reports⟩, rfl⟩

end Refusal

end Dispatcher

end SchemaRpc
