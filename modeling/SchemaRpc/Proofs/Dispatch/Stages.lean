import SchemaRpc.Dispatch.Basic

/-!
# The stages of a unary request

What a request passes on its way to a response, stated without the program: the stages in their order
(`Dispatcher.stages`), when a stage lets a request pass (`Dispatcher.Passes`) and when it ends it (`Dispatcher.Fails`).
A course is a walk through the stages that stops at the first one that does not let the request pass
(`Dispatcher.Course`).
-/

namespace SchemaRpc

inductive Stage (γ : Type) where
  | route
  | context
  | request
  | method
  | middleware (index : Nat) (hook : ContextHook γ)
  | params
  | handler
  | encode
  | before

/-- What is known of a request so far. -/
structure Situation (γ ω β : Type) where
  route : Option (Route γ ω β) := none
  context : Option γ := none
  params : Value := .absent
  value : Value := .absent
  body : Json := .null
  state : ω

def Situation.At {γ ω β : Type} (s : Situation γ ω β) (route : Route γ ω β) (context : γ) : Prop :=
  s.route = some route ∧ s.context = some context

namespace ExchangeEvent

variable {γ : Type}

/-- The event is a step of the exchange, not a report of its end. -/
def IsStep : ExchangeEvent γ → Prop
  | afterResponse _ _ | failed _ _ _ => False
  | _ => True

def isHandlerCall : ExchangeEvent γ → Bool
  | handlerCalled _ _ _ => true
  | _ => false

end ExchangeEvent

def Stage.isHandler {γ : Type} : Stage γ → Bool
  | handler => true
  | _ => false

namespace Dispatcher

variable {γ ω β : Type}

def stages (d : Dispatcher γ ω β) : List (Stage γ) :=
  [.route, .context, .request, .method] ++
    d.hooks.middleware.zipIdx.map (fun (hook, index) => .middleware index hook) ++
    [.params, .handler, .encode, .before]

variable (d : Dispatcher γ ω β) (request : Http.Request)

/-- A stage lets the request pass: what is seen of it and what is known afterwards. -/
inductive Passes : Stage γ → Situation γ ω β → ExchangeEvent γ → Situation γ ω β → Prop
  | route (s : Situation γ ω β) (route : Route γ ω β) (found : d.route? request.path = some route) :
      Passes .route s .routeSought { s with route := some route }
  | context (s : Situation γ ω β) (route : Route γ ω β) (context : γ) (routed : s.route = some route)
      (made : d.hooks.createContext request route.procedure.name = .ok context) :
      Passes .context s .contextSought { s with context := some context }
  | request (s : Situation γ ω β) (route : Route γ ω β) (context after : γ) (stands : s.At route context)
      (seen : d.hooks.onRequest request route.procedure.name context = (.ok (), after)) :
      Passes .request s .requestSeen { s with context := some after }
  | method (s : Situation γ ω β) (route : Route γ ω β) (context : γ) (stands : s.At route context)
      (fits : request.method = route.procedure.method.token) :
      Passes .method s .methodChecked s
  | middleware (s : Situation γ ω β) (index : Nat) (hook : ContextHook γ) (route : Route γ ω β) (context after : γ)
      (stands : s.At route context) (ran : hook request route.procedure.name context = (.ok (), after)) :
      Passes (.middleware index hook) s (.middlewareRan index) { s with context := some after }
  | params (s : Situation γ ω β) (route : Route γ ω β) (context : γ) (params : Value) (stands : s.At route context)
      (decoded : d.decodeParams route.procedure request = .ok params) :
      Passes .params s .paramsSought { s with params }
  | handler (s : Situation γ ω β) (route : Route γ ω β) (context : γ)
      (handle : Value → γ → ω → Entry (Ending Value) × ω) (value : Value) (state : ω) (stands : s.At route context)
      (unary : route.endpoint = .unary handle)
      (returned : handle s.params context s.state = (.entered (.returned value), state)) :
      Passes .handler s (.handlerCalled context s.params true) { s with value, state }
  /-- A procedure without a response answers with the empty object. -/
  | encodeNothing (s : Situation γ ω β) (route : Route γ ω β) (context : γ) (stands : s.At route context)
      (nothing : route.procedure.response = none) :
      Passes .encode s .responseEncoded { s with body := .obj [] }
  | encode (s : Situation γ ω β) (route : Route γ ω β) (context : γ) (name : String) (body : Json)
      (stands : s.At route context) (response : route.procedure.response = some name)
      (encoded : d.codec.encodeJson s.value (.ref name) = .ok body) :
      Passes .encode s .responseEncoded { s with body }
  | before (s : Situation γ ω β) (route : Route γ ω β) (context : γ) (stands : s.At route context)
      (allowed : d.hooks.beforeResponse request route.procedure.name context s.body = .ok ()) :
      Passes .before s (.beforeResponse context s.body) s

/-- A stage ends the request with an error: what is seen of it and what is known then. -/
inductive Fails : Stage γ → Situation γ ω β → ExchangeEvent γ → RpcError → Situation γ ω β → Prop
  | route (s : Situation γ ω β) (missing : d.route? request.path = none) :
      Fails .route s .routeSought ⟨404, "Not found", none⟩ s
  | context (s : Situation γ ω β) (route : Route γ ω β) (error : RpcError) (routed : s.route = some route)
      (refused : d.hooks.createContext request route.procedure.name = .error error) :
      Fails .context s .contextSought error s
  | request (s : Situation γ ω β) (route : Route γ ω β) (context after : γ) (error : RpcError)
      (stands : s.At route context)
      (refused : d.hooks.onRequest request route.procedure.name context = (.error error, after)) :
      Fails .request s .requestSeen error { s with context := some after }
  | method (s : Situation γ ω β) (route : Route γ ω β) (context : γ) (stands : s.At route context)
      (differs : request.method ≠ route.procedure.method.token) :
      Fails .method s .methodChecked ⟨404, "Not found", none⟩ s
  | middleware (s : Situation γ ω β) (index : Nat) (hook : ContextHook γ) (route : Route γ ω β) (context after : γ)
      (error : RpcError) (stands : s.At route context)
      (refused : hook request route.procedure.name context = (.error error, after)) :
      Fails (.middleware index hook) s (.middlewareRan index) error { s with context := some after }
  | params (s : Situation γ ω β) (route : Route γ ω β) (context : γ) (error : RpcError) (stands : s.At route context)
      (refused : d.decodeParams route.procedure request = .error error) :
      Fails .params s .paramsSought error s
  /-- The handler does not take the params that were decoded. -/
  | refused (s : Situation γ ω β) (route : Route γ ω β) (context : γ)
      (handle : Value → γ → ω → Entry (Ending Value) × ω) (error : CodecError) (state : ω) (stands : s.At route context)
      (unary : route.endpoint = .unary handle)
      (refused : handle s.params context s.state = (.refused error, state)) :
      Fails .handler s (.handlerCalled context s.params false) (.ofCodecError error) { s with state }
  | handler (s : Situation γ ω β) (route : Route γ ω β) (context : γ)
      (handle : Value → γ → ω → Entry (Ending Value) × ω) (error : RpcError) (state : ω) (stands : s.At route context)
      (unary : route.endpoint = .unary handle)
      (failed : handle s.params context s.state = (.entered (.failed error), state)) :
      Fails .handler s (.handlerCalled context s.params true) error { s with state }
  /-- A panic tells nothing about its cause. -/
  | panicked (s : Situation γ ω β) (route : Route γ ω β) (context : γ)
      (handle : Value → γ → ω → Entry (Ending Value) × ω) (state : ω) (stands : s.At route context)
      (unary : route.endpoint = .unary handle)
      (panicked : handle s.params context s.state = (.entered .panicked, state)) :
      Fails .handler s (.handlerCalled context s.params true) ⟨500, "Internal server error", none⟩ { s with state }
  | encode (s : Situation γ ω β) (route : Route γ ω β) (context : γ) (name : String) (cause : CodecError)
      (stands : s.At route context) (response : route.procedure.response = some name)
      (failed : d.codec.encodeJson s.value (.ref name) = .error cause) :
      Fails .encode s .responseEncoded ⟨500, "Internal server error", none⟩ s
  | before (s : Situation γ ω β) (route : Route γ ω β) (context : γ) (error : RpcError) (stands : s.At route context)
      (refused : d.hooks.beforeResponse request route.procedure.name context s.body = .error error) :
      Fails .before s (.beforeResponse context s.body) error s

/-- The call of the handler breaks off before the handler runs, and takes the exchange down with it. -/
structure BreaksOff (stage : Stage γ) (s : Situation γ ω β) (event : ExchangeEvent γ) (s' : Situation γ ω β) :
    Prop where
  isHandler : stage = .handler
  broke : ∃ route context handle state, s.At route context ∧ route.endpoint = .unary handle ∧
    handle s.params context s.state = (.brokeOff, state) ∧
    event = .handlerCalled context s.params false ∧ s' = { s with state }

/-- How a walk through the stages comes to its end. -/
inductive Outcome (γ ω β : Type) where
  | completed (s : Situation γ ω β)
  | failed (stage : Stage γ) (error : RpcError) (s : Situation γ ω β)
  | escaped (s : Situation γ ω β)

def Outcome.isCompleted {γ ω β : Type} : Outcome γ ω β → Bool
  | completed _ => true
  | _ => false

/-- The stages are passed one after another up to the first that does not let the request pass. -/
inductive Course : List (Stage γ) → Situation γ ω β → List (ExchangeEvent γ) → Outcome γ ω β → Prop
  | done (s : Situation γ ω β) :
      Course [] s [] (.completed s)
  | pass (stage : Stage γ) (stages : List (Stage γ)) (s s' : Situation γ ω β) (event : ExchangeEvent γ)
      (events : List (ExchangeEvent γ)) (outcome : Outcome γ ω β) (passes : d.Passes request stage s event s')
      (course : Course stages s' events outcome) :
      Course (stage :: stages) s (event :: events) outcome
  | fail (stage : Stage γ) (stages : List (Stage γ)) (s s' : Situation γ ω β) (event : ExchangeEvent γ)
      (error : RpcError) (fails : d.Fails request stage s event error s') :
      Course (stage :: stages) s [event] (.failed stage error s')
  | escape (stage : Stage γ) (stages : List (Stage γ)) (s s' : Situation γ ω β) (event : ExchangeEvent γ)
      (breaksOff : BreaksOff stage s event s') :
      Course (stage :: stages) s [event] (.escaped s')

/-! ## Laws of courses -/

variable {d request}
variable {stage : Stage γ} {stages rest : List (Stage γ)} {s s' t t' : Situation γ ω β} {event event' : ExchangeEvent γ}
variable {events events' : List (ExchangeEvent γ)} {outcome outcome' : Outcome γ ω β} {error error' : RpcError}

theorem Passes.unique (passes : d.Passes request stage s event s') (again : d.Passes request stage s event' t') :
    event = event' ∧ s' = t' := by
  cases passes <;> cases again <;> simp_all [Situation.At]

theorem Fails.unique (fails : d.Fails request stage s event error s') (again : d.Fails request stage s event' error' t') :
    event = event' ∧ error = error' ∧ s' = t' := by
  cases fails <;> cases again <;> simp_all [Situation.At]

theorem Fails.not_passes (fails : d.Fails request stage s event error s') : ¬d.Passes request stage s event' t' := by
  intro passes
  cases fails <;> cases passes <;> simp_all [Situation.At]

theorem BreaksOff.unique (breaksOff : BreaksOff stage s event s') (again : BreaksOff stage s event' t') :
    event = event' ∧ s' = t' := by
  obtain ⟨route, context, handle, state, stands, unary, broke, rfl, rfl⟩ := breaksOff.broke
  obtain ⟨route', context', handle', state', stands', unary', broke', rfl, rfl⟩ := again.broke
  simp_all [Situation.At]

theorem BreaksOff.not_passes (breaksOff : BreaksOff stage s event s') : ¬d.Passes request stage s event' t' := by
  intro passes
  obtain ⟨rfl, route, context, handle, state, stands, unary, broke, rfl, rfl⟩ := breaksOff
  cases passes
  simp_all [Situation.At]

theorem BreaksOff.not_fails (breaksOff : BreaksOff stage s event s') : ¬d.Fails request stage s event' error t' := by
  intro fails
  obtain ⟨rfl, route, context, handle, state, stands, unary, broke, rfl, rfl⟩ := breaksOff
  cases fails <;> simp_all [Situation.At]

/-- A situation has one course. -/
theorem Course.unique (course : d.Course request stages s events outcome)
    (again : d.Course request stages s events' outcome') : events = events' ∧ outcome = outcome' := by
  induction course generalizing events' outcome' with
  | done s =>
      cases again
      exact ⟨rfl, rfl⟩
  | pass stage stages s s' event events outcome passes course inductionHypothesis =>
      cases again with
      | pass stage stages s t' event' events' outcome' passes' course' =>
          obtain ⟨rfl, rfl⟩ := passes.unique passes'
          obtain ⟨rfl, rfl⟩ := inductionHypothesis course'
          exact ⟨rfl, rfl⟩
      | fail stage stages s t' event' error fails =>
          exact absurd passes fails.not_passes
      | escape stage stages s t' event' breaksOff =>
          exact absurd passes breaksOff.not_passes
  | fail stage stages s s' event error fails =>
      cases again with
      | pass stage stages s t' event' events' outcome' passes =>
          exact absurd passes fails.not_passes
      | fail stage stages s t' event' error' fails' =>
          obtain ⟨rfl, rfl, rfl⟩ := fails.unique fails'
          exact ⟨rfl, rfl⟩
      | escape stage stages s t' event' breaksOff =>
          exact absurd fails breaksOff.not_fails
  | escape stage stages s s' event breaksOff =>
      cases again with
      | pass stage stages s t' event' events' outcome' passes =>
          exact absurd passes breaksOff.not_passes
      | fail stage stages s t' event' error fails =>
          exact absurd fails breaksOff.not_fails
      | escape stage stages s t' event' breaksOff' =>
          obtain ⟨rfl, rfl⟩ := breaksOff.unique breaksOff'
          exact ⟨rfl, rfl⟩

/-- Where the stages before are passed, the course goes on with those after. -/
theorem Course.append (course : d.Course request stages s events (.completed t))
    (later : d.Course request rest t events' outcome) :
    d.Course request (stages ++ rest) s (events ++ events') outcome := by
  generalize reached : Outcome.completed t = middle at course
  induction course with
  | done s =>
      cases reached
      exact later
  | pass stage stages s s' event events outcome passes course inductionHypothesis =>
      exact .pass stage _ s s' event _ _ passes (inductionHypothesis reached)
  | fail | escape =>
      nomatch reached

/-- Where one of the stages before ends the request, those after are not reached. -/
theorem Course.append_of_ended (course : d.Course request stages s events outcome)
    (ended : outcome.isCompleted = false) (rest : List (Stage γ)) :
    d.Course request (stages ++ rest) s events outcome := by
  induction course with
  | done s =>
      nomatch ended
  | pass stage stages s s' event events outcome passes course inductionHypothesis =>
      exact .pass stage _ s s' event events outcome passes (inductionHypothesis ended)
  | fail stage stages s s' event error fails =>
      exact .fail stage _ s s' event error fails
  | escape stage stages s s' event breaksOff =>
      exact .escape stage _ s s' event breaksOff

theorem Course.isStep (course : d.Course request stages s events outcome) : ∀ event ∈ events, event.IsStep := by
  induction course with
  | done =>
      nofun
  | pass stage stages s s' event events outcome passes course inductionHypothesis =>
      refine List.forall_mem_cons.mpr ⟨?_, inductionHypothesis⟩
      cases passes <;> trivial
  | fail stage stages s s' event error fails =>
      refine List.forall_mem_singleton.mpr ?_
      cases fails <;> trivial
  | escape stage stages s s' event breaksOff =>
      obtain ⟨route, context, handle, state, stands, unary, broke, rfl, rfl⟩ := breaksOff.broke
      exact List.forall_mem_singleton.mpr trivial

theorem Passes.isHandlerCall (passes : d.Passes request stage s event s') : event.isHandlerCall = stage.isHandler := by
  cases passes <;> rfl

theorem Fails.isHandlerCall (fails : d.Fails request stage s event error s') :
    event.isHandlerCall = stage.isHandler := by
  cases fails <;> rfl

theorem BreaksOff.isHandlerCall (breaksOff : BreaksOff stage s event s') : event.isHandlerCall = stage.isHandler := by
  obtain ⟨rfl, route, context, handle, state, stands, unary, broke, rfl, rfl⟩ := breaksOff
  rfl

/-- The handler is called no more often than the stages say. -/
theorem Course.countP_isHandlerCall_le (course : d.Course request stages s events outcome) :
    events.countP ExchangeEvent.isHandlerCall ≤ stages.countP Stage.isHandler := by
  induction course with
  | done =>
      exact Nat.le_refl _
  | pass stage stages s s' event events outcome passes course inductionHypothesis =>
      rw [List.countP_cons, List.countP_cons, passes.isHandlerCall]
      exact Nat.add_le_add_right inductionHypothesis _
  | fail stage stages s s' event error fails =>
      rw [List.countP_cons, List.countP_cons, fails.isHandlerCall]
      exact Nat.add_le_add_right (Nat.zero_le _) _
  | escape stage stages s s' event breaksOff =>
      rw [List.countP_cons, List.countP_cons, breaksOff.isHandlerCall]
      exact Nat.add_le_add_right (Nat.zero_le _) _

theorem countP_isHandler_stages (d : Dispatcher γ ω β) : d.stages.countP Stage.isHandler = 1 := by
  have none : (d.hooks.middleware.zipIdx.map fun (hook, index) => Stage.middleware index hook).countP Stage.isHandler = 0 := by
    rw [List.countP_eq_zero]
    intro stage member
    obtain ⟨entry, -, rfl⟩ := List.mem_map.mp member
    nofun
  rw [stages, List.countP_append, List.countP_append, none]
  rfl

/-! ### The context -/

def Outcome.situation : Outcome γ ω β → Situation γ ω β
  | completed s | failed _ _ s | escaped s => s

/-- A context once made stays, changed or not, to the end of the course. -/
theorem Course.isSome_context (course : d.Course request stages s events outcome) (known : s.context.isSome = true) :
    outcome.situation.context.isSome = true := by
  induction course with
  | done =>
      exact known
  | pass stage stages s s' event events outcome passes course inductionHypothesis =>
      apply inductionHypothesis
      cases passes <;> first | exact known | rfl
  | fail stage stages s s' event error fails =>
      cases fails <;> first | exact known | rfl
  | escape stage stages s s' event breaksOff =>
      obtain ⟨route, context, handle, state, stands, unary, broke, rfl, rfl⟩ := breaksOff.broke
      exact known

theorem Course.failed_mem {stage : Stage γ} (course : d.Course request stages s events (.failed stage error t)) :
    stage ∈ stages := by
  generalize reached : Outcome.failed stage error t = outcome at course
  induction course with
  | pass first stages s s' event events outcome passes course inductionHypothesis =>
      exact List.mem_cons_of_mem _ (inductionHypothesis reached)
  | fail first stages s s' event error fails =>
      cases reached
      exact List.mem_cons_self
  | done | escape =>
      nomatch reached

/-- The stages at which there is a context. -/
def laterStages (d : Dispatcher γ ω β) : List (Stage γ) :=
  [.request, .method] ++ d.hooks.middleware.zipIdx.map (fun (hook, index) => .middleware index hook) ++
    [.params, .handler, .encode, .before]

theorem ne_of_mem_laterStages (member : stage ∈ d.laterStages) : stage ≠ .route ∧ stage ≠ .context := by
  simp only [laterStages, List.mem_append, List.mem_cons, List.not_mem_nil, or_false, List.mem_map] at member
  rcases member with ((rfl | rfl) | ⟨entry, -, rfl⟩) | rfl | rfl | rfl | rfl <;> exact ⟨nofun, nofun⟩

/-- A request fails without a context exactly where its route is looked up or its context is made. -/
theorem Course.context_eq_none_iff {state : ω}
    (course : d.Course request d.stages { state } events (.failed stage error t)) :
    t.context = none ↔ stage = .route ∨ stage = .context := by
  change d.Course request (.route :: .context :: d.laterStages) { state } events (.failed stage error t) at course
  cases course with
  | fail stage stages s s' event error fails =>
      cases fails
      simp
  | pass stage stages s s' event events outcome passes course =>
      cases passes
      cases course with
      | fail stage stages s s' event error fails =>
          cases fails
          simp
      | pass stage stages s s' event events outcome passes course =>
          cases passes
          have known : t.context.isSome = true := course.isSome_context rfl
          have made : t.context ≠ none := by
            rw [← Option.isSome_iff_ne_none]
            exact known
          obtain ⟨notRoute, notContext⟩ := ne_of_mem_laterStages course.failed_mem
          exact iff_of_false made (not_or.mpr ⟨notRoute, notContext⟩)

end Dispatcher

end SchemaRpc
