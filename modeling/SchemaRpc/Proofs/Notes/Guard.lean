import SchemaRpc.Notes.Server
import SchemaRpc.Proofs.App.Routes
import SchemaRpc.Proofs.Dispatch.Agree

/-!
# What the guard of the notes gives away

A service with a token refuses all requests to procedures of the notes that do not bear it, before it looks at their
params: the response tells the procedure's method, and nothing about the notes. The procedures besides do not look at
the context, and so at no header.
-/

namespace SchemaRpc

namespace Notes

/-! ## What is routed -/

/-- An application of the service: each of its routes is that of an offer. -/
structure Offered (token : Option String) (app : NotesApp) : Prop where
  built : app.Built
  hooks : app.hooks = Notes.hooks token
  routes : ∀ entry ∈ app.routes,
    ∃ offer ∈ offers, entry.2.procedure.name = offer.name ∧ entry.2.endpoint = offer.endpoint

theorem Offered.register {token : Option String} {app : NotesApp} (offered : Offered token app) {offer : Offer}
    (listed : offer ∈ offers) :
    Offered token (app.register types.shapes offer.name offer.options offer.params.shape offer.response.shape
      offer.endpoint).2 := by
  have built := App.Built.register types.shapes offer.name offer.options offer.params.shape offer.response.shape
    offer.endpoint offered.built
  have ends := app.registers types.shapes offer.name offer.options offer.params.shape offer.response.shape
    offer.endpoint
  generalize app.register types.shapes offer.name offer.options offer.params.shape offer.response.shape
    offer.endpoint = registered at built ends
  obtain ⟨result, app'⟩ := registered
  cases ends with
  | refused error defs =>
      exact ⟨built, offered.hooks, offered.routes⟩
  | registered p defs sameName _ _ _ _ _ _ =>
      refine ⟨built, offered.hooks, fun entry routed => ?_⟩
      rcases Entries.mem_insert routed with rfl | routed
      · exact ⟨offer, listed, sameName, rfl⟩
      · exact offered.routes entry routed

theorem Offered.registerAll {token : Option String} {app app' : NotesApp} (offered : Offered token app)
    {rest : List Offer} (listed : ∀ offer ∈ rest, offer ∈ offers) (ran : registerAll app rest = .ok app') :
    Offered token app' := by
  induction rest generalizing app with
  | nil =>
      cases ran
      exact offered
  | cons offer rest inductionHypothesis =>
      obtain ⟨first, later⟩ := List.forall_mem_cons.1 listed
      have next := offered.register first
      unfold Notes.registerAll at ran
      split at ran
      · next registered =>
        rw [registered] at next
        exact inductionHypothesis next later ran
      · cases ran

theorem offered_of_build {options : AppOptions} {token : Option String} {app : NotesApp}
    (ran : build options token = .ok app) : Offered token app :=
  have new : Offered token { options, hooks := Notes.hooks token } :=
    ⟨.new options _, rfl, List.forall_mem_nil _⟩
  new.registerAll (fun _ listed => listed) ran

/-- The only procedure outside the notes. -/
theorem endpoint_of_offer {offer : Offer} (listed : offer ∈ offers) (outside : offer.name.startsWith "notes." = false) :
    offer.endpoint = sayHello := by
  simp only [offers, List.mem_cons, List.not_mem_nil, or_false] at listed
  rcases listed with rfl | rfl | rfl | rfl | rfl | rfl | rfl
  · rfl
  all_goals exact absurd outside (by decide +kernel)

/-! ## Requests without the token -/

section Guard

variable {token : Option String} {d : Dispatcher NotesContext NotesState Watch} {request : Http.Request}
variable {route : Route NotesContext NotesState Watch}

theorem bearsToken_eq_false {token : String}
    (stranger : request.header? "authorization" ≠ some ("Bearer " ++ token)) :
    bearsToken (some token) request = false :=
  beq_eq_false_iff_ne.2 stranger

/-- The response to a request that does not bear the token. A wrong method is told first. -/
def refusal (p : Procedure) (request : Http.Request) : Http.Response :=
  .ofError (if request.method = p.method.token then .unauthorized "Missing or invalid bearer token" else .notFound)

/-- The way of such a request ends at its method or at the guard. -/
theorem course_of_stranger {token : String} (hooks : d.hooks = Notes.hooks (some token))
    (found : d.route? request.path = some route) (ofNotes : route.procedure.name.startsWith "notes." = true)
    (stranger : request.header? "authorization" ≠ some ("Bearer " ++ token)) (state : NotesState) :
    ∃ events stage s, d.Course request d.admissionStages { state } events
        (.failed stage
          (if request.method = route.procedure.method.token then .unauthorized "Missing or invalid bearer token"
            else .notFound) s) ∧
      s.state = state := by
  obtain ⟨context, isContext⟩ : ∃ context : NotesContext, context = ⟨request.header? "x-caller", false⟩ := ⟨_, rfl⟩
  have made : d.hooks.createContext request route.procedure.name = .ok context := by
    rw [hooks, isContext, ← bearsToken_eq_false stranger]
    rfl
  have seen : d.hooks.onRequest request route.procedure.name context = (.ok (), context) := by
    rw [hooks]
    rfl
  have stages : d.admissionStages = [.route, .context, .request, .method, .middleware 0 guard, .params] := by
    rw [Dispatcher.admissionStages, hooks]
    rfl
  obtain ⟨s, isSituation⟩ : ∃ s : Situation NotesContext NotesState Watch,
      s = { route := some route, context := some context, state } := ⟨_, rfl⟩
  have stands : s.At route context := by
    rw [isSituation]
    exact ⟨rfl, rfl⟩
  have unchanged : { s with context := some context } = s := by
    rw [isSituation]
  -- the method is looked at before the guard is asked
  obtain ⟨events, stage, ends⟩ : ∃ events stage, d.Course request [.method, .middleware 0 guard, .params] s events
      (.failed stage
        (if request.method = route.procedure.method.token then .unauthorized "Missing or invalid bearer token"
          else .notFound) s) := by
    by_cases fits : request.method = route.procedure.method.token
    · have refused : guard request route.procedure.name context =
          (.error (.unauthorized "Missing or invalid bearer token"), context) := by
        rw [guard, ofNotes, isContext]
        rfl
      have fails := Dispatcher.Fails.middleware (d := d) s 0 guard route context context _ stands refused
      rw [unchanged] at fails
      rw [if_pos fits]
      exact ⟨_, _, .pass _ _ _ _ _ _ _ (.method s route context stands fits) (.fail _ _ _ _ _ _ fails)⟩
    · rw [if_neg fits]
      exact ⟨_, _, .fail _ _ _ _ _ _ (.method s route context stands fits)⟩
  rw [stages]
  subst isSituation
  refine ⟨.routeSought :: .contextSought :: .requestSeen :: events, stage,
    { route := some route, context := some context, state }, ?_, rfl⟩
  refine .pass _ _ _ _ _ _ _ (.route _ route found) ?_
  refine .pass _ _ _ _ _ _ _ (.context _ route context rfl made) ?_
  exact .pass _ _ _ _ _ _ _ (.request _ route context context stands seen) ends

/-! ## Requests to other procedures -/

theorem guard_of_outside {name : String} (outside : name.startsWith "notes." = false) (context : NotesContext) :
    guard request name context = (.ok (), context) := by
  rw [guard, outside]
  rfl

open Pipeline in
theorem agree_accept (hooks : d.hooks = Notes.hooks token) (found : d.route? request.path = some route)
    (outside : route.procedure.name.startsWith "notes." = false) (headers : Headers) :
    Agree (fun a b => a.route = route ∧ b.route = route ∧ a.params = b.params) (d.accept request)
      (d.accept { request with headers }) := by
  unfold Dispatcher.accept
  rw [hooks]
  dsimp only
  rw [found]
  dsimp only
  refine .bind (.note _ _) fun _ _ _ => ?_
  refine .bind (.note _ _) fun _ _ _ => ?_
  have made (request : Http.Request) :
      (Notes.hooks token).createContext request route.procedure.name =
        .ok ⟨request.header? "x-caller", bearsToken token request⟩ := rfl
  have seen (request : Http.Request) (context : NotesContext) :
      (Notes.hooks token).onRequest request route.procedure.name context = (.ok (), context) := rfl
  have ran (request : Http.Request) (context : NotesContext) :
      (Dispatcher.runMiddleware request route.procedure.name 0 (Notes.hooks token).middleware context :
          Pipeline NotesContext NotesState NotesContext) = do
        note (.middlewareRan 0)
        return context := by
    rw [Notes.hooks, Dispatcher.runMiddleware, guard_of_outside outside]
    rfl
  rw [made, made, orFail_ok, orFail_ok, pure_bind, pure_bind, seen, seen, withContext_ok, withContext_ok, pure_bind,
    pure_bind, ran, ran]
  refine .bind (.note _ _) fun _ _ _ => ?_
  refine .bind (.note _ _) fun _ _ _ => ?_
  by_cases fits : request.method = route.procedure.method.token
  case neg =>
    rw [if_pos fits, if_pos fits]
    exact .throw _ _ _
  rw [if_neg (not_not_intro fits), if_neg (not_not_intro fits), bind_assoc, bind_assoc]
  refine .bind (.note _ _) fun _ _ _ => ?_
  rw [pure_bind, pure_bind]
  refine .bind (.note _ _) fun _ _ _ => ?_
  refine .bind (.orFail _ _ _) fun params _ same => ?_
  exact .pure ⟨rfl, rfl, same⟩

open Pipeline in
theorem agree_answerUnary (hooks : d.hooks = Notes.hooks token) (p : Procedure) (request other : Http.Request)
    (context context' : NotesContext) (params : Value)
    {handle : Value → NotesContext → NotesState → Entry (Ending Value) × NotesState}
    (blind : handle params context = handle params context') :
    Agree Eq (d.answerUnary request p context params handle) (d.answerUnary other p context' params handle) := by
  have allowed (request : Http.Request) (context : NotesContext) (body : Json) :
      d.hooks.beforeResponse request p.name context body = .ok () := by
    rw [hooks]
    rfl
  unfold Dispatcher.answerUnary
  rw [blind]
  refine .bind (.enter _ _ _ _) fun entered _ same => ?_
  subst same
  refine .bind (.orFail _ _ _) fun ending _ same => ?_
  subst same
  refine .bind (.orFail _ _ _) fun value _ same => ?_
  subst same
  refine .bind (.note _ _) fun _ _ _ => ?_
  refine .bind (.orFail _ _ _) fun body _ same => ?_
  subst same
  rw [allowed, allowed, orFail_ok, orFail_ok, pure_bind, pure_bind]
  refine .bind (.note _ _) fun _ _ _ => ?_
  refine .bind (.note _ _) fun _ _ _ => ?_
  exact .pure rfl

/-- A procedure outside the notes answers without a look at the headers. -/
theorem dispatch_of_outside (hooks : d.hooks = Notes.hooks token) (found : d.route? request.path = some route)
    (outside : route.procedure.name.startsWith "notes." = false) (greets : route.endpoint = sayHello)
    (headers : Headers) (state : NotesState) :
    (d.dispatch { request with headers } state).answer = (d.dispatch request state).answer ∧
      (d.dispatch { request with headers } state).state = (d.dispatch request state).state := by
  refine (fun both => ⟨both.1.symm, both.2.symm⟩) (Dispatcher.dispatch_of_agree ?_ state)
  refine (agree_accept hooks found outside headers).bind fun a b related => ?_
  obtain ⟨here, there, same⟩ := related
  unfold Dispatcher.answer
  rw [here, there, greets, ← same]
  refine .bind (agree_answerUnary hooks route.procedure _ _ a.context b.context a.params rfl) fun response _ same => ?_
  subst same
  exact .pure rfl

end Guard

end Notes

/-! ## The server -/

namespace NotesServer

/-- What `dispatch` makes of a request, before the watchers are told. -/
def exchange (server : NotesServer) (request : Http.Request) : Exchange NotesContext NotesState Watch :=
  if server.routed then server.router.dispatch request server.state
  else server.router.dispatcher.dispatch request server.state

theorem dispatch_eq (server : NotesServer) (request : Http.Request) :
    server.dispatch request =
      ((server.exchange request).answer, { server with state := (server.exchange request).state }.publish) :=
  rfl

variable {options : AppOptions} {token : Option String} {routed : Bool} {now : Timestamp} {origin : NotesServer}

/-- A server that has been started routes requests to what the service offers. -/
structure Routes (router : Router NotesContext NotesState Watch) (token : Option String) : Prop where
  hooks : router.dispatcher.hooks = Notes.hooks token
  /-- No procedure is on the path of the schema. -/
  apart : ∀ path route, router.dispatcher.route? path = some route → router.onSchema path = false
  offered : ∀ path route, router.dispatcher.route? path = some route →
    ∃ offer ∈ Notes.offers, route.procedure.name = offer.name ∧ route.endpoint = offer.endpoint

theorem routes_of_start (started : start options token routed now = .ok origin) : Routes origin.router token := by
  obtain ⟨app, built, rest⟩ := Except.bind_eq_ok_iff.1 started
  obtain ⟨router, made, rest⟩ := Except.bind_eq_ok_iff.1 rest
  cases rest
  have offered := Notes.offered_of_build built
  unfold App.router App.routerWith at made
  cases complete : app.dispatcher with
  | error error =>
      rw [complete] at made
      cases made
  | ok d =>
      rw [complete] at made
      cases made
      obtain rfl := App.eq_of_dispatcher complete
      have routes (path : String) (route : Route NotesContext NotesState Watch)
          (found : app.routes.find? path = some route) : (path, route) ∈ app.routes :=
        Entries.mem_of_find? found
      constructor
      case hooks => exact offered.hooks
      case apart =>
        intro path route found
        have elsewhere : app.schemaPath? ≠ some path := offered.built.inStep.offered _ (routes path route found)
        change (app.schemaPath?.any fun route => route == path) = false
        cases taken : app.schemaPath? with
        | none =>
            rfl
        | some schemaPath =>
            exact beq_eq_false_iff_ne.mpr fun same => elsewhere (taken.trans (congrArg some same))
      case offered => exact fun path route found => offered.routes _ (routes path route found)

variable {router : Router NotesContext NotesState Watch} {server : NotesServer} {request : Http.Request}
variable {route : Route NotesContext NotesState Watch}

theorem exchange_of_route (routes : Routes router token) (same : server.router = router)
    (found : router.dispatcher.route? request.path = some route) :
    server.exchange request = router.dispatcher.dispatch request server.state := by
  subst same
  unfold exchange Router.dispatch
  rw [if_neg (Bool.eq_false_iff.mp (routes.apart _ _ found)), ite_self]

theorem exchange_of_outside (routes : Routes router token) (same : server.router = router)
    (outside : ∀ route, router.dispatcher.route? request.path = some route →
      route.procedure.name.startsWith "notes." = false) (headers : Headers) :
    (server.exchange { request with headers }).answer = (server.exchange request).answer ∧
      (server.exchange { request with headers }).state = (server.exchange request).state := by
  cases found : router.dispatcher.route? request.path with
  | some route =>
      obtain ⟨offer, listed, sameName, sameEndpoint⟩ := routes.offered _ _ found
      have outsideHere := outside route found
      have greets : route.endpoint = Notes.sayHello := by
        rw [sameEndpoint]
        exact Notes.endpoint_of_offer listed (sameName ▸ outsideHere)
      have foundAsWell : router.dispatcher.route? ({ request with headers } : Http.Request).path = some route := found
      rw [exchange_of_route routes same found, exchange_of_route routes same foundAsWell]
      exact Notes.dispatch_of_outside routes.hooks found outsideHere greets headers server.state
  | none =>
      subst same
      have missing : server.router.dispatcher.route? ({ request with headers } : Http.Request).path = none := found
      unfold exchange Router.dispatch
      rw [Dispatcher.dispatch_of_no_route found, Dispatcher.dispatch_of_no_route missing]
      dsimp only
      split <;> [split; skip] <;> exact ⟨rfl, rfl⟩

/-- A started server with a token, whatever its notes, its watchers and its events are by now. A request to a procedure
of the notes that does not bear the token is refused in the same words for every body and every query, nothing is called
for it and nothing is different after it; and all other requests are answered the same whatever their headers are. -/
theorem guarded_of_start {token : String} (started : start options (some token) routed now = .ok origin) :
    (∀ request route, origin.router.dispatcher.route? request.path = some route →
      route.procedure.name.startsWith "notes." = true →
      request.header? "authorization" ≠ some ("Bearer " ++ token) →
      ∀ server : NotesServer, server.router = origin.router → ∀ body query,
        let exchange := server.exchange { request with body, query }
        exchange.answer = .response (Notes.refusal route.procedure request) ∧
          exchange.state = server.state ∧
          (∀ event ∈ exchange.events, event.isHandlerCall = false) ∧
          server.dispatch { request with body, query } =
            (.response (Notes.refusal route.procedure request), server.publish)) ∧
      ∀ request, (∀ route, origin.router.dispatcher.route? request.path = some route →
          route.procedure.name.startsWith "notes." = false) →
        ∀ server : NotesServer, server.router = origin.router → ∀ headers,
          server.dispatch { request with headers } = server.dispatch request := by
  have routes := routes_of_start started
  constructor
  · intro request route found ofNotes stranger server same body query
    have routedHere : origin.router.dispatcher.route? ({ request with body, query } : Http.Request).path = some route :=
      found
    have strangerHere : ({ request with body, query } : Http.Request).header? "authorization" ≠
        some ("Bearer " ++ token) :=
      stranger
    obtain ⟨events, stage, s, course, unchanged⟩ :=
      Notes.course_of_stranger routes.hooks routedHere ofNotes strangerHere server.state
    have refused := Dispatcher.dispatch_of_failed course
    rw [dispatch_eq, exchange_of_route routes same routedHere, refused]
    refine ⟨rfl, unchanged, fun event listed => ?_, Prod.ext rfl ?_⟩
    · rcases List.mem_append.1 listed with listed | listed
      · exact course.uncalled event listed
      · rw [List.mem_singleton.1 listed]
        rfl
    · dsimp only
      rw [unchanged]
  · intro request outside server same headers
    obtain ⟨answer, state⟩ := exchange_of_outside routes same outside headers
    rw [dispatch_eq, dispatch_eq, answer, state]

/-- An extension of the token does not open the feed, and the greeting needs none. -/
theorem guarded_of_start_extended_token :
    ∃ origin, start {} (some "token") true default = .ok origin ∧
      (∃ route, origin.router.dispatcher.route? "/notes/watch-notes" = some route ∧
        route.procedure.name.startsWith "notes." = true ∧ route.procedure.eventStream = true ∧
        ∀ server : NotesServer, server.router = origin.router → ∀ body query,
          server.dispatch
              { path := "/notes/watch-notes", headers := [("Authorization", "Bearer token1")], body, query } =
            (.response (.ofError (.unauthorized "Missing or invalid bearer token")), server.publish)) ∧
      ∃ route, origin.router.dispatcher.route? "/utils/say-hello" = some route ∧
        ∀ headers, origin.dispatch { method := "GET", path := "/utils/say-hello", headers } =
          origin.dispatch { method := "GET", path := "/utils/say-hello" } := by
  have evaluated : (start {} (some "token") true default).toOption.any (fun origin =>
      (origin.router.dispatcher.route? "/notes/watch-notes").any (fun route =>
        route.procedure.name.startsWith "notes." && route.procedure.method == .post && route.procedure.eventStream) &&
      (origin.router.dispatcher.route? "/utils/say-hello").any fun route =>
        !route.procedure.name.startsWith "notes.") = true := by
    decide +kernel
  cases started : start {} (some "token") true default with
  | error error =>
      rw [started] at evaluated
      cases evaluated
  | ok origin =>
      rw [started] at evaluated
      obtain ⟨watched, greeted⟩ := (Bool.and_eq_true _ _).mp evaluated
      obtain ⟨watch, found, properties⟩ := (Option.any_eq_true _ _).mp watched
      obtain ⟨greet, found', outside⟩ := (Option.any_eq_true _ _).mp greeted
      simp only [Bool.and_eq_true, beq_iff_eq, Bool.not_eq_true'] at properties outside
      obtain ⟨⟨ofNotes, posted⟩, streams⟩ := properties
      obtain ⟨refused, answered⟩ := guarded_of_start started
      refine ⟨origin, rfl, ⟨watch, found, ofNotes, streams, fun server same body query => ?_⟩, greet, found',
        fun headers => ?_⟩
      · have stranger : ({ path := "/notes/watch-notes", headers := [("Authorization", "Bearer token1")] } :
            Http.Request).header? "authorization" ≠ some ("Bearer " ++ "token") := by
          decide +kernel
        obtain ⟨-, -, -, dispatched⟩ := refused _ watch found ofNotes stranger server same body query
        rw [dispatched, Notes.refusal, posted]
        rfl
      · refine answered { method := "GET", path := "/utils/say-hello" } (fun route routed => ?_) origin rfl headers
        rw [found'] at routed
        cases routed
        exact outside

end NotesServer

end SchemaRpc
