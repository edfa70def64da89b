import SchemaRpc.App.Router
import SchemaRpc.Proofs.App.Routes
import SchemaRpc.Proofs.Dispatch.Agree

/-!
# The route of the schema

A router stands before the dispatcher and takes the path of the schema for itself. No procedure has that path, so a
request is answered as the dispatcher answers it exactly when it is on another one (`App.fronts_of_built`). On the
path itself a GET gets the schema, and other methods get what the router says of a path that has no such method.
-/

namespace SchemaRpc

namespace Dispatcher

variable {γ ω β : Type} {d : Dispatcher γ ω β} {request : Http.Request} {state : ω}

/-- A method that the procedure does not have is turned away after the hooks that see every request. -/
theorem answer_of_other_method {route : Route γ ω β} {context after : γ} (found : d.route? request.path = some route)
    (made : d.hooks.createContext request route.procedure.name = .ok context)
    (seen : d.hooks.onRequest request route.procedure.name context = (.ok (), after))
    (differs : request.method ≠ route.procedure.method.token) :
    (d.dispatch request state).answer = .response (.ofError .notFound) := by
  have course : d.Course request d.admissionStages { state }
      [.routeSought, .contextSought, .requestSeen, .methodChecked]
      (.failed .method .notFound { route := some route, context := some after, state }) := by
    refine .pass _ _ _ _ _ _ _ (.route _ route found) ?_
    refine .pass _ _ _ _ _ _ _ (.context _ route context rfl made) ?_
    refine .pass _ _ _ _ _ _ _ (.request _ route context after ⟨rfl, rfl⟩ seen) ?_
    exact .fail _ _ _ _ _ _ (.method _ route after ⟨rfl, rfl⟩ differs)
  rw [dispatch_of_failed course]

end Dispatcher

namespace Router

variable {γ ω β : Type} {r : Router γ ω β} {request : Http.Request} {state : ω}

/-- The route captures nothing, whichever path it is matched with. -/
structure IsPlain (route : String) : Prop where
  rooted : route.toList.head? = some '/'
  segment : ':' ∉ route.toList
  rest : '*' ∉ route.toList

theorem dispatch_of_not_onSchema (elsewhere : r.onSchema request.path = false) :
    r.dispatch request state = r.dispatcher.dispatch request state :=
  if_neg (Bool.eq_false_iff.mp elsewhere)

theorem dispatch_of_onSchema (here : r.onSchema request.path = true) :
    r.dispatch request state =
      { procedure := none, events := [], answer := .response (r.schemaResponse request.method), state } :=
  if_pos here

/-- The path of the schema is never unknown, whatever the method. -/
theorem status_schemaResponse (method : String) : (r.schemaResponse method).status ≠ 404 := by
  unfold schemaResponse
  dsimp only
  split
  · exact Nat.ne_of_beq_eq_false rfl
  · split <;> exact Nat.ne_of_beq_eq_false rfl

/-- The dispatcher would tell whose procedure is on the path, or that there is nothing under it. -/
theorem dispatch_ne_of_onSchema (here : r.onSchema request.path = true) :
    r.dispatch request state ≠ r.dispatcher.dispatch request state := by
  intro same
  rw [dispatch_of_onSchema here] at same
  have procedure := (congrArg Exchange.procedure same).trans (Dispatcher.procedure_dispatch _ _ _)
  have missing : r.dispatcher.route? request.path = none := Option.map_eq_none_iff.mp procedure.symm
  rw [Dispatcher.dispatch_of_no_route missing] at same
  have sameResponse := Answer.response.inj (congrArg Exchange.answer same)
  exact status_schemaResponse _ (congrArg (fun response => response.status) sameResponse)

/-- How the answers of a router lie beside those of the dispatcher behind it, with the schema on some of the paths. -/
structure Fronts (r : Router γ ω β) (app : App γ ω β) (d : Dispatcher γ ω β) (onSchema : String → Prop) : Prop where
  /-- The schema is sent for a GET on its path, and no hook and no handler takes part. -/
  schema : ∀ request state, request.method = "GET" → onSchema request.path →
    ∃ response : Http.Response, response.Carries 200 app.schema ∧
      r.dispatch request state = { procedure := none, events := [], answer := .response response, state }
  /-- The dispatcher is asked about all other paths and about no request on this one. -/
  others : ∀ request state, r.dispatch request state = d.dispatch request state ↔ ¬onSchema request.path
  /-- No procedure has the path of the request. -/
  unknown : ∀ request state, ¬onSchema request.path →
    (∀ name p, app.registry.procedure? name = some p → p.path ≠ request.path) →
    ∃ response : Http.Response, response.Tells ⟨404, "Not found", none⟩ ∧
      (r.dispatch request state).answer = .response response
  /-- The procedure with the path of the request has another method. -/
  mismatch : ∀ request state name p context after, ¬onSchema request.path →
    app.registry.procedure? name = some p → p.path = request.path →
    app.hooks.createContext request name = .ok context →
    app.hooks.onRequest request name context = (.ok (), after) → request.method ≠ p.method.token →
    ∃ response : Http.Response, response.Tells ⟨404, "Not found", none⟩ ∧
      (r.dispatch request state).answer = .response response

end Router

namespace App

variable {γ ω β : Type} {app : App γ ω β} {d : Dispatcher γ ω β}

theorem schemaPath?_of_ne (published : app.options.definitionPath ≠ "") :
    app.schemaPath? = some (app.options.routePrefix ++ app.options.definitionPath) := by
  have notEmpty : app.options.definitionPath.isEmpty = false := by
    rw [Bool.eq_false_iff, ne_eq, String.isEmpty_iff]
    exact published
  rw [schemaPath?, notEmpty]
  rfl

theorem routerWith_of_dispatcher (complete : app.dispatcher = .ok d) (takes : String → String → Bool) {path : String}
    (taken : app.schemaPath? = some path) : app.routerWith takes = .ok ⟨d, takes path, app.schema⟩ := by
  rw [routerWith, complete, taken]
  rfl

/-- What is not offered to procedures is the path of none. -/
theorem InStep.path_ne (inStep : app.InStep) {path : String} (taken : app.schemaPath? = some path) {name : String}
    {p : Procedure} (registered : app.registry.procedure? name = some p) : p.path ≠ path := by
  intro same
  obtain rfl := inStep.name_of_procedure? registered
  obtain ⟨endpoint, found⟩ := inStep.find?_route_iff.2 ⟨registered, rfl⟩
  exact inStep.offered _ (Entries.mem_of_find? found) (taken.trans (congrArg some same.symm))

theorem InStep.fronts (inStep : app.InStep) (complete : app.dispatcher = .ok d) (onSchema : String → Bool) :
    Router.Fronts ⟨d, onSchema, app.schema⟩ app d fun path => onSchema path = true := by
  have serves := inStep.serves complete
  constructor
  case schema =>
    intro request state isGet here
    refine ⟨.json 200 app.schema, Http.Response.carries_json 200 app.schema, ?_⟩
    rw [Router.dispatch_of_onSchema here, isGet]
    rfl
  case others =>
    intro request state
    refine ⟨fun same here => Router.dispatch_ne_of_onSchema here same, fun elsewhere => ?_⟩
    exact Router.dispatch_of_not_onSchema (Bool.eq_false_iff.mpr elsewhere)
  case unknown =>
    intro request state elsewhere free
    refine ⟨.ofError .notFound, Http.Response.tells_ofError _, ?_⟩
    rw [Router.dispatch_of_not_onSchema (Bool.eq_false_iff.mpr elsewhere), serves.unknown request state free]
  case mismatch =>
    intro request state name p context after elsewhere registered onPath made seen differs
    obtain rfl := inStep.name_of_procedure? registered
    obtain ⟨endpoint, found⟩ := inStep.find?_route_iff.2 ⟨registered, onPath⟩
    have sameHooks : d.hooks = app.hooks := by
      rw [eq_of_dispatcher complete]
    rw [← sameHooks] at made seen
    rw [← routes_dispatcher complete] at found
    refine ⟨.ofError .notFound, Http.Response.tells_ofError _, ?_⟩
    rw [Router.dispatch_of_not_onSchema (Bool.eq_false_iff.mpr elsewhere)]
    exact Dispatcher.answer_of_other_method found made seen differs

/-- The paths of the schema are the only exception to the dispatcher: a GET there is answered with the schema, and
everywhere else all requests are answered by the dispatcher. Where the route captures nothing its own path is the only one, and
no procedure has it. -/
theorem fronts_of_built (built : Built app) (complete : app.dispatcher = .ok d)
    (published : app.options.definitionPath ≠ "") (takes : String → String → Bool)
    (literal : ∀ route, Router.IsPlain route → ∀ path, takes route path = true ↔ path = route) :
    let schemaPath := app.options.routePrefix ++ app.options.definitionPath
    (∀ r, app.routerWith takes = .ok r → r.Fronts app d fun path => takes schemaPath path = true) ∧
      (Router.IsPlain schemaPath →
        ∃ r, app.routerWith takes = .ok r ∧ (r.Fronts app d fun path => path = schemaPath) ∧
          ∀ name p, app.registry.procedure? name = some p → p.path ≠ schemaPath) := by
  intro schemaPath
  have inStep := built.inStep
  have taken : app.schemaPath? = some schemaPath := schemaPath?_of_ne published
  have made := routerWith_of_dispatcher complete takes taken
  have fronts := inStep.fronts complete (takes schemaPath)
  refine ⟨fun r others => ?_, fun plain => ⟨_, made, ?_, fun name p => inStep.path_ne taken⟩⟩
  · cases made.symm.trans others
    exact fronts
  · have same : (fun path => takes schemaPath path = true) = fun path => path = schemaPath :=
      funext fun path => propext (literal schemaPath plain path)
    rw [← same]
    exact fronts

/-- An application whose only procedure takes POST at its own path. -/
theorem fronts_of_built_pair :
    Built (pairApp .identity) ∧ (pairApp .identity).options.definitionPath ≠ "" ∧
      Router.IsPlain "/__definition" ∧
      (∀ route, Router.IsPlain route → ∀ path, (route == path) = true ↔ path = route) ∧
      ∃ d r, (pairApp .identity).dispatcher = .ok d ∧ (pairApp .identity).router = .ok r ∧
        (r.Fronts (pairApp .identity) d fun path => path = "/__definition") ∧
        (r.dispatch { method := "GET", path := "/__definition" } ()).answer =
          .response (.json 200 (pairApp .identity).schema) ∧
        r.dispatch { method := "GET", path := "/pairs/get" } () =
          d.dispatch { method := "GET", path := "/pairs/get" } () ∧
        (r.dispatch { method := "GET", path := "/pairs/get" } ()).answer =
          .response (.ofError ⟨404, "Not found", none⟩) := by
  have built := built_pairApp .identity
  have published : (pairApp .identity).options.definitionPath ≠ "" := by
    decide
  have complete : (pairApp .identity).dispatcher =
      .ok ⟨(pairApp .identity).options, (pairApp .identity).registry, (pairApp .identity).routes,
        (pairApp .identity).hooks⟩ := rfl
  have plain : Router.IsPlain "/__definition" := ⟨rfl, by decide, by decide⟩
  have literal : ∀ route, Router.IsPlain route → ∀ path, (route == path) = true ↔ path = route := by
    intro route _ path
    rw [beq_iff_eq, eq_comm]
  obtain ⟨-, onPlain⟩ := fronts_of_built built complete published _ literal
  obtain ⟨r, made, fronts, -⟩ := onPlain plain
  refine ⟨built, published, plain, literal, _, r, complete, made, fronts, ?_, ?_, ?_⟩
  · cases made
    rfl
  · exact (fronts.others _ _).2 (by decide)
  · rw [(fronts.others _ _).2 (by decide)]
    rfl

/-- Another method on the path of the schema does not reach the dispatcher, which would not find the path. -/
theorem post_on_schema_refused :
    ∃ d r, (pairApp .identity).dispatcher = .ok d ∧ (pairApp .identity).router = .ok r ∧
      (pairApp .identity).schemaPath? = some "/__definition" ∧
      (d.dispatch { method := "POST", path := "/__definition" } ()).answer =
        .response (.ofError ⟨404, "Not found", none⟩) ∧
      (r.dispatch { method := "POST", path := "/__definition" } ()).answer =
        .response ⟨⟨405, [("allow", "GET,HEAD")]⟩, ""⟩ ∧
      r.dispatch { method := "POST", path := "/__definition" } () ≠
        d.dispatch { method := "POST", path := "/__definition" } () := by
  refine ⟨_, _, rfl, rfl, rfl, rfl, rfl, fun same => ?_⟩
  have sameResponse := Answer.response.inj (congrArg Exchange.answer same)
  exact absurd (congrArg (fun response => response.status) sameResponse) (by decide)

end App

end SchemaRpc
