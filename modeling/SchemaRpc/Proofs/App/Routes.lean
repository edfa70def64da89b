import SchemaRpc.Proofs.App.WireKeys
import SchemaRpc.Proofs.Dispatch.Unary
import SchemaRpc.Proofs.Keyed
import SchemaRpc.Proofs.Registry.Typed

/-!
# Routes and procedures in step

An application keeps its procedures by name in the registry and by path in its routes. Two checks guard them: the registry
refuses a name or a path that a procedure has already, and the application the path of the schema. So an insertion never
takes the place of a route, and what a request is handed to is what is registered with its path.
-/

namespace SchemaRpc

open Introspection

variable {n : Nat}

/-! ## What the registry makes of a procedure -/

namespace Registry

variable {catalog : Catalog n} {r : Registry} {p made : Procedure} {params response : Shape n}

/-- Only the names of its definitions are filled in. -/
theorem eq_of_runs_introspect {defs defs' : Definitions}
    (ran : Runs (introspect catalog p params response) defs made defs') :
    made = { p with params := made.params, response := made.response } := by
  obtain ⟨given, between, -, rest⟩ := runs_bind.1 ran
  obtain ⟨given', after, -, rest⟩ := runs_bind.1 rest
  obtain ⟨held, _, -, rest⟩ := runs_bind.1 rest
  split at rest
  · exact absurd rest not_runs_throw
  · obtain ⟨rfl, -⟩ := runs_pure.1 rest
    rfl

/-- No procedure has the name or the path. -/
theorem fresh_of_conflict? (free : r.conflict? p = none) :
    r.procedures.find? p.name = none ∧ ∀ entry ∈ r.procedures, entry.2.path ≠ p.path := by
  unfold conflict? at free
  split at free
  · cases free
  · next newName =>
    rw [Option.map_eq_none_iff, List.find?_eq_none] at free
    refine ⟨by simpa [Entries.contains] using newName, fun entry member same => ?_⟩
    exact free entry member (beq_iff_eq.2 same)

/-- How a registration ends, as far as the procedures go. -/
inductive Registers (r : Registry) (p : Procedure) : Except RegistrationError Procedure → Registry → Prop
  | refused (error : RegistrationError) (defs : Definitions) :
      Registers r p (.error error) ⟨defs, r.procedures⟩
  | registered (params response : Option String) (defs : Definitions) :
      r.procedures.find? p.name = none → (∀ entry ∈ r.procedures, entry.2.path ≠ p.path) →
      Registers r p (.ok { p with params, response })
        ⟨defs, r.procedures.insert p.name { p with params, response }⟩

theorem registers (r : Registry) (catalog : Catalog n) (p : Procedure) (params response : Shape n) :
    r.Registers p (r.register catalog p params response).1 (r.register catalog p params response).2 := by
  unfold register
  cases conflict : r.conflict? p with
  | some error =>
      exact .refused error r.definitions
  | none =>
      obtain ⟨newName, newPath⟩ := fresh_of_conflict? conflict
      rcases ran : (introspect catalog p params response).run.run r.definitions with ⟨error | made, defs⟩
      · exact .refused error defs
      · have made_eq := eq_of_runs_introspect ran
        dsimp only
        rw [made_eq]
        exact .registered made.params made.response defs newName newPath

/-- Definitions that stand alone are no procedures. -/
theorem procedures_define (r : Registry) (catalog : Catalog n) (shape : Shape n) :
    (r.define catalog shape).2.procedures = r.procedures := by
  unfold define
  split <;> rfl

end Registry

/-! ## One registration -/

namespace App

variable {γ ω β : Type} {app app' : App γ ω β} {name : String} {o : ProcedureOptions} {endpoint : Endpoint γ ω β}

/-- A path that is not that of the schema. -/
def Offers (app : App γ ω β) (path : String) : Prop :=
  app.schemaPath? ≠ some path

/-- How a registration ends: it is refused and no procedure and no route is any different, or there is one procedure
more and one route more, under a name and on a path that were free. -/
inductive Registers (app : App γ ω β) (name : String) (o : ProcedureOptions) (endpoint : Endpoint γ ω β) :
    Except RegistrationError Procedure → App γ ω β → Prop
  | refused (error : RegistrationError) (defs : Definitions) :
      Registers app name o endpoint (.error error) { app with registry := ⟨defs, app.registry.procedures⟩ }
  | registered (p : Procedure) (defs : Definitions) :
      p.name = name → Procedure.route app.options.routePrefix name o.path = .ok p.path →
      p.method = o.method.getD app.options.defaultMethod → p.eventStream = isStream endpoint →
      app.registry.procedures.find? name = none → (∀ entry ∈ app.registry.procedures, entry.2.path ≠ p.path) →
      app.Offers p.path →
      Registers app name o endpoint (.ok p)
        { app with
          registry := ⟨defs, app.registry.procedures.insert name p⟩
          routes := app.routes.insert p.path ⟨p, endpoint⟩ }

theorem declare_eq_ok {eventStream : Bool} {p : Procedure} (declared : app.declare name o eventStream = .ok p) :
    p.name = name ∧ Procedure.route app.options.routePrefix name o.path = .ok p.path ∧
      p.method = o.method.getD app.options.defaultMethod ∧ p.eventStream = eventStream ∧ app.Offers p.path := by
  obtain ⟨path, routed, rest⟩ := Except.bind_eq_ok_iff.1 declared
  by_cases taken : app.schemaPath? = some path
  · rw [if_pos taken] at rest
    cases rest
  · rw [if_neg taken] at rest
    cases rest
    exact ⟨rfl, routed, rfl, rfl, taken⟩

theorem registers (app : App γ ω β) (catalog : Catalog n) (name : String) (o : ProcedureOptions)
    (params response : Shape n) (endpoint : Endpoint γ ω β) :
    app.Registers name o endpoint (app.register catalog name o params response endpoint).1
      (app.register catalog name o params response endpoint).2 := by
  unfold register
  cases declared : app.declare name o (isStream endpoint) with
  | error error =>
      exact .refused error app.registry.definitions
  | ok p =>
      obtain ⟨rfl, routed, method, kind, offered⟩ := declare_eq_ok declared
      have ends := app.registry.registers catalog p params response
      dsimp only
      rcases registered : app.registry.register catalog p params response with ⟨error | made, registry⟩
      all_goals rw [registered] at ends
      · cases ends with
        | refused _ defs => exact .refused error defs
      · cases ends with
        | registered params response defs newName newPath =>
          exact .registered { p with params, response } defs rfl routed method kind newName newPath offered

/-! ## All registrations -/

/-- The procedures and the routes of an application agree. -/
structure InStep (app : App γ ω β) : Prop where
  /-- Every procedure is filed under its name. -/
  named : ∀ entry ∈ app.registry.procedures, entry.2.name = entry.1
  names : (app.registry.procedures.map Prod.fst).Nodup
  /-- There is one route for each procedure, under its path, and no other route. -/
  routes : (app.routes.map fun entry => (entry.1, entry.2.procedure)).Perm
    (app.registry.procedures.map fun entry => (entry.2.path, entry.2))
  paths : (app.routes.map Prod.fst).Nodup
  /-- A route of an event stream leads to a handler of event streams. -/
  kinds : ∀ entry ∈ app.routes, entry.2.procedure.eventStream = isStream entry.2.endpoint
  offered : ∀ entry ∈ app.routes, app.Offers entry.1

namespace InStep

theorem name_of_procedure? (inStep : app.InStep) {p : Procedure} (registered : app.registry.procedure? name = some p) :
    p.name = name :=
  inStep.named _ (Entries.mem_of_find? registered)

theorem procedure?_of_mem (inStep : app.InStep) {entry : String × Procedure}
    (listed : entry ∈ app.registry.procedures) : app.registry.procedure? entry.2.name = some entry.2 := by
  rw [Registry.procedure?, inStep.named entry listed, Entries.find?_eq_lookup]
  exact lookup_of_mem inStep.names listed

/-- A route under a path is that of the procedure with this path. -/
theorem find?_route_iff (inStep : app.InStep) {path : String} {p : Procedure} :
    (∃ endpoint, app.routes.find? path = some ⟨p, endpoint⟩) ↔
      app.registry.procedure? p.name = some p ∧ p.path = path := by
  constructor
  · rintro ⟨endpoint, found⟩
    have routed : (path, p) ∈ app.routes.map fun entry => (entry.1, entry.2.procedure) :=
      List.mem_map.2 ⟨_, Entries.mem_of_find? found, rfl⟩
    obtain ⟨entry, listed, same⟩ := List.mem_map.1 (inStep.routes.mem_iff.1 routed)
    obtain ⟨rfl, rfl⟩ := Prod.mk.inj same
    exact ⟨inStep.procedure?_of_mem listed, rfl⟩
  · rintro ⟨found, rfl⟩
    have listed : (p.path, p) ∈ app.registry.procedures.map fun entry => (entry.2.path, entry.2) :=
      List.mem_map.2 ⟨_, Entries.mem_of_find? found, rfl⟩
    obtain ⟨⟨path, q, endpoint⟩, routed, same⟩ := List.mem_map.1 (inStep.routes.mem_iff.2 listed)
    obtain ⟨samePath, rfl⟩ : path = p.path ∧ q = p := Prod.mk.inj same
    rw [← samePath]
    exact ⟨endpoint, (Entries.find?_eq_lookup _ _).trans (lookup_of_mem inStep.paths routed)⟩

theorem find?_route_eq_none_iff (inStep : app.InStep) {path : String} :
    app.routes.find? path = none ↔ ∀ entry ∈ app.registry.procedures, entry.2.path ≠ path := by
  have keys : app.routes.map Prod.fst = (app.routes.map fun entry => (entry.1, entry.2.procedure)).map Prod.fst := by
    rw [List.map_map]
    rfl
  constructor
  · rintro missing entry listed rfl
    obtain ⟨endpoint, found⟩ := inStep.find?_route_iff.2 ⟨inStep.procedure?_of_mem listed, rfl⟩
    rw [missing] at found
    cases found
  · intro free
    rw [Entries.find?_eq_lookup]
    refine lookup_eq_none_of_not_mem fun present => ?_
    rw [keys] at present
    obtain ⟨_, routed, rfl⟩ := List.mem_map.1 present
    obtain ⟨entry, listed, rfl⟩ := List.mem_map.1 (inStep.routes.mem_iff.1 routed)
    exact free entry listed rfl

theorem new (options : AppOptions) (hooks : Hooks γ) : InStep ({ options, hooks } : App γ ω β) where
  named := List.forall_mem_nil _
  names := .nil
  routes := .nil
  paths := .nil
  kinds := List.forall_mem_nil _
  offered := List.forall_mem_nil _

/-- Nothing but the definitions has changed. -/
theorem definitions (inStep : app.InStep) (defs : Definitions) :
    InStep { app with registry := ⟨defs, app.registry.procedures⟩ } where
  named := inStep.named
  names := inStep.names
  routes := inStep.routes
  paths := inStep.paths
  kinds := inStep.kinds
  offered := inStep.offered

theorem register {result : Except RegistrationError Procedure} (inStep : app.InStep)
    (ends : app.Registers name o endpoint result app') : app'.InStep := by
  cases ends with
  | refused error defs =>
      exact inStep.definitions defs
  | registered p defs sameName routed method kind newName newPath offered =>
      have procedures := Entries.perm_insert newName p
      have routes := Entries.perm_insert (inStep.find?_route_eq_none_iff.2 newPath) (⟨p, endpoint⟩ : Route γ ω β)
      constructor
      case named =>
        intro entry listed
        rcases List.mem_cons.1 (procedures.mem_iff.1 listed) with rfl | listed
        · exact sameName
        · exact inStep.named entry listed
      case names =>
        rw [(procedures.map Prod.fst).nodup_iff, List.map_cons, List.nodup_cons]
        refine ⟨fun present => ?_, inStep.names⟩
        obtain ⟨⟨other, q⟩, listed, rfl⟩ := List.mem_map.1 present
        rw [Entries.find?_eq_lookup, lookup_of_mem inStep.names listed] at newName
        cases newName
      case routes =>
        refine ((routes.map _).trans ?_).trans (procedures.map _).symm
        exact inStep.routes.cons (p.path, p)
      case paths =>
        rw [(routes.map Prod.fst).nodup_iff, List.map_cons, List.nodup_cons]
        refine ⟨fun present => ?_, inStep.paths⟩
        obtain ⟨⟨path, route⟩, routed, rfl⟩ := List.mem_map.1 present
        have missing := inStep.find?_route_eq_none_iff.2 newPath
        rw [Entries.find?_eq_lookup, lookup_of_mem inStep.paths routed] at missing
        cases missing
      case kinds =>
        intro entry routed
        rcases List.mem_cons.1 (routes.mem_iff.1 routed) with rfl | routed
        · exact kind
        · exact inStep.kinds entry routed
      case offered =>
        intro entry routed
        rcases List.mem_cons.1 (routes.mem_iff.1 routed) with rfl | routed
        · exact offered
        · exact inStep.offered entry routed

end InStep

theorem define_eq (app : App γ ω β) (catalog : Catalog n) (shape : Shape n) :
    (app.define catalog shape).2 =
      { app with registry := ⟨(app.registry.define catalog shape).2.definitions, app.registry.procedures⟩ } := by
  rw [← Registry.procedures_define app.registry catalog shape]
  rfl

theorem Built.inStep (built : Built app) : app.InStep := by
  induction built with
  | new options hooks =>
      exact .new options hooks
  | register catalog name o params response endpoint _ inductionHypothesis =>
      exact inductionHypothesis.register (registers _ catalog name o params response endpoint)
  | define catalog shape _ inductionHypothesis =>
      rw [define_eq]
      exact inductionHypothesis.definitions _

end App

/-! ## What requests are handed to -/

namespace Dispatcher

variable {γ ω β : Type} {d : Dispatcher γ ω β} {request : Http.Request}

theorem dispatch_of_no_route (missing : d.route? request.path = none) (state : ω) :
    d.dispatch request state =
      { procedure := none
        events := [.routeSought, d.failure request none none .notFound]
        answer := .response (.ofError .notFound)
        state } := by
  unfold dispatch accept
  rw [missing]
  rfl

/-- What a dispatcher hands requests to is what an application has registered. -/
structure Serves (d : Dispatcher γ ω β) (app : App γ ω β) : Prop where
  /-- The procedure of an exchange is the one with the path of the request. -/
  sought : ∀ request state name, (d.dispatch request state).procedure = some name ↔
    ∃ p, app.registry.procedure? name = some p ∧ p.path = request.path
  /-- A request that reaches a handler reaches the one on the route of that procedure. -/
  handed : ∀ request state a passage, (d.accept request).run.run { state } = (.ok a, passage) →
    app.routes.find? request.path = some a.route ∧
      app.registry.procedure? a.route.procedure.name = some a.route.procedure ∧ a.route.procedure.path = request.path
  /-- Without such a procedure nothing is called but the error observer. -/
  unknown : ∀ request state, (∀ name p, app.registry.procedure? name = some p → p.path ≠ request.path) →
    d.dispatch request state =
      { procedure := none
        events := [.routeSought, d.failure request none none .notFound]
        answer := .response (.ofError .notFound)
        state }

end Dispatcher

namespace App

variable {γ ω β : Type} {app : App γ ω β}

theorem routes_dispatcher {d : Dispatcher γ ω β} (complete : app.dispatcher = .ok d) : d.routes = app.routes := by
  rw [eq_of_dispatcher complete]

theorem InStep.serves (inStep : app.InStep) {d : Dispatcher γ ω β} (complete : app.dispatcher = .ok d) :
    d.Serves app := by
  have route? (path : String) : d.route? path = app.routes.find? path := by
    unfold Dispatcher.route?
    rw [routes_dispatcher complete]
  constructor
  case sought =>
    intro request state name
    rw [Dispatcher.procedure_dispatch, route?, Option.map_eq_some_iff]
    constructor
    · rintro ⟨⟨p, endpoint⟩, found, rfl⟩
      exact ⟨p, inStep.find?_route_iff.1 ⟨endpoint, found⟩⟩
    · rintro ⟨p, registered, onPath⟩
      obtain rfl := inStep.name_of_procedure? registered
      obtain ⟨endpoint, found⟩ := inStep.find?_route_iff.2 ⟨registered, onPath⟩
      exact ⟨⟨p, endpoint⟩, found, rfl⟩
  case handed =>
    intro request state a passage accepted
    have found := (Dispatcher.way_of_accept accepted).1
    rw [route?] at found
    exact ⟨found, inStep.find?_route_iff.1 ⟨a.route.endpoint, found⟩⟩
  case unknown =>
    intro request state free
    refine Dispatcher.dispatch_of_no_route ?_ state
    rw [route?, inStep.find?_route_eq_none_iff]
    exact fun entry listed => free _ _ (inStep.procedure?_of_mem listed)

/-- A registration hides no route. -/
theorem Registers.find?_route {name : String} {o : ProcedureOptions} {endpoint : Endpoint γ ω β}
    {result : Except RegistrationError Procedure} {app' : App γ ω β} (inStep : app.InStep)
    (ends : app.Registers name o endpoint result app') {path : String} {route : Route γ ω β}
    (found : app.routes.find? path = some route) : app'.routes.find? path = some route := by
  cases ends with
  | refused error defs =>
      exact found
  | registered p defs _ _ _ _ _ newPath _ =>
      have different : path ≠ p.path := by
        rintro rfl
        rw [inStep.find?_route_eq_none_iff.2 newPath] at found
        cases found
      exact (Entries.find?_insert_of_ne different _ _).trans found

/-- Whatever was registered and refused before, the routes are those of the procedures, a further call adds at most the
route of its own procedure and changes none, and requests are handed to the procedure with their path. -/
theorem routes_of_built (built : Built app) :
    app.InStep ∧
      (∀ {n : Nat} (catalog : Catalog n) (name : String) (o : ProcedureOptions) (params response : Shape n)
        (endpoint : Endpoint γ ω β),
        app.Registers name o endpoint (app.register catalog name o params response endpoint).1
            (app.register catalog name o params response endpoint).2 ∧
          ∀ path route, app.routes.find? path = some route →
            (app.register catalog name o params response endpoint).2.routes.find? path = some route) ∧
      (∀ {n : Nat} (catalog : Catalog n) (shape : Shape n),
        (app.define catalog shape).2.routes = app.routes ∧
          (app.define catalog shape).2.registry.procedures = app.registry.procedures) ∧
      ∀ d, app.dispatcher = .ok d → d.Serves app := by
  have inStep := built.inStep
  refine ⟨inStep, fun catalog name o params response endpoint => ?_, fun catalog shape => ?_, fun d => inStep.serves⟩
  · have ends := registers app catalog name o params response endpoint
    exact ⟨ends, fun path route found => ends.find?_route inStep found⟩
  · rw [define_eq]
    exact ⟨rfl, rfl⟩

/-- One procedure, and a second one that was refused because its name leads to the same path. -/
def crowdedApp : App Unit Unit Unit :=
  ((pairApp .identity).register pairCatalog "pairs.Get" {} .unit (.declared 0)
    (.stream fun _ _ state => (.entered (), state))).2

theorem routes_of_built_crowded :
    Built crowdedApp ∧
      (crowdedApp.routes.map fun (path, route) => (path, route.procedure.name)) = [("/pairs/get", "pairs.get")] ∧
      ∃ d, crowdedApp.dispatcher = .ok d ∧ d.Serves crowdedApp ∧
        (d.dispatch { path := "/pairs/get" } ()).procedure = some "pairs.get" ∧
        (d.dispatch { path := "/pairs/Get" } ()).procedure = none := by
  have built : Built crowdedApp := .register _ _ _ _ _ _ (built_pairApp .identity)
  obtain ⟨-, -, -, serves⟩ := routes_of_built built
  have complete : crowdedApp.dispatcher =
      .ok ⟨crowdedApp.options, crowdedApp.registry, crowdedApp.routes, crowdedApp.hooks⟩ := rfl
  exact ⟨built, by decide +kernel, _, complete, serves _ complete, by decide +kernel, by decide +kernel⟩

end App

end SchemaRpc
