import SchemaRpc.App.Basic

/-!
# Routers

A router answers requests for the schema itself and hands all others to the dispatcher. Which paths the route of the schema
takes is up to the matching of routes: one that captures nothing takes only the path that it is (`App.router`).
-/

namespace SchemaRpc

structure Router (γ ω β : Type) where
  dispatcher : Dispatcher γ ω β
  /-- The route of the schema takes the path. -/
  onSchema : String → Bool
  schema : Json

namespace Router

variable {γ ω β : Type}

/-- The response to a request on the path of the schema. Only its body tells HEAD from GET. -/
def schemaResponse (r : Router γ ω β) (method : String) : Http.Response :=
  let response := Http.Response.json 200 r.schema
  if method = "GET" then response
  else if method = "HEAD" then { response with body := "" }
  else ⟨⟨405, [("allow", "GET,HEAD")]⟩, ""⟩

def dispatch (r : Router γ ω β) (request : Http.Request) (state : ω) : Exchange γ ω β :=
  if r.onSchema request.path then
    { procedure := none, events := [], answer := .response (r.schemaResponse request.method), state }
  else r.dispatcher.dispatch request state

end Router

namespace App

variable {γ ω β : Type}

/-- The router of an application, where `takes` tells which paths a route takes. -/
def routerWith (app : App γ ω β) (takes : String → String → Bool) : Except RegistrationError (Router γ ω β) :=
  app.dispatcher.map fun dispatcher =>
    { dispatcher, onSchema := fun path => app.schemaPath?.any fun route => takes route path, schema := app.schema }

/-- The router of an application whose route of the schema captures nothing. -/
def router (app : App γ ω β) : Except RegistrationError (Router γ ω β) :=
  app.routerWith fun route path => route == path

end App

end SchemaRpc
