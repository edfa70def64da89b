import SchemaRpc.Dispatch.Basic

/-!
# Applications

An application collects procedures with their handlers, and is then frozen into a dispatcher. Every registered
procedure has one route, and a refused registration adds none.
-/

namespace SchemaRpc

/-- What is said about a procedure besides its name and shapes. -/
structure ProcedureOptions where
  /-- In place of the path made from the name. -/
  path : Option String := none
  method : Option HttpMethod := none
  description : Option String := none
  deprecated : Bool := false
  deriving DecidableEq, Inhabited

structure App (γ ω β : Type) where
  options : AppOptions := {}
  registry : Registry := {}
  hooks : Hooks γ
  routes : Entries (Route γ ω β) := []

namespace App

variable {γ ω β : Type} {n : Nat}

def schemaPath? (app : App γ ω β) : Option String :=
  if app.options.definitionPath.isEmpty then none
  else some (app.options.routePrefix ++ app.options.definitionPath)

/-- A procedure before its shapes are known. The route of the schema is taken. -/
def declare (app : App γ ω β) (name : String) (o : ProcedureOptions) (eventStream : Bool) :
    Except RegistrationError Procedure := do
  let path ← Procedure.route app.options.routePrefix name o.path
  if app.schemaPath? = some path then throw (.duplicateRoute path "schema")
  return {
    name, path, eventStream
    method := o.method.getD app.options.defaultMethod
    description := o.description
    deprecated := o.deprecated }

def isStream : Endpoint γ ω β → Bool
  | .unary _ => false
  | .stream _ => true

def register (app : App γ ω β) (catalog : Catalog n) (name : String) (o : ProcedureOptions)
    (params response : Shape n) (endpoint : Endpoint γ ω β) : Except RegistrationError Procedure × App γ ω β :=
  match app.declare name o (isStream endpoint) with
  | .error error => (.error error, app)
  | .ok p =>
    match app.registry.register catalog p params response with
    | (.error error, registry) => (.error error, { app with registry })
    | (.ok p, registry) => (.ok p, { app with registry, routes := app.routes.insert p.path ⟨p, endpoint⟩ })

/-- Publishes a definition that no procedure mentions. -/
def define (app : App γ ω β) (catalog : Catalog n) (shape : Shape n) :
    Except RegistrationError String × App γ ω β :=
  let (result, registry) := app.registry.define catalog shape
  (result, { app with registry })

def schema (app : App γ ω β) : Json :=
  app.registry.toSchema app.options.info app.options.routePrefix app.options.keyCasing

def dispatcher (app : App γ ω β) : Except RegistrationError (Dispatcher γ ω β) :=
  app.registry.validate.map fun () =>
    { options := app.options, registry := app.registry, routes := app.routes, hooks := app.hooks }

end App

end SchemaRpc
