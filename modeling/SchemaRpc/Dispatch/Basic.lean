import SchemaRpc.Codec.Decode
import SchemaRpc.Codec.Encode
import SchemaRpc.Dispatch.Hooks
import SchemaRpc.EventStream.Session.Basic
import SchemaRpc.Http.Form
import SchemaRpc.Options.Basic

/-!
# Dispatching requests

A request passes the steps of `Dispatcher.accept`, is handled, and its result is encoded. The first step that fails
ends the exchange; its error is reported to the error observer and is the response. A panic in the code that runs
once the handler is entered counts as an internal error; one before that escapes.
-/

namespace SchemaRpc

/-- What the call of a handler comes to before anything of it runs. -/
inductive Entry (α : Type) where
  /-- The params are none that the handler takes. -/
  | refused (error : CodecError)
  /-- The call itself panics. -/
  | brokeOff
  | entered (value : α)

/-- What answers the requests of a route: a state `ω` is shared by all handlers, and event streams start in some
state in `β`. -/
inductive Endpoint (γ ω β : Type) where
  | unary (handle : Value → γ → ω → Entry (Ending Value) × ω)
  | stream (enter : Value → γ → ω → Entry β × ω)

structure Route (γ ω β : Type) where
  procedure : Procedure
  endpoint : Endpoint γ ω β

structure Dispatcher (γ ω β : Type) where
  options : AppOptions
  registry : Registry
  routes : Entries (Route γ ω β)
  hooks : Hooks γ

/-- A step of an exchange, as those who look on see it. -/
inductive ExchangeEvent (γ : Type) where
  | routeSought
  | contextSought
  | requestSeen
  | methodChecked
  | middlewareRan (index : Nat)
  | paramsSought
  /-- The handler is called; `taken` tells whether it takes the params. -/
  | handlerCalled (context : γ) (params : Value) (taken : Bool)
  | responseEncoded
  | beforeResponse (context : γ) (body : Json)
  | afterResponse (context : γ) (body : Json)
  | failed (context : Option γ) (error : RpcError) (observed : Observation)

inductive Halt (γ : Type) where
  | failed (context : Option γ) (error : RpcError)
  | escaped

structure Passage (γ ω : Type) where
  events : List (ExchangeEvent γ) := []
  state : ω

abbrev Pipeline (γ ω α : Type) := ExceptT (Halt γ) (StateM (Passage γ ω)) α

/-- An event stream whose handler has been entered. -/
structure Opening (γ β : Type) where
  procedure : Procedure
  context : γ
  version : HttpVersion
  entry : Except CodecError β

inductive Answer (γ β : Type) where
  | response (r : Http.Response)
  | stream (opening : Opening γ β)
  /-- A panic ends the exchange without a response. -/
  | escaped

structure Exchange (γ ω β : Type) where
  procedure : Option String
  events : List (ExchangeEvent γ)
  answer : Answer γ β
  state : ω

namespace Pipeline

variable {γ ω α : Type}

def note (event : ExchangeEvent γ) : Pipeline γ ω Unit :=
  modify fun passage => { passage with events := passage.events ++ [event] }

def orFail (context : Option γ) : Except RpcError α → Pipeline γ ω α
  | .ok value => pure value
  | .error error => throw (.failed context error)

def withContext (result : Except RpcError Unit × γ) : Pipeline γ ω γ :=
  match result with
  | (.ok (), context) => pure context
  | (.error error, context) => throw (.failed (some context) error)

end Pipeline

/-- A request that has passed all steps before its handler. -/
structure Admission (γ ω β : Type) where
  route : Route γ ω β
  context : γ
  params : Value

namespace Dispatcher

variable {γ ω β : Type}

def route? (d : Dispatcher γ ω β) (path : String) : Option (Route γ ω β) :=
  d.routes.find? path

def codec (d : Dispatcher γ ω β) : Codec :=
  d.options.codec d.registry.definitions

/-- The bytes of a body, unless there are more than the bound. -/
def readBody (d : Dispatcher γ ω β) (request : Http.Request) : Except RpcError ByteArray :=
  if request.body.size > d.options.maxBodyBytes then
    .error (.badRequest "Failed to read request body: length limit exceeded")
  else .ok request.body

def orBadRequest {α : Type} (result : Except CodecError α) : Except RpcError α :=
  result.mapError .ofCodecError

/-- The params of a request: from the query for a GET procedure and from the body for all others, where a blank body
counts as the empty record. -/
def decodeParams (d : Dispatcher γ ω β) (p : Procedure) (request : Http.Request) : Except RpcError Value :=
  match p.params, p.method with
  | none, _ => .ok .absent
  | some name, .get => orBadRequest (d.codec.decodeQuery (Http.Form.decode (request.query.getD "")) (.ref name))
  | some name, _ => do
    let body ← d.readBody request
    let body := if body.toList.all Text.isAsciiBlank then "\x7b\x7d".toUTF8 else body
    orBadRequest (d.codec.decode body (.ref name))

/-- Runs middleware in order, each with the context as the one before has left it. -/
def runMiddleware (request : Http.Request) (name : String) :
    Nat → List (ContextHook γ) → γ → Pipeline γ ω γ
  | _, [], context => return context
  | index, hook :: rest, context => do
    Pipeline.note (.middlewareRan index)
    let context ← Pipeline.withContext (hook request name context)
    runMiddleware request name (index + 1) rest context

def accept (d : Dispatcher γ ω β) (request : Http.Request) : Pipeline γ ω (Admission γ ω β) := do
  Pipeline.note .routeSought
  let some route := d.route? request.path | throw (.failed none .notFound)
  let p := route.procedure
  Pipeline.note .contextSought
  let context ← Pipeline.orFail none (d.hooks.createContext request p.name)
  Pipeline.note .requestSeen
  let context ← Pipeline.withContext (d.hooks.onRequest request p.name context)
  Pipeline.note .methodChecked
  if request.method ≠ p.method.token then throw (.failed (some context) .notFound)
  let context ← runMiddleware request p.name 0 d.hooks.middleware context
  Pipeline.note .paramsSought
  let params ← Pipeline.orFail (some context) (d.decodeParams p request)
  return { route, context, params }

/-- The JSON of a result; the empty object for a procedure without a response. Nothing is told about a failure. -/
def encodeResponse (d : Dispatcher γ ω β) (p : Procedure) (value : Value) : Except RpcError Json :=
  match p.response with
  | none => .ok (.obj [])
  | some name => (d.codec.encodeJson value (.ref name)).mapError fun _ => .internal

def encodeEvent (d : Dispatcher γ ω β) (p : Procedure) (value : Value) : Except CodecError String :=
  match p.response with
  | none => .ok "\x7b\x7d"
  | some name => d.codec.encode value (.ref name)

/-- Changes the shared state by a call of a handler, and lets those who look on see the call. -/
def enter {α : Type} (context : γ) (params : Value) (call : ω → Entry α × ω) : Pipeline γ ω (Except CodecError α) := do
  let passage ← get
  let (entry, state) := call passage.state
  set { passage with state }
  match entry with
  | .refused error => do
    Pipeline.note (.handlerCalled context params false)
    return .error error
  | .brokeOff => do
    Pipeline.note (.handlerCalled context params false)
    throw .escaped
  | .entered value => do
    Pipeline.note (.handlerCalled context params true)
    return .ok value

def answerUnary (d : Dispatcher γ ω β) (request : Http.Request) (p : Procedure) (context : γ) (params : Value)
    (handle : Value → γ → ω → Entry (Ending Value) × ω) : Pipeline γ ω Http.Response := do
  let entered ← enter context params (handle params context)
  let ending ← Pipeline.orFail (some context) (orBadRequest entered)
  let value ← Pipeline.orFail (some context) ending.result
  Pipeline.note .responseEncoded
  let body ← Pipeline.orFail (some context) (d.encodeResponse p value)
  Pipeline.note (.beforeResponse context body)
  Pipeline.orFail (some context) (d.hooks.beforeResponse request p.name context body)
  Pipeline.note (.afterResponse context body)
  return .json 200 body

def answer (d : Dispatcher γ ω β) (request : Http.Request) (a : Admission γ ω β) : Pipeline γ ω (Answer γ β) := do
  let p := a.route.procedure
  match a.route.endpoint with
  | .unary handle => return .response (← d.answerUnary request p a.context a.params handle)
  | .stream start =>
    let entry ← enter a.context a.params (start a.params a.context)
    return .stream ⟨p, a.context, request.version, entry⟩

/-- Reports a failure. What becomes of the observer changes nothing else. -/
def failure (d : Dispatcher γ ω β) (request : Http.Request) (name : Option String) (context : Option γ)
    (error : RpcError) : ExchangeEvent γ :=
  .failed context error (d.hooks.onError request name context error)

def dispatch (d : Dispatcher γ ω β) (request : Http.Request) (state : ω) : Exchange γ ω β :=
  let procedure := (d.route? request.path).map fun route => route.procedure.name
  let steps : Pipeline γ ω (Answer γ β) := do d.answer request (← d.accept request)
  match steps.run.run { state } with
  | (.ok answer, passage) => { procedure, events := passage.events, answer, state := passage.state }
  | (.error (.failed context error), passage) =>
    { procedure
      events := passage.events ++ [d.failure request procedure context error]
      answer := .response (.ofError error)
      state := passage.state }
  | (.error .escaped, passage) => { procedure, events := passage.events, answer := .escaped, state := passage.state }

def openSession {μ : Type} (d : Dispatcher γ ω β) (opening : Opening γ β) : Session β μ :=
  Session.new (d.options.pingIntervalSecs * 1000)
    (match opening.entry with
      | .ok state => .moving state .entered
      | .error error => .ended (.failed (.ofCodecError error)))

def source {μ : Type} (d : Dispatcher γ ω β) (opening : Opening γ β) (next : β → Reply μ → β × Move) :
    EventSource β μ :=
  { next, encode := d.encodeEvent opening.procedure }

end Dispatcher

end SchemaRpc
