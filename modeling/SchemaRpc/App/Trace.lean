import SchemaRpc.Dispatch.Rules
import SchemaRpc.Dispatch.Basic
import SchemaRpc.Value.Notation

/-!
# Traces

The lines that the hooks of an application made of rules leave of an exchange, and a scripted handler of its
session.
-/

namespace SchemaRpc

namespace Caller

def line (c : Caller) : String :=
  "user=" ++ c.user.getD "-" ++ " tags=" ++ ",".intercalate c.tags

end Caller

/-- What the lines of one exchange are made of. -/
structure Trace where
  request : Http.Request
  /-- The procedure's name, or a dash. -/
  procedure : String
  showsFactory : Bool := true
  showsHooks : Bool := true
  showsHandler : Bool := true

namespace Trace

/-- A line of a hook other than the factory. -/
def hookLine (t : Trace) (words : List String) : List String :=
  if t.showsHooks then [" ".intercalate words] else []

def errorLine (t : Trace) (context : Option Caller) (e : RpcError) : List String :=
  t.hookLine ["error", toString e.code.toNat, e.message, t.procedure, (context.map Caller.line).getD "noctx"]

def afterLine (t : Trace) (context : Caller) (body : Json) : List String :=
  t.hookLine ["after", t.procedure, context.line, body.compress]

def ofExchange (t : Trace) : ExchangeEvent Caller → List String
  | .contextSought => if t.showsFactory then ["factory " ++ t.procedure] else []
  | .requestSeen =>
    t.hookLine ["request", t.request.method, t.request.target, t.request.version.label, t.procedure,
      "headers=" ++ toString t.request.headers.length]
  | .middlewareRan index => t.hookLine ["mw" ++ toString index, t.procedure]
  | .handlerCalled context params true =>
    if t.showsHandler then
      [" ".intercalate ["handler", t.procedure, context.line, params.toNotation.compress]]
    else []
  | .beforeResponse context body => t.hookLine ["before", context.line, body.compress]
  | .afterResponse context body => t.afterLine context body
  | .failed context e _ => t.errorLine context e
  | _ => []

def ofSession {μ : Type} (t : Trace) (context : Caller) : SessionEvent μ → List String
  | .replied (.pushed (.ok ())) => ["push ok"]
  | .replied (.pushed (.error e)) => ["push " ++ e.message]
  | .replied .closed => ["close"]
  | .replied .done => ["done"]
  | .replied (.observed phase) =>
    ["state " ++ phase.label ++ " " ++ (if phase = .closed then "true" else "false")]
  | .replied _ => []
  | .completed => t.afterLine context .null
  | .failed e => t.errorLine (some context) e

end Trace

end SchemaRpc
