import SchemaRpc.Dispatch.Hooks

/-!
# Hooks made of rules

Hooks that are given as data. A rule tells for which requests it holds, and then tags the context or refuses the
request.
-/

namespace SchemaRpc

structure Caller where
  user : Option String := none
  tags : List String := []
  deriving DecidableEq, Inhabited

/-- A rule holds when all its conditions do. -/
structure Rule where
  /-- A header and the value that it must have. -/
  header : Option (String × String) := none
  procedure : Option String := none
  tag : Option String := none
  error : Option RpcError := none

namespace Rule

def holds (rule : Rule) (request : Http.Request) (name : String) : Bool :=
  rule.header.all (fun (key, value) => request.header? key == some value) && rule.procedure.all (· == name)

/-- Runs rules in order up to the first that refuses the request. -/
def run : List Rule → ContextHook Caller
  | [], _, _, caller => (.ok (), caller)
  | rule :: rest, request, name, caller =>
    if rule.holds request name then
      let caller := { caller with tags := caller.tags ++ rule.tag.toList }
      match rule.error with
      | some error => (.error error, caller)
      | none => run rest request name caller
    else run rest request name caller

def check (rules : List Rule) (request : Http.Request) (name : String) : Except RpcError Unit :=
  (run rules request name {}).1

end Rule

structure RuleBook where
  factory : List Rule := []
  request : List Rule := []
  middleware : List (List Rule) := []
  before : List Rule := []
  errorPanics : Bool := false
  /-- Contexts are made without rules and know no user. -/
  defaultContext : Bool := false

namespace RuleBook

def caller (book : RuleBook) (request : Http.Request) (name : String) : Except RpcError Caller :=
  if book.defaultContext then .ok {}
  else (Rule.check book.factory request name).map fun () => { user := request.header? "x-user" }

def hooks (book : RuleBook) : Hooks Caller where
  createContext := book.caller
  onRequest := Rule.run book.request
  middleware := book.middleware.map Rule.run
  beforeResponse request name _ _ := Rule.check book.before request name
  onError _ _ _ _ := if book.errorPanics then .panicked else .heard

end RuleBook

end SchemaRpc
