import SchemaRpc.Json.Basic

/-!
# Procedures

A procedure is a named operation on a route, with the names of the definitions that describe its params and its
response.
-/

namespace SchemaRpc

inductive HttpMethod where
  | get
  | post
  | put
  | patch
  | delete
  deriving DecidableEq, Inhabited

namespace HttpMethod

def label : HttpMethod → String
  | get => "get"
  | post => "post"
  | put => "put"
  | patch => "patch"
  | delete => "delete"

def token : HttpMethod → String
  | get => "GET"
  | post => "POST"
  | put => "PUT"
  | patch => "PATCH"
  | delete => "DELETE"

def ofLabel? : String → Option HttpMethod
  | "get" => some get
  | "post" => some post
  | "put" => some put
  | "patch" => some patch
  | "delete" => some delete
  | _ => none

theorem ofLabel?_label (m : HttpMethod) : ofLabel? m.label = some m := by
  cases m <;> rfl

end HttpMethod

structure Procedure where
  /-- Identifiers between dots, such as `users.getUser`. -/
  name : String
  method : HttpMethod := .post
  path : String
  /-- The definition of the params record, if there are params. -/
  params : Option String := none
  /-- The definition of the response or of the events, if there are any. -/
  response : Option String := none
  eventStream : Bool := false
  description : Option String := none
  deprecated : Bool := false
  deriving DecidableEq, Inhabited

namespace Procedure

def toSchema (p : Procedure) : Json :=
  .obj ([("transport", .str "http"), ("path", .str p.path), ("method", .str p.method.label)] ++
    (p.params.map fun name => ("params", Json.str name)).toList ++
    (p.response.map fun name => ("response", Json.str name)).toList ++
    [("isEventStream", .bool p.eventStream), ("isDeprecated", .bool p.deprecated)] ++
    (p.description.map fun text => ("description", Json.str text)).toList)

end Procedure

end SchemaRpc
