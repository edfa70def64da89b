import SchemaRpc.Codec.Query
import SchemaRpc.Procedure.Route
import SchemaRpc.Procedure.Basic
import SchemaRpc.Shape.Introspection
import SchemaRpc.TypeDef.Schema

/-!
# The registry

The procedures of an application and the table of their definitions, filled while the application is built and
only read afterwards. A refused registration adds no procedure, though the table keeps the names and bodies that
were entered on the way.
-/

namespace SchemaRpc

structure Registry where
  definitions : Definitions := {}
  procedures : Entries Procedure := []
  deriving Inhabited

namespace Registry

variable {n : Nat}

/-- The procedure that already has a name or a route of the given one. -/
def conflict? (r : Registry) (p : Procedure) : Option RegistrationError :=
  if r.procedures.contains p.name then some (.duplicateProcedure p.name)
  else
    (List.find? (fun (_, q) => q.path == p.path) r.procedures).map fun (_, q) => .duplicateRoute p.path q.name

/-- Params of a GET procedure come from the query string; the first property that cannot is the fault. -/
def queryConflict? (defs : Definitions) (p : Procedure) : Option RegistrationError :=
  match p.method, p.params with
  | .get, some name => (defs.queryFault? (.ref name)).map fun path => .nestedQueryParameter p.name path
  | _, _ => none

/-- A procedure with the definitions of its shapes filled in, and the table after that. -/
def introspect (catalog : Catalog n) (p : Procedure) (params response : Shape n) :
    Introspection.Walk Procedure := do
  let params ← Introspection.root ⟨catalog, p.name, .params⟩ params
  let response ← Introspection.root ⟨catalog, p.name, .response⟩ response
  let p := { p with params, response }
  match queryConflict? (← get) p with
  | some error => throw error
  | none => return p

def register (r : Registry) (catalog : Catalog n) (p : Procedure) (params response : Shape n) :
    Except RegistrationError Procedure × Registry :=
  match r.conflict? p with
  | some error => (.error error, r)
  | none =>
    match (introspect catalog p params response).run.run r.definitions with
    | (.ok p, definitions) => (.ok p, ⟨definitions, r.procedures.insert p.name p⟩)
    | (.error error, definitions) => (.error error, ⟨definitions, r.procedures⟩)

def definitionName (catalog : Catalog n) (shape : Shape n) : Except RegistrationError String :=
  match shape with
  | .declared slot =>
    let ⟨info, members⟩ := catalog.get slot
    match members, info.name with
    | .enumeration _, _ => .error (.invalidDefinition "enum")
    | _, some name => .ok name
    | _, none => .error (.invalidDefinition ("anonymous " ++ shape.kindName catalog))
  | shape => .error (.invalidDefinition (shape.kindName catalog))

def define (r : Registry) (catalog : Catalog n) (shape : Shape n) : Except RegistrationError String × Registry :=
  match definitionName catalog shape with
  | .error error => (.error error, r)
  | .ok name =>
    let walk := Introspection.root ⟨catalog, name, .definition⟩ shape
    let (result, definitions) := walk.run.run r.definitions
    (result.map fun registered => registered.getD name, { r with definitions })

/-- Every name that is reserved or referred to has a body. -/
def validate (r : Registry) : Except RegistrationError Unit :=
  match r.definitions.unresolvedRefs with
  | name :: _ => .error (.model (.unresolvedRef name))
  | [] => .ok ()

def procedure? (r : Registry) (name : String) : Option Procedure :=
  r.procedures.find? name

end Registry

structure AppInfo where
  title : String
  description : Option String
  version : String
  deriving DecidableEq, Inhabited

namespace AppInfo

/-- The info as a JSON object; there is no member for a missing description. -/
def toJson (info : AppInfo) : Json :=
  .obj (("title", .str info.title) ::
    (info.description.map fun text => ("description", Json.str text)).toList ++ [("version", .str info.version)])

end AppInfo

namespace Registry

def schemaVersion : String := "0.0.1"

/-- The schema of an application: its info, its route prefix unless empty, and its procedures and definitions in
name order. -/
def toSchema (r : Registry) (info : AppInfo) (routePrefix : String) (casing : Casing) : Json :=
  .obj ([("schemaVersion", .str schemaVersion), ("info", info.toJson)] ++
    (if routePrefix.isEmpty then [] else [("routePrefix", .str routePrefix)]) ++
    [("procedures", .obj (r.procedures.map fun (name, p) => (name, p.toSchema))),
      ("definitions", .obj (r.definitions.completed.map fun (name, t) => (name, t.toSchema casing)))])

end Registry

end SchemaRpc
