import SchemaRpc.Casing
import SchemaRpc.Registry.Error

/-!
# Procedure names and routes

A procedure name is a list of identifiers between dots. Its route is the prefix followed by one segment in kebab
case per identifier, or by a path of its own.
-/

namespace SchemaRpc.Procedure

def splitAtDots (current : List Char) : List Char → List (List Char)
  | [] => [current.reverse]
  | c :: rest => if c == '.' then current.reverse :: splitAtDots [] rest else splitAtDots (c :: current) rest

def segments (name : String) : List (List Char) :=
  splitAtDots [] name.toList

/-- An ASCII letter followed by ASCII letters, digits and underscores. -/
def isIdentifier : List Char → Bool
  | [] => false
  | first :: rest => first.isAlpha && rest.all fun c => c.isAlphanum || c == '_'

def isValidName (name : String) : Bool :=
  (segments name).all isIdentifier

def checkName (name : String) : Except RegistrationError Unit :=
  if isValidName name then .ok () else .error (.invalidName name)

/-- One route segment per identifier of a name, each after a slash. -/
def derivedPath (name : String) : String :=
  String.join ((segments name).map fun segment => "/" ++ Casing.kebabCase (String.ofList segment))

/-- The route of a procedure, with its own path in place of the derived one when there is one. -/
def route (routePrefix name : String) (path : Option String) : Except RegistrationError String := do
  checkName name
  match path with
  | some path => if path.startsWith "/" then return routePrefix ++ path else throw (.invalidPath path)
  | none => return routePrefix ++ derivedPath name

end SchemaRpc.Procedure
