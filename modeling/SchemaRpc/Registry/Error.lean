import SchemaRpc.TypeDef.Basic

/-!
# Registration errors

What keeps a shape from becoming a definition, or a procedure from being registered. These are mistakes of the
service's author; none of them arises while requests are answered.
-/

namespace SchemaRpc

inductive Role where
  | params
  | response
  /-- A definition that stands alone; names made up below it carry no role. -/
  | definition
  deriving DecidableEq, Inhabited

namespace Role

def label : Role → String
  | params => "Params"
  | response => "Response"
  | definition => ""

end Role

inductive RegistrationError where
  | anonymousRoot (procedure : String) (role : Role) (suggested : String)
  | nonRecordRoot (procedure : String) (role : Role) (kind : String)
  | invalidDefinition (kind : String)
  | unsupported (kind path : String)
  | misplacedOptional (path : String)
  | nestedQueryParameter (procedure path : String)
  | duplicateProcedure (name : String)
  | duplicateRoute (path existing : String)
  | invalidName (name : String)
  | invalidPath (path : String)
  | model (error : ModelError)
  deriving DecidableEq, Inhabited

namespace RegistrationError

def message : RegistrationError → String
  | anonymousRoot procedure role suggested =>
    "procedure " ++ procedure ++ ": " ++ role.label ++ " must be a named record (for example " ++ suggested ++
      "), found an anonymous record"
  | nonRecordRoot procedure role kind =>
    "procedure " ++ procedure ++ ": " ++ role.label ++ " must be a record, found " ++ kind
  | invalidDefinition kind => "standalone definitions must be named records or unions, found " ++ kind
  | unsupported kind path => "unsupported type " ++ kind ++ " at " ++ path
  | misplacedOptional path => "optional wrapper at " ++ path ++ " is only allowed directly on a record field"
  | nestedQueryParameter procedure path =>
    "procedure " ++ procedure ++ ": query parameter " ++ path ++ " must be a scalar or a flat array of scalars"
  | duplicateProcedure name => "procedure " ++ Text.quoted name ++ " is already registered"
  | duplicateRoute path existing => "route " ++ path ++ " is already used by " ++ existing
  | invalidName name => "invalid procedure name " ++ Text.quoted name
  | invalidPath path => "invalid path " ++ Text.quoted path ++ ": must start with '/'"
  | model error => error.message

def kind : RegistrationError → String
  | anonymousRoot _ _ _ => "AnonymousRoot"
  | nonRecordRoot _ _ _ => "NonRecordRoot"
  | invalidDefinition _ => "InvalidDefinition"
  | unsupported _ _ => "Unsupported"
  | misplacedOptional _ => "MisplacedOptional"
  | nestedQueryParameter _ _ => "NestedQueryParameter"
  | duplicateProcedure _ => "DuplicateProcedure"
  | duplicateRoute _ _ => "DuplicateRoute"
  | invalidName _ => "InvalidName"
  | invalidPath _ => "InvalidPath"
  | model error => error.kind

end RegistrationError

end SchemaRpc
