import SchemaRpc.TypeDef.Basic
import SchemaRpc.Value

/-!
# Codec errors and instance paths

An error names the place of the offending value by its path in wire keys: `/` for the root, `/user/tags/0` below
it. A path is extended at its end on the way in (`childPath`) or at its front on the way out (`CodecError.under`).
-/

namespace SchemaRpc

def rootPath : String := "/"

def childPath (parent key : String) : String :=
  if parent == rootPath then "/" ++ key else parent ++ "/" ++ key

/-- A path below one more parent segment. -/
def pathUnder (segment path : String) : String :=
  if path == rootPath then "/" ++ segment else "/" ++ segment ++ path

/-- What is wrong with a value, or with a text that should hold one. -/
inductive CodecError where
  | missingField (path : String)
  | nullNotAllowed (path : String)
  | typeMismatch (path expected actual : String)
  | depthExceeded (path : String) (max : Nat)
  | unknownTag (path tag : String)
  | unknownEnumValue (path value : String)
  | unresolvedRef (name : String)
  | invalidJson
  | invalidValue (path message : String)
  deriving DecidableEq, Inhabited

namespace CodecError

def message : CodecError → String
  | missingField path => "missing required field " ++ path
  | nullNotAllowed path => "null is not allowed at " ++ path
  | typeMismatch path expected actual => "expected " ++ expected ++ " at " ++ path ++ ", found " ++ actual
  | depthExceeded path max => "maximum depth of " ++ toString max ++ " exceeded at " ++ path
  | unknownTag path tag => "unknown discriminator value " ++ Text.quoted tag ++ " at " ++ path
  | unknownEnumValue path value => Text.quoted value ++ " is not an allowed enum value at " ++ path
  | unresolvedRef name => "unresolved type reference " ++ Text.quoted name
  | invalidJson => "invalid JSON"
  | invalidValue path text => "invalid value at " ++ path ++ ": " ++ text

def kind : CodecError → String
  | missingField _ => "MissingField"
  | nullNotAllowed _ => "NullNotAllowed"
  | typeMismatch _ _ _ => "TypeMismatch"
  | depthExceeded _ _ => "DepthExceeded"
  | unknownTag _ _ => "UnknownTag"
  | unknownEnumValue _ _ => "UnknownEnumValue"
  | unresolvedRef _ => "UnresolvedRef"
  | invalidJson => "Json"
  | invalidValue _ _ => "InvalidValue"

def path? : CodecError → Option String
  | missingField path => some path
  | nullNotAllowed path => some path
  | typeMismatch path _ _ => some path
  | depthExceeded path _ => some path
  | unknownTag path _ => some path
  | unknownEnumValue path _ => some path
  | unresolvedRef _ => none
  | invalidJson => none
  | invalidValue path _ => some path

/-- The same error one level further down: its path gets one more parent segment. -/
def under (segment : String) : CodecError → CodecError
  | missingField path => missingField (pathUnder segment path)
  | nullNotAllowed path => nullNotAllowed (pathUnder segment path)
  | typeMismatch path expected actual => typeMismatch (pathUnder segment path) expected actual
  | depthExceeded path max => depthExceeded (pathUnder segment path) max
  | unknownTag path tag => unknownTag (pathUnder segment path) tag
  | unknownEnumValue path value => unknownEnumValue (pathUnder segment path) value
  | unresolvedRef name => unresolvedRef name
  | invalidJson => invalidJson
  | invalidValue path text => invalidValue (pathUnder segment path) text

/-- A breach of the type model met while coding: an unresolved name stays one, the others concern the root. -/
def ofModelError : ModelError → CodecError
  | .unresolvedRef name => unresolvedRef name
  | error => invalidValue rootPath error.message

def outOfRange (path : String) (n : Int) (kind : PrimitiveKind) : CodecError :=
  invalidValue path (toString n ++ " is out of range for " ++ kind.label)

end CodecError

namespace Value

def mismatch (expected : String) (v : Value) : CodecError :=
  .typeMismatch rootPath expected v.kind

def toObject : Value → Except CodecError (Entries Value)
  | object fields => .ok fields
  | v => .error (v.mismatch "object")

def toUnion : Value → Except CodecError (String × Entries Value)
  | union tag fields => .ok (tag, fields)
  | v => .error (v.mismatch "union")

end Value

end SchemaRpc
