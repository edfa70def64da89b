import SchemaRpc.Json.Printer
import SchemaRpc.RpcError

/-!
# Requests and responses
-/

namespace SchemaRpc

inductive HttpVersion where
  | http09
  | http10
  | http11
  | http2
  | http3
  deriving DecidableEq, Inhabited

namespace HttpVersion

def label : HttpVersion → String
  | http09 => "HTTP/0.9"
  | http10 => "HTTP/1.0"
  | http11 => "HTTP/1.1"
  | http2 => "HTTP/2.0"
  | http3 => "HTTP/3.0"

def ofLabel? : String → Option HttpVersion
  | "HTTP/0.9" => some http09
  | "HTTP/1.0" => some http10
  | "HTTP/1.1" => some http11
  | "HTTP/2.0" => some http2
  | "HTTP/3.0" => some http3
  | _ => none

/-- Before the second version a connection carries one exchange at a time and a header asks to keep it. -/
def hasConnectionHeader : HttpVersion → Bool
  | http2 => false
  | http3 => false
  | _ => true

theorem ofLabel?_label (v : HttpVersion) : ofLabel? v.label = some v := by
  cases v <;> rfl

end HttpVersion

/-- A name and a value, in the order of the message. -/
abbrev Headers := List (String × String)

namespace Http

structure Request where
  method : String := "POST"
  path : String
  query : Option String := none
  version : HttpVersion := .http11
  headers : Headers := []
  body : ByteArray := .empty
  deriving Inhabited

namespace Request

def target (r : Request) : String :=
  r.path ++ (r.query.map fun query => "?" ++ query).getD ""

/-- Path and query of a target. A fragment is dropped, and an empty path is the root. -/
def splitTarget (target : String) : String × Option String :=
  let chars := target.toList.takeWhile (· != '#')
  let path := String.ofList (chars.takeWhile (· != '?'))
  let query := (chars.dropWhile (· != '?')).tail?.map String.ofList
  (if path.isEmpty then "/" else path, query)

def isVisible (c : Char) : Bool :=
  c == '\t' || (' ' ≤ c && c ≤ '~')

/-- The first value of a header, when it is plain text. Names are compared without case. -/
def header? (r : Request) (name : String) : Option String := do
  let (_, value) ← r.headers.find? fun (key, _) => key.toLower == name.toLower
  if value.toList.all isVisible then some value else none

end Request

structure Head where
  status : Nat
  headers : Headers
  deriving DecidableEq, Inhabited

/-- A response whose body is at hand. -/
structure Response extends Head where
  body : String
  deriving DecidableEq, Inhabited

namespace Response

def json (status : Nat) (body : Json) : Response :=
  ⟨⟨status, [("content-type", "application/json")]⟩, body.compress⟩

def ofError (e : RpcError) : Response :=
  json e.status e.toJson

end Response

end Http

end SchemaRpc
