import SchemaRpc.Folder
import SchemaRpc.Registry.Basic
import SchemaRpc.Text.Blank
import SchemaRpc.Toml.Document

/-!
# Application options

The options of an application with their defaults, how they are checked, and how they are read from a TOML text.
Of several faults the first in the order of `AppOptions.fault?` is reported.
-/

namespace SchemaRpc

inductive ConfigError where
  | io (error : FileError)
  /-- The text is no TOML, or a value in it has the wrong type. -/
  | toml
  | invalid (text : String)
  deriving DecidableEq, Inhabited

namespace ConfigError

def message : ConfigError → String
  | io error => "I/O error: " ++ error.message
  | toml => "TOML parse error"
  | invalid text => "Invalid configuration: " ++ text

end ConfigError

structure AppOptions where
  name : String := "parley"
  version : String := "0.1.0"
  description : String := ""
  /-- Prepended to every route: empty, or segments after slashes. -/
  routePrefix : String := ""
  keyCasing : Casing := .camel
  /-- The most containers around one another in decoded values. -/
  maxDepth : Nat := 64
  /-- For procedures that do not set a method. -/
  defaultMethod : HttpMethod := .post
  /-- Seconds between the pings of an event stream. -/
  pingIntervalSecs : Nat := 10
  /-- The route of the schema below the prefix; empty for none. -/
  definitionPath : String := "/__definition"
  maxBodyBytes : Nat := 2097152
  deriving DecidableEq, Inhabited

namespace AppOptions

def fault? (o : AppOptions) : Option String :=
  if Text.allBlank o.name then some "Application name is empty"
  else if !o.routePrefix.isEmpty && (!o.routePrefix.startsWith "/" || o.routePrefix.endsWith "/") then
    some ("Route prefix " ++ Text.quoted o.routePrefix ++ " must start with '/' and not end with '/'")
  else if !o.definitionPath.isEmpty && !o.definitionPath.startsWith "/" then
    some ("Definition path " ++ Text.quoted o.definitionPath ++ " must start with '/'")
  else if o.maxDepth == 0 then some "max_depth must be at least 1"
  else if o.pingIntervalSecs == 0 then some "ping_interval_secs must be at least 1"
  else if o.maxBodyBytes == 0 then some "max_body_bytes must be at least 1"
  else none

def validate (o : AppOptions) : Except ConfigError Unit :=
  match o.fault? with
  | some text => .error (.invalid text)
  | none => .ok ()

/-- The info of the schema. An empty description is none. -/
def info (o : AppOptions) : AppInfo :=
  ⟨o.name, if o.description.isEmpty then none else some o.description, o.version⟩

def codec (o : AppOptions) (definitions : Definitions) : Codec :=
  ⟨definitions, o.keyCasing, o.maxDepth⟩

end AppOptions

namespace Toml.Value

def asString? : Toml.Value → Option String
  | str s => some s
  | _ => none

def asNat? (bound : Nat) : Toml.Value → Option Nat
  | int n => if 0 ≤ n && n < bound then some n.toNat else none
  | _ => none

/-- One of several names: as a string, or as the only key of a table with nothing under it. -/
def asName? : Toml.Value → Option String
  | str s => some s
  | table [(key, v)] => if v.isEmptyContainer then some key else none
  | _ => none

/-- The entry of that name, or for an array the item at that place. -/
def member? (key : String) (place : Nat) : Toml.Value → Option Toml.Value
  | table entries => entries.lookup key
  | array items => items[place]?
  | _ => none

def read? {α : Type} (v : Toml.Value) (key : String) (place : Nat) (as? : Toml.Value → Option α) (default : α) :
    Option α :=
  match v.member? key place with
  | some v => as? v
  | none => some default

end Toml.Value

namespace AppOptions

/-- The options of a table, or of an array that lists them in order. Missing ones take their defaults. -/
def ofToml? (v : Toml.Value) : Option AppOptions :=
  let standard : AppOptions := {}
  let casing? (v : Toml.Value) := v.asName?.bind Casing.ofLabel?
  let method? (v : Toml.Value) := v.asName?.bind HttpMethod.ofLabel?
  let word? := Toml.Value.asNat? (2 ^ 64)
  let readAll : Option AppOptions := do
    return {
      name := ← v.read? "name" 0 Toml.Value.asString? standard.name
      version := ← v.read? "version" 1 Toml.Value.asString? standard.version
      description := ← v.read? "description" 2 Toml.Value.asString? standard.description
      routePrefix := ← v.read? "route_prefix" 3 Toml.Value.asString? standard.routePrefix
      keyCasing := ← v.read? "key_casing" 4 casing? standard.keyCasing
      maxDepth := ← v.read? "max_depth" 5 word? standard.maxDepth
      defaultMethod := ← v.read? "default_method" 6 method? standard.defaultMethod
      pingIntervalSecs := ← v.read? "ping_interval_secs" 7 word? standard.pingIntervalSecs
      definitionPath := ← v.read? "definition_path" 8 Toml.Value.asString? standard.definitionPath
      maxBodyBytes := ← v.read? "max_body_bytes" 9 word? standard.maxBodyBytes }
  match v with
  | .table _ => readAll
  | .array _ => readAll
  | _ => none

def ofText (text : String) : Except ConfigError AppOptions :=
  match (Toml.parse? text).bind ofToml? with
  | none => .error .toml
  | some o => o.validate.map fun () => o

def ofFile (text : Except FileError String) : Except ConfigError AppOptions :=
  match text with
  | .error error => .error (.io error)
  | .ok text => ofText text

end AppOptions

end SchemaRpc
