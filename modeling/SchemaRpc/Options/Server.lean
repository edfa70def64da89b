import SchemaRpc.Json.Printer
import SchemaRpc.Options.Basic

/-!
# Server configuration

The address, the log level and the bearer token of a server, and the options of the application that it serves.
-/

namespace SchemaRpc

structure ServerConfig where
  bind : String := "0.0.0.0"
  port : UInt16 := 8080
  logLevel : String := "info"
  authToken : Option String := none
  app : AppOptions := {}
  deriving DecidableEq, Inhabited

namespace ServerConfig

def fault? (c : ServerConfig) : Option String :=
  if Text.allBlank c.bind then some "Bind address is empty"
  else if c.authToken.any Text.allBlank then some "auth_token is empty"
  else c.app.fault?

def validate (c : ServerConfig) : Except ConfigError Unit :=
  match c.fault? with
  | some text => .error (.invalid text)
  | none => .ok ()

def address (c : ServerConfig) : String :=
  c.bind ++ ":" ++ toString c.port.toNat

/-- The configuration of a table. Missing entries take their defaults. -/
def ofToml? (v : Toml.Value) : Option ServerConfig := do
  let standard : ServerConfig := {}
  return {
    bind := ← v.read? "bind" 0 Toml.Value.asString? standard.bind
    port := UInt16.ofNat (← v.read? "port" 1 (Toml.Value.asNat? (2 ^ 16)) standard.port.toNat)
    logLevel := ← v.read? "log_level" 2 Toml.Value.asString? standard.logLevel
    authToken := ← v.read? "auth_token" 3 (fun v => v.asString?.map some) none
    app := ← v.read? "app" 4 AppOptions.ofToml? standard.app }

def ofFile (text : Except FileError String) : Except ConfigError ServerConfig :=
  match text with
  | .error error => .error (.io error)
  | .ok text =>
    match (Toml.parse? text).bind ofToml? with
    | none => .error .toml
    | some c => c.validate.map fun () => c

def stringLine (key value : String) : String :=
  key ++ " = " ++ String.ofList (Json.writeString value) ++ "\n"

def numberLine (key : String) (value : Nat) : String :=
  key ++ " = " ++ toString value ++ "\n"

def appLines (o : AppOptions) : String :=
  stringLine "name" o.name ++ stringLine "version" o.version ++ stringLine "description" o.description ++
    stringLine "route_prefix" o.routePrefix ++ stringLine "key_casing" o.keyCasing.label ++
    numberLine "max_depth" o.maxDepth ++ stringLine "default_method" o.defaultMethod.label ++
    numberLine "ping_interval_secs" o.pingIntervalSecs ++ stringLine "definition_path" o.definitionPath ++
    numberLine "max_body_bytes" o.maxBodyBytes

/-- The configuration as a TOML text that is read back as such. -/
def toText (c : ServerConfig) : String :=
  stringLine "bind" c.bind ++ numberLine "port" c.port.toNat ++ stringLine "log_level" c.logLevel ++
    ((c.authToken.map (stringLine "auth_token")).getD "") ++ "\n[app]\n" ++ appLines c.app

end ServerConfig

end SchemaRpc
