import SchemaRpc.Entries

/-!
# Commands and their options

The commands of the program as data, from which both the reading of arguments and the help texts follow.
-/

namespace SchemaRpc.CommandLine

inductive ValueKind where
  | text
  /-- Not empty. -/
  | path
  | port
  deriving DecidableEq

structure OptionSpec where
  long : String
  short : Option Char := none
  valueName : String
  description : String
  kind : ValueKind := .text
  default : Option String := none
  required : Bool := false

structure CommandSpec where
  name : String
  description : String
  options : List OptionSpec := []

def programName : String := "parley-server"

def programVersion : String := "0.1.0"

def programDescription : String := "Schema-driven RPC demonstration server"

def globalOptions : List OptionSpec :=
  [{ long := "config", short := some 'c', valueName := "CONFIG", kind := .path
     description := "Configuration file path" },
    { long := "bind", short := some 'b', valueName := "BIND"
      description := "Bind address (overrides the config file)" },
    { long := "port", short := some 'p', valueName := "PORT", kind := .port
      description := "HTTP server port (overrides the config file)" },
    { long := "prefix", valueName := "PREFIX"
      description := "Route prefix, e.g. /rpc (overrides the config file)" },
    { long := "auth-token", valueName := "AUTH_TOKEN"
      description := "Bearer token required by notes.* procedures" },
    { long := "log-level", valueName := "LOG_LEVEL"
      description := "Log level (trace, debug, info, warn, error)" }]

def serveSpec : CommandSpec :=
  { name := "serve", description := "Serve the procedures (default)" }

def schemaSpec : CommandSpec :=
  { name := "schema"
    description := "Print the schema document"
    options :=
      [{ long := "output", short := some 'o', valueName := "OUTPUT", kind := .path
         description := "Write to a file instead of stdout" }] }

def genConfigSpec : CommandSpec :=
  { name := "gen-config"
    description := "Generate example configuration file"
    options :=
      [{ long := "output", short := some 'o', valueName := "OUTPUT", kind := .path
         description := "Output file path", default := some "parley.toml" }] }

def validateSpec : CommandSpec :=
  { name := "validate"
    description := "Validate a configuration file"
    options :=
      [{ long := "config", short := some 'c', valueName := "CONFIG", kind := .path
         description := "Configuration file path", required := true }] }

/-- The commands in the order of the help text. -/
def commands : List CommandSpec :=
  [serveSpec, schemaSpec, genConfigSpec, validateSpec]

def command? (name : String) : Option CommandSpec :=
  commands.find? fun spec => spec.name == name

end SchemaRpc.CommandLine
