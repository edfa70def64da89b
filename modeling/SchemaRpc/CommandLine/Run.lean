import SchemaRpc.CommandLine.Arguments
import SchemaRpc.Notes.Service
import SchemaRpc.Options.Server

/-!
# Running commands

A run reads and writes the files of one folder, and leaves an exit code and two texts.
-/

namespace SchemaRpc.CommandLine

/-- What a run writes besides its output. -/
inductive Complaint where
  | none
  | text (s : String)
  | usage
  /-- A configuration that cannot be read, after a text of the program's own. -/
  | unreadable (before : String)
  deriving DecidableEq, Inhabited

structure Outcome where
  code : Nat
  output : String := ""
  complaint : Complaint := .none
  folder : Folder
  /-- The configuration to serve with, when that is asked for and everything is in order. -/
  serving : Option ServerConfig := none

def failure (folder : Folder) (complaint : Complaint) : Outcome :=
  { code := 1, complaint, folder }

def errorLine (description : String) : Complaint :=
  .text ("Error: " ++ description ++ "\n")

def describeFileError (e : FileError) : String :=
  "Os \x7b code: " ++ toString e.code ++ ", kind: " ++ e.kind ++ ", message: " ++ Text.quoted e.reason ++ " \x7d"

def configComplaint : ConfigError → Complaint
  | .io e => errorLine ("Io(" ++ describeFileError e ++ ")")
  | .toml => .unreadable "Error: Toml("
  | .invalid text => errorLine ("Invalid(" ++ Text.quoted text ++ ")")

/-- The complaint about a procedure. The only fault that options can bring about is a route taken by the schema. -/
def registrationComplaint : RegistrationError → Complaint
  | .duplicateRoute path existing =>
    errorLine ("DuplicateRoute \x7b path: " ++ Text.quoted path ++ ", existing: " ++ Text.quoted existing ++ " \x7d")
  | e => errorLine e.message

/-- The configuration of a run: that of the file, if one is named, with what the arguments say in its place. -/
def configuration (folder : Folder) (i : Invocation) : Except ConfigError ServerConfig := do
  let c : ServerConfig ←
    match i.config with
    | some path => ServerConfig.ofFile (folder.read path)
    | none => .ok {}
  let c : ServerConfig :=
    { bind := i.bind.getD c.bind
      port := i.port.getD c.port
      logLevel := i.logLevel.getD c.logLevel
      authToken := i.authToken.or c.authToken
      app := { c.app with routePrefix := i.routePrefix.getD c.app.routePrefix } }
  c.validate
  return c

def writeFile (folder : Folder) (path text report : String) : Outcome :=
  match folder.write path text with
  | .ok folder => { code := 0, output := report ++ path ++ "\n", folder }
  | .error e => failure folder (errorLine (describeFileError e))

def runSchema (folder : Folder) (c : ServerConfig) (output : Option String) : Outcome :=
  match Notes.build c.app c.authToken, output with
  | .error e, _ => failure folder (registrationComplaint e)
  | .ok app, none => { code := 0, output := app.schema.pretty ++ "\n", folder }
  | .ok app, some path => writeFile folder path app.schema.pretty "Wrote schema: "

/-- Checks that the procedures can be served. -/
def runServe (folder : Folder) (c : ServerConfig) : Outcome :=
  match (Notes.build c.app c.authToken).bind App.dispatcher with
  | .error e => failure folder (registrationComplaint e)
  | .ok _ => { code := 0, folder, serving := some c }

def exampleConfig : ServerConfig :=
  { app := { name := "notes", description := "In-memory notes service", routePrefix := "/rpc" } }

def exampleText : String :=
  "# Parley Server Configuration\n# Generated by parley-server gen-config\n\n" ++ exampleConfig.toText ++ "\n"

def report (c : ServerConfig) : String :=
  "Configuration valid!\n\nApp: " ++ c.app.name ++ " v" ++ c.app.version ++ "\nListen: " ++ c.address ++
    "\nPrefix: " ++ (if c.app.routePrefix.isEmpty then "(none)" else c.app.routePrefix) ++ "\n"

/-- Checks a configuration file and the procedures under it. -/
def runValidate (folder : Folder) (path : String) : Outcome :=
  match ServerConfig.ofFile (folder.read path) with
  | .error .toml => failure folder (.unreadable "Configuration invalid: ")
  | .error e => failure folder (.text ("Configuration invalid: " ++ e.message ++ "\n"))
  | .ok c =>
    match (Notes.build c.app c.authToken).bind App.dispatcher with
    | .error e => failure folder (.text ("Procedures invalid: " ++ e.message ++ "\n"))
    | .ok _ => { code := 0, output := report c, folder }

def runConfigured (folder : Folder) (i : Invocation) (run : ServerConfig → Outcome) : Outcome :=
  match configuration folder i with
  | .error e => failure folder (configComplaint e)
  | .ok c => run c

def Invocation.run (i : Invocation) (folder : Folder) : Outcome :=
  match i.command with
  | .serve => runConfigured folder i (runServe folder)
  | .schema output => runConfigured folder i fun c => runSchema folder c output
  | .genConfig output => writeFile folder output exampleText "Generated configuration file: "
  | .validate config => runValidate folder config

def run (arguments : List String) (folder : Folder) : Outcome :=
  match parse arguments with
  | .ok i => i.run folder
  | .error (.print text) => { code := 0, output := text, folder }
  | .error .usage => { code := 2, complaint := .usage, folder }

end SchemaRpc.CommandLine
