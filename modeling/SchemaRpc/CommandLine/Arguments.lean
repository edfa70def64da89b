import SchemaRpc.CommandLine.Help
import SchemaRpc.Decimal.Reading

/-!
# Reading arguments

Options come before the command and after it, each with those of its place. A value stands after its option, behind
an equals sign, or right behind a short option. No option may be repeated.
-/

namespace SchemaRpc.CommandLine

inductive Command where
  | serve
  | schema (output : Option String)
  | genConfig (output : String)
  | validate (config : String)
  deriving DecidableEq, Inhabited

structure Invocation where
  config : Option String := none
  bind : Option String := none
  port : Option UInt16 := none
  routePrefix : Option String := none
  authToken : Option String := none
  logLevel : Option String := none
  command : Command := .serve
  deriving DecidableEq, Inhabited

/-- Why nothing is to be run. -/
inductive Halt where
  | usage
  /-- A text is asked for instead. -/
  | print (text : String)
  deriving DecidableEq, Inhabited

abbrev Values := Entries String

/-- One place for options: those that take values and, when asked for, a help text and a version. -/
structure Level where
  options : List OptionSpec
  help : String
  version : Option String := none

inductive Word where
  | plain
  /-- What follows is no option. -/
  | escape
  | attached (o : OptionSpec) (value : String)
  /-- The value is the next argument. -/
  | awaiting (o : OptionSpec)
  | halt (h : Halt)

def port? (s : String) : Option UInt16 :=
  match Decimal.readInt? s with
  | some n => if 0 ≤ n && n < 65536 then some (UInt16.ofNat n.toNat) else none
  | none => none

def OptionSpec.takes (o : OptionSpec) (value : String) : Bool :=
  match o.kind with
  | .text => true
  | .path => !value.isEmpty
  | .port => (port? value).isSome

namespace Level

def versionHalt (level : Level) : Word :=
  match level.version with
  | some text => .halt (.print text)
  | none => .halt .usage

def longWord (level : Level) (body : List Char) : Word :=
  let name := String.ofList (body.takeWhile (· ≠ '='))
  match (body.dropWhile (· ≠ '=')).tail?, level.options.find? fun o => o.long == name with
  | none, some o => .awaiting o
  | some value, some o => .attached o (String.ofList value)
  | none, none =>
    if name == "help" then .halt (.print level.help)
    else if name == "version" then level.versionHalt
    else .halt .usage
  | some _, none => .halt .usage

def shortWord (level : Level) (c : Char) (more : List Char) : Word :=
  match level.options.find? fun o => o.short == some c, more with
  | some o, [] => .awaiting o
  | some o, '=' :: value => .attached o (String.ofList value)
  | some o, value => .attached o (String.ofList value)
  | none, _ =>
    if c == 'h' then .halt (.print level.help) else if c == 'V' then level.versionHalt else .halt .usage

def word (level : Level) (argument : String) : Word :=
  match argument.toList with
  | ['-', '-'] => .escape
  | '-' :: '-' :: body => level.longWord body
  | '-' :: c :: more => level.shortWord c more
  | _ => .plain

end Level

/-- Notes the value of an option that has none yet. -/
def store (o : OptionSpec) (value : String) (values : Values) : Except Halt Values :=
  if values.contains o.long || !o.takes value then .error .usage else .ok (values.insert o.long value)

def isValue (argument : String) : Bool :=
  !argument.startsWith "-" || argument == "-"

/-- Reads options up to the first argument that is none. -/
def scan (level : Level) (values : Values) : List String → Except Halt (Values × List String)
  | [] => .ok (values, [])
  | argument :: rest =>
    match level.word argument with
    | .plain => .ok (values, argument :: rest)
    | .escape => if rest.isEmpty then .ok (values, []) else .error .usage
    | .halt h => .error h
    | .attached o value =>
      match store o value values with
      | .ok values => scan level values rest
      | .error h => .error h
    | .awaiting o =>
      match rest with
      | [] => .error .usage
      | value :: rest =>
        match if isValue value then store o value values else .error .usage with
        | .ok values => scan level values rest
        | .error h => .error h

def globalLevel : Level :=
  ⟨globalOptions, programHelp, some (programName ++ " " ++ programVersion ++ "\n")⟩

def readCommand (spec : CommandSpec) (arguments : List String) : Except Halt Values := do
  let (values, rest) ← scan ⟨spec.options, spec.help, none⟩ [] arguments
  let missing := spec.options.any fun o => o.required && !values.contains o.long
  if !rest.isEmpty || missing then throw .usage
  return spec.options.foldl (fun values o =>
    match o.default with
    | some value => if values.contains o.long then values else values.insert o.long value
    | none => values) values

def helpHalt : List String → Halt
  | [] => .print programHelp
  | [name] => ((command? name).map fun spec => Halt.print spec.help).getD .usage
  | _ => .usage

/-- The command that arguments name; without arguments it is to serve. -/
def commandOf : List String → Except Halt Command
  | [] => .ok .serve
  | "help" :: names => .error (helpHalt names)
  | name :: arguments =>
    match command? name with
    | none => .error .usage
    | some spec => do
      let values ← readCommand spec arguments
      let output := values.find? "output"
      if spec.name == schemaSpec.name then return .schema output
      else if spec.name == genConfigSpec.name then return .genConfig (output.getD "")
      else if spec.name == validateSpec.name then return .validate ((values.find? "config").getD "")
      else return .serve

def parse (arguments : List String) : Except Halt Invocation := do
  let (values, rest) ← scan globalLevel [] arguments
  return {
    config := values.find? "config"
    bind := values.find? "bind"
    port := (values.find? "port").bind port?
    routePrefix := values.find? "prefix"
    authToken := values.find? "auth-token"
    logLevel := values.find? "log-level"
    command := ← commandOf rest }

end SchemaRpc.CommandLine
