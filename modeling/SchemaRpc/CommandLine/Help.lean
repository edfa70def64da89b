import SchemaRpc.CommandLine.Basic

/-!
# Help texts
-/

namespace SchemaRpc.CommandLine

def padTo (width : Nat) (s : String) : String :=
  s ++ String.ofList (List.replicate (width - s.length) ' ')

/-- Rows of two columns, the second at one place in all of them. -/
def columns (rows : List (String × String)) : String :=
  let width := (rows.map fun (left, _) => left.length).foldl max 0
  String.join (rows.map fun (left, right) => "  " ++ padTo width left ++ "  " ++ right ++ "\n")

namespace OptionSpec

def usage (o : OptionSpec) : String :=
  "--" ++ o.long ++ " <" ++ o.valueName ++ ">"

def row (o : OptionSpec) (shortColumn : Bool) : String × String :=
  let short :=
    match o.short with
    | some c => "-" ++ String.singleton c ++ ", "
    | none => if shortColumn then "    " else ""
  (short ++ o.usage, o.description ++ (o.default.map fun value => " [default: " ++ value ++ "]").getD "")

end OptionSpec

def optionRows (options : List OptionSpec) (others : List (String × String)) : String :=
  "Options:\n" ++ columns (options.map (fun o => o.row true) ++ others)

def helpRow : String × String := ("-h, --help", "Print help")

def programHelp : String :=
  programDescription ++ "\n\nUsage: " ++ programName ++ " [OPTIONS] [COMMAND]\n\nCommands:\n" ++
    columns ((commands.map fun spec => (spec.name, spec.description)) ++
      [("help", "Print this message or the help of the given subcommand(s)")]) ++
    "\n" ++ optionRows globalOptions [helpRow, ("-V, --version", "Print version")]

namespace CommandSpec

def help (spec : CommandSpec) : String :=
  let required := spec.options.filter OptionSpec.required
  spec.description ++ "\n\nUsage: " ++ programName ++ " " ++ spec.name ++
    (if required.length < spec.options.length then " [OPTIONS]" else "") ++
    String.join (required.map fun o => " " ++ o.usage) ++ "\n\n" ++ optionRows spec.options [helpRow]

end CommandSpec

end SchemaRpc.CommandLine
