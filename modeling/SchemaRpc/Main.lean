import SchemaRpc.CommandLine.Run

/-!
# The program

Works on the files of the folder that it is started in.
-/

namespace SchemaRpc.CommandLine

def Invocation.sources (i : Invocation) : List String :=
  match i.command with
  | .validate config => [config]
  | _ => i.config.toList

def loadFolder (paths : List String) : IO Folder :=
  paths.foldlM (fun folder path => do
    match folder.locate path with
    | .error _ => return folder
    | .ok name =>
      try return folder.insert name (← IO.FS.readFile name)
      catch _ => return folder) []

/-- Writes the files that a run has changed. -/
def saveFolder (before after : Folder) : IO Unit :=
  List.forM after fun (name, text) => do
    if before.find? name ≠ some text then IO.FS.writeFile name text

def printComplaint : Complaint → IO Unit
  | .none => return
  | .text s => IO.eprint s
  | .usage => IO.eprint programHelp
  | .unreadable before => IO.eprintln (before ++ ConfigError.toml.message)

def runHere (arguments : List String) : IO UInt32 := do
  let paths :=
    match parse arguments with
    | .ok i => i.sources
    | .error _ => []
  let folder ← loadFolder paths
  let outcome := run arguments folder
  IO.print outcome.output
  printComplaint outcome.complaint
  saveFolder folder outcome.folder
  if let some config := outcome.serving then
    IO.println ("Ready to serve at " ++ config.address)
  return outcome.code.toUInt32

end SchemaRpc.CommandLine

def main (arguments : List String) : IO UInt32 :=
  SchemaRpc.CommandLine.runHere arguments
