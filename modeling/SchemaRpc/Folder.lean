import SchemaRpc.Entries

/-!
# Folders

A folder of text files without subfolders, and why a path in it cannot be used.
-/

namespace SchemaRpc

inductive FileError where
  | notFound
  | notADirectory
  | isADirectory
  deriving DecidableEq, Inhabited

namespace FileError

def code : FileError → Nat
  | notFound => 2
  | notADirectory => 20
  | isADirectory => 21

def kind : FileError → String
  | notFound => "NotFound"
  | notADirectory => "NotADirectory"
  | isADirectory => "IsADirectory"

def reason : FileError → String
  | notFound => "No such file or directory"
  | notADirectory => "Not a directory"
  | isADirectory => "Is a directory"

def message (e : FileError) : String :=
  e.reason ++ " (os error " ++ toString e.code ++ ")"

end FileError

abbrev Folder := Entries String

namespace Folder

/-- The pieces of a text between slashes, of which the first is begun. -/
def splitFrom (current : List Char) : List Char → List String
  | [] => [String.ofList current.reverse]
  | c :: rest =>
    if c = '/' then String.ofList current.reverse :: splitFrom [] rest else splitFrom (c :: current) rest

/-- The names along a path; a dot leads nowhere. -/
def steps (path : String) : List String :=
  (splitFrom [] path.toList).filter fun step => !step.isEmpty && step ≠ "."

def locate (folder : Folder) (path : String) : Except FileError String :=
  if path.isEmpty || path.startsWith "/" then .error .notFound
  else
    match steps path with
    | [] => .error .isADirectory
    | [name] =>
      if !path.endsWith "/" then .ok name
      else if folder.contains name then .error .notADirectory
      else .error .isADirectory
    | name :: _ => .error (if folder.contains name then .notADirectory else .notFound)

def read (folder : Folder) (path : String) : Except FileError String := do
  let name ← folder.locate path
  match folder.find? name with
  | some text => return text
  | none => throw .notFound

def write (folder : Folder) (path text : String) : Except FileError Folder := do
  let name ← folder.locate path
  return folder.insert name text

/-- The name that a path leads to is the same in every folder. -/
theorem locate_eq_ok {folder : Folder} {path name : String} (place : folder.locate path = .ok name)
    {other : Folder} : other.locate path = .ok name := by
  unfold locate at place ⊢
  by_cases refused : (path.isEmpty || path.startsWith "/") = true
  · simp [refused] at place
  · simp only [refused] at place ⊢
    match found : steps path with
    | [] => simp [found] at place
    | [file] =>
      by_cases slash : path.endsWith "/" = true
      · by_cases there : folder.contains file = true <;> simp [found, slash, there] at place
      · simpa [found, slash] using place
    | _ :: _ :: _ => simp [found] at place

theorem read_write {folder written : Folder} {path text : String} (success : folder.write path text = .ok written) :
    written.read path = .ok text := by
  unfold write at success
  cases place : folder.locate path with
  | error e => simp [place, bind, Except.bind] at success
  | ok name =>
    simp only [place, bind, Except.bind, pure, Except.pure, Except.ok.injEq] at success
    subst success
    simp [read, locate_eq_ok place, bind, Except.bind, pure, Except.pure]

end Folder

end SchemaRpc
