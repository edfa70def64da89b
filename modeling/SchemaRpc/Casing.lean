import SchemaRpc.Text.Blank
import SchemaRpc.Text.Case

/-!
# Key casing

A declared name is split into words at separators and at changes of case, and joined again in one of four
styles. The same words give route segments (kebab case) and made-up definition names (pascal case).
-/

namespace SchemaRpc

/-- The style of property and discriminator keys on the wire. -/
inductive Casing where
  | identity
  | camel
  | pascal
  | snake
  deriving DecidableEq, Inhabited

namespace Casing

/-- Characters that end a word and belong to none. -/
def isSeparator (c : Char) : Bool :=
  c == '_' || c == '-' || c == '.' || c == '/' || Text.isBlank c

/-- A word ends before the upper-case character `c` when the character before it is lower case or an ASCII
digit, or upper case itself with a lower-case character after `c`. -/
def breaksBefore (previous c : Char) (next : Option Char) : Bool :=
  Text.isUppercase c &&
    (Text.isLowercase previous || previous.isDigit ||
      (Text.isUppercase previous && next.any Text.isLowercase))

/-- Words of the rest of a name. `current` holds the open word in reverse; its head is therefore the character
just read. -/
def wordsFrom (current : List Char) : List Char → List (List Char)
  | [] => if current.isEmpty then [] else [current.reverse]
  | c :: rest =>
    if isSeparator c then
      if current.isEmpty then wordsFrom [] rest else current.reverse :: wordsFrom [] rest
    else
      match current with
      | [] => wordsFrom [c] rest
      | previous :: _ =>
        if breaksBefore previous c rest.head? then current.reverse :: wordsFrom [c] rest
        else wordsFrom (c :: current) rest

/-- The words of a name, none of them empty. -/
def words (name : String) : List (List Char) :=
  wordsFrom [] name.toList

/-- `created_at` as `createdAt`. -/
def camelCase (name : String) : String :=
  match words name with
  | [] => ""
  | first :: rest => String.ofList (Text.lowercaseWord first ++ rest.flatMap Text.capitalize)

/-- `created_at` as `CreatedAt`. -/
def pascalCase (name : String) : String :=
  String.ofList ((words name).flatMap Text.capitalize)

def joinLower (separator : String) (name : String) : String :=
  separator.intercalate ((words name).map fun word => String.ofList (Text.lowercaseWord word))

def snakeCase (name : String) : String :=
  joinLower "_" name

def kebabCase (name : String) : String :=
  joinLower "-" name

def apply : Casing → String → String
  | identity, name => name
  | camel, name => camelCase name
  | pascal, name => pascalCase name
  | snake, name => snakeCase name

def label : Casing → String
  | identity => "identity"
  | camel => "camel"
  | pascal => "pascal"
  | snake => "snake"

def all : List Casing := [identity, camel, pascal, snake]

def ofLabel? : String → Option Casing
  | "identity" => some identity
  | "camel" => some camel
  | "pascal" => some pascal
  | "snake" => some snake
  | _ => none

theorem ofLabel?_label (c : Casing) : ofLabel? c.label = some c := by
  cases c <;> rfl

theorem mem_all (c : Casing) : c ∈ all := by
  cases c <;> decide

end Casing

end SchemaRpc
