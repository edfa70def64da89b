import SchemaRpc.Text.Blank
import SchemaRpc.Text.Case
import SchemaRpc.Typed.Basic

/-!
# Declared types from their sources

A type is written down as a record, an enumeration or a union, with comments, deprecation marks and options that
rename it, its fields and its variants. `TypeSource.declaration` gives the declaration.
-/

namespace SchemaRpc

/-- How the identifiers of variants become enum values and tags. -/
inductive RenameRule where
  | lower
  | upper
  | camel
  | snake
  | screamingSnake
  | kebab
  deriving DecidableEq, Inhabited

namespace RenameRule

/-- A new word begins at every upper-case character; `current` holds the open word in reverse. -/
def wordsFrom (current : List Char) : List Char → List (List Char)
  | [] => if current.isEmpty then [] else [current.reverse]
  | c :: rest =>
    if Text.isUppercase c && !current.isEmpty then current.reverse :: wordsFrom [c] rest
    else wordsFrom (c :: current) rest

def words (ident : String) : List (List Char) :=
  wordsFrom [] ident.toList

def apply (rule : RenameRule) (ident : String) : String :=
  String.ofList <|
    match rule with
    | lower => Text.lowercaseWord ident.toList
    | upper => Text.uppercaseWord ident.toList
    | camel =>
      match words ident with
      | [] => []
      | first :: rest => Text.lowercaseWord first ++ rest.flatten
    | snake => Text.lowercaseWord (List.intercalate ['_'] (words ident))
    | screamingSnake => Text.uppercaseWord (List.intercalate ['_'] (words ident))
    | kebab => Text.lowercaseWord (List.intercalate ['-'] (words ident))

end RenameRule

structure FieldSource (n : Nat) where
  ident : String
  type : Ty n
  rename : Option String := none
  comment : List String := []
  deprecated : Bool := false

/-- A variant as written down; it may have no field list at all. -/
structure VariantSource (n : Nat) where
  ident : String
  fields : Option (List (FieldSource n)) := none
  rename : Option String := none
  comment : List String := []

inductive TypeBody (n : Nat) where
  | fields (fields : List (FieldSource n))
  | variants (variants : List (VariantSource n))

structure TypeSource (n : Nat) where
  ident : String
  name : Option String := none
  anonymous : Bool := false
  discriminator : String := "type"
  renameAll : Option RenameRule := none
  comment : List String := []
  deprecated : Bool := false
  body : TypeBody n

def trimBlank (s : List Char) : List Char :=
  ((s.dropWhile Text.isBlank).reverse.dropWhile Text.isBlank).reverse

/-- The lines of a comment, trimmed, as a description; a blank comment gives none. -/
def describe (comment : List String) : Option String :=
  let text := trimBlank (List.intercalate ['\n'] (comment.map fun line => trimBlank line.toList))
  if text.isEmpty then none else some (String.ofList text)

namespace FieldSource

variable {n : Nat}

def declaration (field : FieldSource n) : FieldDecl (Ty n) :=
  ⟨field.rename.getD field.ident, field.type, describe field.comment, field.deprecated⟩

end FieldSource

namespace TypeSource

variable {n : Nat}

/-- The tag of a variant: its own name, or its identifier under the rule for all. -/
def tag (source : TypeSource n) (variant : VariantSource n) : String :=
  variant.rename.getD ((source.renameAll.map fun rule => rule.apply variant.ident).getD variant.ident)

def variant (source : TypeSource n) (variant : VariantSource n) : VariantDecl (Ty n) :=
  ⟨source.tag variant, describe variant.comment, (variant.fields.getD []).map FieldSource.declaration⟩

/-- The declared members. Variants make an enumeration when none of them has a field list. -/
def members (source : TypeSource n) : Members (Ty n) :=
  match source.body with
  | .fields fields => .record (fields.map FieldSource.declaration)
  | .variants variants =>
    if variants.all fun variant => variant.fields.isNone then .enumeration (variants.map source.tag)
    else .union source.discriminator (variants.map source.variant)

def declaration (source : TypeSource n) (id : TypeId) : Declaration (Ty n) where
  info :=
    { id
      name := if source.anonymous then none else some (source.name.getD source.ident)
      description := describe source.comment
      deprecated := source.deprecated }
  members := source.members

end TypeSource

end SchemaRpc
