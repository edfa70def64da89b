import SchemaRpc.Casing
import SchemaRpc.Registry.Error
import SchemaRpc.Shape.Basic

/-!
# From shapes to definitions

Introspection turns a shape into a definition. Each declared record or union becomes one entry of the table, under
its declared name or one made up from the procedure, the fields on the way and the role; every use of it is a
reference. A name is reserved before the members are looked at, which is what ends the walk of a recursive type.
The table keeps what was entered when the walk fails.
-/

namespace SchemaRpc

structure Introspection (n : Nat) where
  catalog : Catalog n
  procedure : String
  role : Role

namespace Introspection

/-- A walk that changes the table, also when it is refused. -/
abbrev Walk (α : Type) := ExceptT RegistrationError (StateM Definitions) α

variable {n : Nat}

/-- Runs an operation on the table; a breach of the type model refuses the walk. -/
def onTable (operation : Definitions → Except ModelError Definitions) : Walk Unit := do
  match operation (← get) with
  | .ok defs => set defs
  | .error error => throw (.model error)

def lift {α : Type} (result : Except ModelError α) : Walk α :=
  match result with
  | .ok a => pure a
  | .error error => throw (.model error)

/-- The name made up for what is reached over the given fields. -/
def synthesizedName (w : Introspection n) (path : List String) : String :=
  Casing.pascalCase w.procedure ++ String.join (path.map Casing.pascalCase) ++ w.role.label

def nameFor (w : Introspection n) (info : TypeInfo) (path : List String) : String :=
  info.name.getD (w.synthesizedName path)

def displayPath (path : List String) : String :=
  "/" ++ "/".intercalate path

def metadataOf (info : TypeInfo) (id : Option String) : Metadata :=
  ⟨id, info.description, info.deprecated⟩

/-- The definition of a field's shape with the field's own documentation added. -/
def document (field : FieldDecl (Shape n)) (t : TypeDef) : TypeDef :=
  t.withMetadata
    { t.metadata with
      description := field.description <|> t.metadata.description
      deprecated := t.metadata.deprecated || field.deprecated }

/-- Definitions of declared types, as found over the given fields. -/
abbrev Expansion (n : Nat) := Fin n → List String → Walk TypeDef

def walkShape (expand : Expansion n) (path : List String) : Shape n → Walk TypeDef
  | .primitive kind => pure (.primitive kind)
  | .array item => return .elements (← walkShape expand path item)
  | .map item => return .values (← walkShape expand path item)
  | .nullable inner => return (← walkShape expand path inner).withNullable true
  | .any => pure .any
  | .optional _ => throw (.misplacedOptional (displayPath path))
  | .unit => throw (.unsupported "()" (displayPath path))
  | .unsupported name => throw (.unsupported name (displayPath path))
  | .declared slot => expand slot path

/-- The shape of a field without its optional wrapper, and whether there was one. -/
def splitOptional : Shape n → Shape n × Bool
  | .optional inner => (inner, true)
  | shape => (shape, false)

def walkFields (expand : Expansion n) (path : List String) : List (FieldDecl (Shape n)) → Walk (List (Property TypeDef))
  | [] => pure []
  | field :: rest => do
    let (shape, optional) := splitOptional field.type
    let t ← walkShape expand (path ++ [field.name]) shape
    return ⟨field.name, document field t, optional⟩ :: (← walkFields expand path rest)

def walkObject (expand : Expansion n) (path : List String) (fields : List (FieldDecl (Shape n))) :
    Walk (List (Property TypeDef)) := do
  lift (TypeDef.checkProperties (← walkFields expand path fields))

/-- The variants of a union, in order; a tag counts as a field on the way. -/
def walkVariants (expand : Expansion n) (path : List String) :
    List (VariantDecl (Shape n)) → Walk (List (String × List (Property TypeDef)))
  | [] => pure []
  | variant :: rest => do
    let properties ← walkObject expand (path ++ [variant.tag]) variant.fields
    return (variant.tag, properties) :: (← walkVariants expand path rest)

/-- The body of a record or union, and the definition itself of an enumeration. -/
def walkMembers (expand : Expansion n) (path : List String) : Members (Shape n) → Walk TypeDef
  | .record fields => return .object (← walkObject expand path fields)
  | .union key variants => do lift (TypeDef.unionOf key (← walkVariants expand path variants))
  | .enumeration values => lift (TypeDef.enumeration values)

/-- Enters a record or union: reserves its name, goes through its members and stores the body. -/
def enter (w : Introspection n) (expand : Expansion n) (path : List String) (info : TypeInfo)
    (members : Members (Shape n)) : Walk TypeDef := do
  let name := w.nameFor info path
  onTable fun defs => defs.reserve name (some info.id)
  let body ← walkMembers expand path members
  onTable fun defs => defs.insert name (body.withMetadata (metadataOf info (some name))) (some info.id)
  return .ref name

/-- The definition of a declared type: an enumeration stands where it is used, a record or union is referred to
and entered into the table on first use. -/
def visit (w : Introspection n) (expand : Expansion n) : Expansion n := fun slot path =>
  let ⟨info, members⟩ := w.catalog.get slot
  match members with
  | .enumeration values =>
    return (← lift (TypeDef.enumeration values)).withMetadata (metadataOf info info.name)
  | members => do
    match (← get).nameOf? info.id with
    | some name => return .ref name
    | none => w.enter expand path info members

/-- Definitions of declared types with at most `fuel` uses inside one another. Every nested first use reserves one
more of the `n` types, so a fuel of `n + 1` is never used up. -/
def expand (w : Introspection n) : Nat → Expansion n
  | 0 => fun slot path => throw (.unsupported (w.nameFor (w.catalog.get slot).info path) (displayPath path))
  | fuel + 1 => w.visit (w.expand fuel)

/-- The definition name of a root: a record or union that has a name or is already in the table. The unit shape
has none. -/
def rootBy (w : Introspection n) (expand : Expansion n) (shape : Shape n) : Walk (Option String) := do
  let refused : RegistrationError := .nonRecordRoot w.procedure w.role (shape.kindName w.catalog)
  match shape with
  | .unit => return none
  | .declared slot =>
    let ⟨info, members⟩ := w.catalog.get slot
    match members with
    | .enumeration _ => throw refused
    | _ =>
      if info.name.isNone && ((← get).nameOf? info.id).isNone then
        throw (.anonymousRoot w.procedure w.role (w.synthesizedName []))
      let t ← expand slot []
      return t.refName?
  | _ => throw refused

/-- The definition name of a root, with what is reached from it entered into the table. -/
def root (w : Introspection n) (shape : Shape n) : Walk (Option String) :=
  w.rootBy (w.expand (n + 1)) shape

end Introspection

end SchemaRpc
