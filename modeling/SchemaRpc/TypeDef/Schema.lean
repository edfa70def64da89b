import SchemaRpc.Casing
import SchemaRpc.Json.Basic
import SchemaRpc.TypeDef.Basic

/-!
# Schema documents

A definition as a JSON document. Property names and discriminator keys go through the casing, so the document
describes what travels on the wire; enum values, tags and reference names stay as declared.
-/

namespace SchemaRpc

namespace Metadata

def toSchema (m : Metadata) : List (String × Json) :=
  (m.id.map fun id => ("id", Json.str id)).toList ++
    (m.description.map fun text => ("description", Json.str text)).toList ++
    (if m.deprecated then [("isDeprecated", Json.bool true)] else [])

end Metadata

namespace TypeDef

/-- The members `properties`, which is always there, and `optionalProperties`, which is there unless empty. -/
def objectMembers (parts : Json.Members × Json.Members) : List (String × Json) :=
  ("properties", Json.obj parts.1) ::
    (if parts.2.isEmpty then [] else [("optionalProperties", Json.obj parts.2)])

mutual

def toSchema (casing : Casing) : TypeDef → Json
  | ⟨form, nullable, metadata⟩ =>
    .obj (schemaOfForm casing form ++
      (if nullable then [("nullable", .bool true)] else []) ++
      (if metadata.isEmpty then [] else [("metadata", .obj metadata.toSchema)]))

def schemaOfForm (casing : Casing) : Form TypeDef → List (String × Json)
  | .any => []
  | .primitive kind => [("type", .str kind.label)]
  | .enumeration values => [("enum", Json.ofStrings values)]
  | .elements item => [("elements", item.toSchema casing)]
  | .values item => [("values", item.toSchema casing)]
  | .object properties => objectMembers (schemaOfProperties casing ([], []) properties)
  | .ref name => [("ref", .str name)]
  | .union key mapping =>
    [("discriminator", .str (casing.apply key)), ("mapping", .obj (schemaOfMapping casing [] mapping))]

/-- Required and optional properties under their wire keys, added to those already there. -/
def schemaOfProperties (casing : Casing) (parts : Json.Members × Json.Members) :
    List (Property TypeDef) → Json.Members × Json.Members
  | [] => parts
  | ⟨name, type, optional⟩ :: rest =>
    let key := casing.apply name
    let schema := type.toSchema casing
    let parts :=
      if optional then (parts.1, parts.2.set key schema) else (parts.1.set key schema, parts.2)
    schemaOfProperties casing parts rest

def schemaOfMapping (casing : Casing) (done : Json.Members) :
    List (String × List (Property TypeDef)) → Json.Members
  | [] => done
  | (tag, properties) :: rest =>
    let variant := Json.obj (objectMembers (schemaOfProperties casing ([], []) properties))
    schemaOfMapping casing (done.set tag variant) rest

end

end TypeDef

end SchemaRpc
