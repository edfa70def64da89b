import SchemaRpc.Proofs.Codec.Places
import SchemaRpc.Proofs.Schema.Document

/-!
# Marks in schema documents

The documentation of a definition stands in the metadata of its node: a description and a mark of deprecation
(`TypeDef.isMarked_toSchema`). The node of a property is found by the keyword for required or optional properties and the
wire key, unless a later property has the same place (`TypeDef.follow?_place`), that of a variant by its tag.
-/

namespace SchemaRpc

namespace Json

/-- The metadata of a node has this description, or none, and says whether the node is deprecated. -/
structure IsMarked (description : Option String) (deprecated : Bool) (node : Json) : Prop where
  description : node.follow? ["metadata", "description"] = description.map .str
  deprecated : node.follow? ["metadata", "isDeprecated"] = if deprecated then some (.bool true) else none

theorem follow?_key (key : String) (members : Members) : (obj members).follow? [key] = members.get? key :=
  Option.bind_fun_some _

namespace Members

theorem get?_foldl_set_of_not_mem {key : String} {pairs : List (String × Json)} {done : Members}
    (absent : key ∉ pairs.map Prod.fst) :
    get? key (pairs.foldl (fun members (k, value) => members.set k value) done) = get? key done := by
  induction pairs generalizing done with
  | nil =>
      rfl
  | cons head tail inductionHypothesis =>
      rw [List.map_cons, List.mem_cons, not_or] at absent
      rw [List.foldl_cons, inductionHypothesis absent.2]
      exact get?_set_of_ne absent.1 head.2 done

/-- Of the pairs with one key the last counts. -/
theorem get?_foldl_set {key : String} {value : Json} {earlier later : List (String × Json)} {done : Members}
    (last : key ∉ later.map Prod.fst) :
    get? key ((earlier ++ (key, value) :: later).foldl (fun members (k, value) => members.set k value) done) =
      some value := by
  rw [List.foldl_append, List.foldl_cons, get?_foldl_set_of_not_mem last]
  exact get?_set_self key value _

end Members

end Json

namespace Property

variable {τ : Type}

/-- Where a property stands in the document of its object. -/
def place (casing : Casing) (p : Property τ) : List String :=
  [if p.optional then "optionalProperties" else "properties", casing.apply p.name]

end Property

namespace TypeDef

variable {casing : Casing} {t : TypeDef}

/-! ## Metadata -/

theorem follow?_toSchema (keyword : String) (rest : List String) :
    (t.toSchema casing).follow? (keyword :: rest) =
      ((t.schemaMembers casing).get? keyword).bind (Json.follow? rest) := by
  rw [toSchema_eq]
  rfl

theorem get?_metadata :
    (t.schemaMembers casing).get? "metadata" =
      if t.metadata.isEmpty then none else some (.obj t.metadata.toSchema) := by
  have notInForm : (schemaOfForm casing t.form).lookup "metadata" = none := by
    cases t.form with
    | object properties =>
        simp only [schemaOfForm_object, objectMembers]
        split <;> simp [List.lookup_cons]
    | any | primitive | enumeration | elements | values | ref | union =>
        simp [List.lookup_cons]
  rw [Json.Members.get?, schemaMembers, List.append_assoc, List.lookup_append, notInForm, List.lookup_append]
  cases t.nullable <;> cases t.metadata.isEmpty <;> simp [List.lookup_cons]

/-- The node of a definition is marked as its metadata says. -/
theorem isMarked_toSchema (casing : Casing) (t : TypeDef) :
    (t.toSchema casing).IsMarked t.metadata.description t.metadata.deprecated := by
  constructor
  all_goals
    rw [follow?_toSchema, get?_metadata]
    obtain ⟨id, description, deprecated⟩ := t.metadata
    cases id <;> cases description <;> cases deprecated <;> rfl

/-- The node of a definition depends on its form alone, but for the flag and the metadata. -/
theorem follow?_elements {item : TypeDef} (form : t.form = .elements item) (rest : List String) :
    (t.toSchema casing).follow? ("elements" :: rest) = (item.toSchema casing).follow? rest := by
  rw [follow?_toSchema, get?_schemaMembers (by decide) (by decide), form]
  rfl

theorem follow?_values {item : TypeDef} (form : t.form = .values item) (rest : List String) :
    (t.toSchema casing).follow? ("values" :: rest) = (item.toSchema casing).follow? rest := by
  rw [follow?_toSchema, get?_schemaMembers (by decide) (by decide), form]
  rfl

/-! ## Properties and variants -/

theorem propertySchemas_split {p : Property TypeDef} {earlier later : List (Property TypeDef)} :
    propertySchemas casing p.optional (earlier ++ p :: later) =
      propertySchemas casing p.optional earlier ++
        (casing.apply p.name, p.type.toSchema casing) :: propertySchemas casing p.optional later := by
  rw [propertySchemas, collect, List.filterMap_append, List.filterMap_cons]
  simp [propertySchemas, collect]

/-- A property is found at its place, unless a later one takes it. -/
theorem follow?_place {properties earlier later : List (Property TypeDef)} {p : Property TypeDef}
    (form : t.form = .object properties) (split : properties = earlier ++ p :: later)
    (last : ∀ other ∈ later, other.place casing ≠ p.place casing) :
    (t.toSchema casing).follow? (p.place casing) = some (p.type.toSchema casing) := by
  have lastOfItsKind : casing.apply p.name ∉ (propertySchemas casing p.optional later).map Prod.fst := by
    intro repeated
    obtain ⟨⟨key, _⟩, listed, sameKey⟩ := List.mem_map.1 repeated
    obtain ⟨other, isLater, shown⟩ := List.mem_filterMap.1 listed
    dsimp only at shown sameKey
    by_cases sameKind : other.optional = p.optional
    · rw [if_pos sameKind] at shown
      cases shown
      refine last other isLater ?_
      rw [Property.place, Property.place, sameKind, sameKey]
    · rw [if_neg sameKind] at shown
      cases shown
  have found := @Json.Members.get?_foldl_set _ (p.type.toSchema casing) (propertySchemas casing p.optional earlier) _ []
    lastOfItsKind
  rw [← propertySchemas_split, ← split] at found
  have members : schemaOfForm casing t.form = objectMembers (schemaOfProperties casing ([], []) properties) := by
    rw [form]
    rfl
  rw [schemaOfProperties_eq_foldl] at members
  rw [Property.place, follow?_toSchema]
  cases isOptional : p.optional with
  | false =>
      rw [isOptional] at found
      rw [if_neg Bool.false_ne_true, get?_schemaMembers (by decide) (by decide), members]
      exact (Json.follow?_key _ _).trans found
  | true =>
      rw [isOptional] at found
      rw [if_pos rfl, get?_schemaMembers (by decide) (by decide), members, objectMembers, if_neg]
      · exact (Json.follow?_key _ _).trans found
      · intro isEmpty
        have empty := List.isEmpty_iff.1 isEmpty
        dsimp only at empty
        rw [empty] at found
        cases found

/-- The node of a variant is that of a record that says nothing about itself. -/
theorem follow?_variant {key : String} {mapping : List (String × List (Property TypeDef))}
    (form : t.form = .union key mapping) (tags : (mapping.map Prod.fst).Nodup)
    {variant : String × List (Property TypeDef)} (listed : variant ∈ mapping) :
    (t.toSchema casing).follow? ["mapping", variant.1] = some ((object variant.2).toSchema casing) := by
  rw [follow?_toSchema, get?_mapping form tags]
  show (Json.Members.get? variant.1 (variantSchemas casing mapping)).bind _ = _
  rw [get?_variantSchemas, lookup_of_mem tags listed]
  rfl

theorem follow?_metadata_object (properties : List (Property TypeDef)) :
    ((object properties).toSchema casing).follow? ["metadata"] = none := by
  rw [follow?_toSchema, get?_metadata]
  rfl

end TypeDef

end SchemaRpc
