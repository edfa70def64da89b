import SchemaRpc.Proofs.Definitions.Resolve
import SchemaRpc.Proofs.Keyed
import SchemaRpc.TypeDef.Schema

/-!
# Looking into schema documents

What is found under the keywords of a document. The form of a definition decides it, except for the flag and the
metadata, which have keywords of their own. Wire keys and tags that are different lose nothing on the way into the
document.
-/

namespace SchemaRpc.TypeDef

variable {casing : Casing} {t : TypeDef} {json : Json} {keyword : String}

/-! ## Forms -/

section Forms

@[simp]
theorem schemaOfForm_any : schemaOfForm casing .any = [] :=
  rfl

@[simp]
theorem schemaOfForm_primitive (kind : PrimitiveKind) :
    schemaOfForm casing (.primitive kind) = [("type", .str kind.label)] :=
  rfl

@[simp]
theorem schemaOfForm_enumeration (listed : List String) :
    schemaOfForm casing (.enumeration listed) = [("enum", Json.ofStrings listed)] :=
  rfl

@[simp]
theorem schemaOfForm_elements (item : TypeDef) :
    schemaOfForm casing (.elements item) = [("elements", item.toSchema casing)] :=
  rfl

@[simp]
theorem schemaOfForm_values (item : TypeDef) :
    schemaOfForm casing (.values item) = [("values", item.toSchema casing)] :=
  rfl

@[simp]
theorem schemaOfForm_object (properties : List (Property TypeDef)) :
    schemaOfForm casing (.object properties) = objectMembers (schemaOfProperties casing ([], []) properties) :=
  rfl

@[simp]
theorem schemaOfForm_ref (name : String) : schemaOfForm casing (.ref name) = [("ref", .str name)] :=
  rfl

@[simp]
theorem schemaOfForm_union (key : String) (mapping : List (String × List (Property TypeDef))) :
    schemaOfForm casing (.union key mapping) =
      [("discriminator", .str (casing.apply key)), ("mapping", .obj (schemaOfMapping casing [] mapping))] :=
  rfl

end Forms

/-! ## Keywords -/

/-- The members of the document of a definition. -/
def schemaMembers (casing : Casing) (t : TypeDef) : Json.Members :=
  schemaOfForm casing t.form ++
    (if t.nullable then [("nullable", .bool true)] else []) ++
    (if t.metadata.isEmpty then [] else [("metadata", .obj t.metadata.toSchema)])

theorem toSchema_eq (casing : Casing) (t : TypeDef) : t.toSchema casing = .obj (t.schemaMembers casing) := by
  cases t
  rfl

theorem eq_schemaMembers {schema : Json.Members} (isDocument : .obj schema = t.toSchema casing) :
    schema = t.schemaMembers casing := by
  rw [toSchema_eq] at isDocument
  exact Json.obj.inj isDocument

theorem get?_schemaMembers (notFlag : keyword ≠ "nullable") (notMetadata : keyword ≠ "metadata") :
    (t.schemaMembers casing).get? keyword = (schemaOfForm casing t.form).lookup keyword := by
  have noFlag : List.lookup keyword (if t.nullable then [("nullable", Json.bool true)] else []) = none := by
    cases t.nullable <;> simp [List.lookup_cons, beq_false_of_ne notFlag]
  have noMetadata :
      List.lookup keyword
        (if t.metadata.isEmpty then [] else [("metadata", Json.obj t.metadata.toSchema)]) = none := by
    cases t.metadata.isEmpty <;> simp [List.lookup_cons, beq_false_of_ne notMetadata]
  rw [Json.Members.get?, schemaMembers, List.lookup_append, List.lookup_append, noFlag, noMetadata]
  simp

theorem get?_nullable :
    (t.schemaMembers casing).get? "nullable" = if t.nullable then some (.bool true) else none := by
  have notInForm : (schemaOfForm casing t.form).lookup "nullable" = none := by
    cases t.form with
    | object properties =>
        simp only [schemaOfForm_object, objectMembers]
        split <;> simp [List.lookup_cons]
    | any | primitive | enumeration | elements | values | ref | union =>
        simp [List.lookup_cons]
  rw [Json.Members.get?, schemaMembers, List.append_assoc, List.lookup_append, notInForm, List.lookup_append]
  cases t.nullable <;> cases t.metadata.isEmpty <;> simp [List.lookup_cons]

/-! ## The form behind a keyword -/

section Keywords

theorem mem_schemaOfForm (notFlag : keyword ≠ "nullable") (notMetadata : keyword ≠ "metadata")
    (found : (t.schemaMembers casing).get? keyword = some json) : (keyword, json) ∈ schemaOfForm casing t.form := by
  rw [get?_schemaMembers notFlag notMetadata] at found
  exact mem_of_lookup found

theorem primitive_of_type (found : (t.schemaMembers casing).get? "type" = some json) :
    ∃ kind, t.form = .primitive kind ∧ json = .str kind.label := by
  have member := mem_schemaOfForm (by decide) (by decide) found
  cases form : t.form with
  | primitive kind =>
      simpa [form] using member
  | any | enumeration | elements | values | object | ref | union =>
      simp [form, objectMembers] at member

theorem enumeration_of_enum (found : (t.schemaMembers casing).get? "enum" = some json) :
    ∃ listed, t.form = .enumeration listed ∧ json = Json.ofStrings listed := by
  have member := mem_schemaOfForm (by decide) (by decide) found
  cases form : t.form with
  | enumeration listed =>
      simpa [form] using member
  | any | primitive | elements | values | object | ref | union =>
      simp [form, objectMembers] at member

theorem elements_of_elements (found : (t.schemaMembers casing).get? "elements" = some json) :
    ∃ item, t.form = .elements item ∧ json = item.toSchema casing := by
  have member := mem_schemaOfForm (by decide) (by decide) found
  cases form : t.form with
  | elements item =>
      simpa [form] using member
  | any | primitive | enumeration | values | object | ref | union =>
      simp [form, objectMembers] at member

theorem values_of_values (found : (t.schemaMembers casing).get? "values" = some json) :
    ∃ item, t.form = .values item ∧ json = item.toSchema casing := by
  have member := mem_schemaOfForm (by decide) (by decide) found
  cases form : t.form with
  | values item =>
      simpa [form] using member
  | any | primitive | enumeration | elements | object | ref | union =>
      simp [form, objectMembers] at member

theorem ref_of_ref (found : (t.schemaMembers casing).get? "ref" = some json) :
    ∃ name, t.form = .ref name ∧ json = .str name := by
  have member := mem_schemaOfForm (by decide) (by decide) found
  cases form : t.form with
  | ref name =>
      simpa [form] using member
  | any | primitive | enumeration | elements | values | object | union =>
      simp [form, objectMembers] at member

theorem object_of_properties (found : (t.schemaMembers casing).get? "properties" = some json) :
    ∃ properties, t.form = .object properties ∧
      json = .obj (schemaOfProperties casing ([], []) properties).1 := by
  have member := mem_schemaOfForm (by decide) (by decide) found
  cases form : t.form with
  | object properties =>
      simpa [form, objectMembers] using member
  | any | primitive | enumeration | elements | values | ref | union =>
      simp [form] at member

theorem union_of_discriminator (found : (t.schemaMembers casing).get? "discriminator" = some json) :
    ∃ key mapping, t.form = .union key mapping ∧ json = .str (casing.apply key) := by
  have member := mem_schemaOfForm (by decide) (by decide) found
  cases form : t.form with
  | union key mapping =>
      simpa [form] using member
  | any | primitive | enumeration | elements | values | object | ref =>
      simp [form, objectMembers] at member

/-- Only the form any has no keyword of its own. -/
theorem form_eq_any_iff :
    (∀ keyword, keyword ≠ "nullable" → keyword ≠ "metadata" → (t.schemaMembers casing).get? keyword = none) ↔
      t.form = .any := by
  constructor
  · intro nothing
    have empty : ∀ keyword, keyword ≠ "nullable" → keyword ≠ "metadata" →
        (schemaOfForm casing t.form).lookup keyword = none := by
      intro keyword notFlag notMetadata
      rw [← get?_schemaMembers notFlag notMetadata]
      exact nothing keyword notFlag notMetadata
    cases form : t.form with
    | any =>
        rfl
    | primitive kind =>
        have absent := empty "type" (by decide) (by decide)
        simp [form] at absent
    | enumeration listed =>
        have absent := empty "enum" (by decide) (by decide)
        simp [form] at absent
    | elements item =>
        have absent := empty "elements" (by decide) (by decide)
        simp [form] at absent
    | values item =>
        have absent := empty "values" (by decide) (by decide)
        simp [form] at absent
    | object properties =>
        have absent := empty "properties" (by decide) (by decide)
        simp [form, objectMembers] at absent
    | ref name =>
        have absent := empty "ref" (by decide) (by decide)
        simp [form] at absent
    | union key mapping =>
        have absent := empty "discriminator" (by decide) (by decide)
        simp [form] at absent
  · intro form keyword notFlag notMetadata
    rw [get?_schemaMembers notFlag notMetadata, form]
    rfl

end Keywords

/-! ## Properties -/

section Properties

variable {properties : List (Property TypeDef)} {key : String}

/-- The documents of the properties that may be missing, or of those that may not, under their wire keys. -/
def propertySchemas (casing : Casing) (optional : Bool) (properties : List (Property TypeDef)) : Json.Members :=
  collect (fun p => casing.apply p.name)
    (fun p => if p.optional = optional then some (p.type.toSchema casing) else none) properties

theorem schemaOfProperties_eq_foldl (parts : Json.Members × Json.Members) :
    schemaOfProperties casing parts properties =
      ((propertySchemas casing false properties).foldl (fun members (k, value) => members.set k value) parts.1,
        (propertySchemas casing true properties).foldl (fun members (k, value) => members.set k value) parts.2) := by
  induction properties generalizing parts with
  | nil =>
      rfl
  | cons head tail inductionHypothesis =>
      obtain ⟨name, type, optional⟩ := head
      rw [schemaOfProperties, inductionHypothesis]
      cases optional with
      | true =>
          simp [propertySchemas, collect_cons]
      | false =>
          simp [propertySchemas, collect_cons]

theorem nodup_keys_propertySchemas (optional : Bool) (distinct : (Form.wireKeys casing properties).Nodup) :
    ((propertySchemas casing optional properties).map Prod.fst).Nodup :=
  keys_collect_sublist.nodup distinct

theorem schemaOfProperties_eq (distinct : (Form.wireKeys casing properties).Nodup) :
    schemaOfProperties casing ([], []) properties =
      (propertySchemas casing false properties, propertySchemas casing true properties) := by
  rw [schemaOfProperties_eq_foldl]
  have required := Json.Members.ofPairs_of_nodup (nodup_keys_propertySchemas false distinct)
  have optional := Json.Members.ofPairs_of_nodup (nodup_keys_propertySchemas true distinct)
  rw [Json.Members.ofPairs] at required optional
  rw [required, optional]

theorem get?_propertySchemas_eq_some_iff {optional : Bool} (distinct : (Form.wireKeys casing properties).Nodup) :
    (propertySchemas casing optional properties).get? key = some json ↔
      ∃ p ∈ properties, casing.apply p.name = key ∧ p.optional = optional ∧ p.type.toSchema casing = json := by
  rw [Json.Members.get?, propertySchemas,
    @lookup_collect_eq_some_iff (Property TypeDef) Json (fun p => casing.apply p.name) _ properties distinct]
  refine exists_congr fun p => and_congr_right fun _ => and_congr_right fun _ => ?_
  by_cases same : p.optional = optional <;> simp [same]

/-- The optional properties are left out of the document only when there are none. -/
theorem get?_optionalProperties (form : t.form = .object properties)
    (distinct : (Form.wireKeys casing properties).Nodup) :
    (t.schemaMembers casing).get? "optionalProperties" =
      if (propertySchemas casing true properties).isEmpty then none
      else some (.obj (propertySchemas casing true properties)) := by
  rw [get?_schemaMembers (by decide) (by decide), form, schemaOfForm_object, schemaOfProperties_eq distinct,
    objectMembers]
  split <;> simp [List.lookup_cons]

end Properties

/-! ## Variants -/

section Variants

variable {key tag : String} {mapping : List (String × List (Property TypeDef))}

/-- The documents of the variants of a union, each that of a record, under their tags. -/
def variantSchemas (casing : Casing) (mapping : List (String × List (Property TypeDef))) : Json.Members :=
  mapping.map fun variant => (variant.1, (object variant.2).toSchema casing)

theorem toSchema_object (casing : Casing) (properties : List (Property TypeDef)) :
    (object properties).toSchema casing = .obj (objectMembers (schemaOfProperties casing ([], []) properties)) := by
  rw [toSchema_eq]
  simp [schemaMembers, object, ofForm, Metadata.isEmpty]

theorem schemaOfMapping_eq_foldl (done : Json.Members) :
    schemaOfMapping casing done mapping =
      (variantSchemas casing mapping).foldl (fun members (key, value) => members.set key value) done := by
  induction mapping generalizing done with
  | nil =>
      rfl
  | cons head tail inductionHypothesis =>
      obtain ⟨tag, properties⟩ := head
      rw [schemaOfMapping, inductionHypothesis, ← toSchema_object]
      rfl

theorem schemaOfMapping_eq (tags : (mapping.map Prod.fst).Nodup) :
    schemaOfMapping casing [] mapping = variantSchemas casing mapping := by
  have sameTags : (variantSchemas casing mapping).map Prod.fst = mapping.map Prod.fst := by
    simp [variantSchemas]
  rw [← sameTags] at tags
  rw [schemaOfMapping_eq_foldl]
  exact Json.Members.ofPairs_of_nodup tags

theorem get?_variantSchemas :
    (variantSchemas casing mapping).get? tag =
      (mapping.lookup tag).map fun properties => (object properties).toSchema casing :=
  lookup_map (fun properties => (object properties).toSchema casing) tag mapping

theorem get?_mapping (form : t.form = .union key mapping) (tags : (mapping.map Prod.fst).Nodup) :
    (t.schemaMembers casing).get? "mapping" = some (.obj (variantSchemas casing mapping)) := by
  rw [get?_schemaMembers (by decide) (by decide), form, schemaOfForm_union, schemaOfMapping_eq tags]
  simp [List.lookup_cons]

end Variants

end SchemaRpc.TypeDef
