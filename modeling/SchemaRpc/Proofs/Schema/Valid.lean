import SchemaRpc.Proofs.Codec.Success
import SchemaRpc.Proofs.Schema.Accepts
import SchemaRpc.Proofs.Schema.Document

/-!
# Validity against schema documents

`Schema.Valid` reads validity off a document and the named documents of an application alone. For the document of a
definition it says what `Form.Accepts` says at the end of the references of the definition.
-/

namespace SchemaRpc.Schema

/-- The document sets the flag, or says nothing beside its metadata. -/
def AllowsNull (schema : Json.Members) : Prop :=
  schema.get? "nullable" = some (.bool true) ∨
    ∀ keyword, keyword ≠ "metadata" → schema.get? keyword = none

/-- The document has no member that names a form. -/
def HasNoForm (schema : Json.Members) : Prop :=
  ∀ keyword, keyword ≠ "nullable" → keyword ≠ "metadata" → schema.get? keyword = none

/-- JSON is valid against a document, where references go by name to the given documents. -/
inductive Valid (definitions : Json.Members) : Json → Json → Prop
  | null {schema : Json.Members} :
      AllowsNull schema →
      Valid definitions (.obj schema) .null
  | any {schema : Json.Members} {json : Json} :
      json ≠ .null →
      HasNoForm schema →
      Valid definitions (.obj schema) json
  | type {schema : Json.Members} {kind : PrimitiveKind} {json : Json} :
      schema.get? "type" = some (.str kind.label) →
      kind.Fits json →
      Valid definitions (.obj schema) json
  | enum {schema : Json.Members} {listed : List Json} {s : String} :
      schema.get? "enum" = some (.arr listed) →
      .str s ∈ listed →
      Valid definitions (.obj schema) (.str s)
  | elements {schema : Json.Members} {item : Json} {items : List Json} :
      schema.get? "elements" = some item →
      (∀ part ∈ items, Valid definitions item part) →
      Valid definitions (.obj schema) (.arr items)
  | values {schema members : Json.Members} {item : Json} :
      schema.get? "values" = some item →
      (∀ part ∈ members.map Prod.snd, Valid definitions item part) →
      Valid definitions (.obj schema) (.obj members)
  | properties {schema required members : Json.Members} :
      schema.get? "properties" = some (.obj required) →
      (∀ key, (required.get? key).isSome = true → (members.get? key).isSome = true) →
      (∀ key property part, required.get? key = some property → members.get? key = some part →
        Valid definitions property part) →
      (∀ optional key property part, schema.get? "optionalProperties" = some (.obj optional) →
        Json.Members.get? key optional = some property → members.get? key = some part →
        Valid definitions property part) →
      Valid definitions (.obj schema) (.obj members)
  | ref {schema : Json.Members} {name : String} {target json : Json} :
      json ≠ .null →
      schema.get? "ref" = some (.str name) →
      definitions.get? name = some target →
      Valid definitions target json →
      Valid definitions (.obj schema) json
  | discriminator {schema mapping members : Json.Members} {key tag : String} {variant : Json} :
      schema.get? "discriminator" = some (.str key) →
      schema.get? "mapping" = some (.obj mapping) →
      members.get? key = some (.str tag) →
      mapping.get? tag = some variant →
      Valid definitions variant (.obj members) →
      Valid definitions (.obj schema) (.obj members)

/-- What the document of a form keeps apart: the wire keys of an object and the tags of a union. -/
def KeysApart (casing : Casing) (form : Form TypeDef) : Prop :=
  form.WireDistinct casing ∧ form.TagsDistinct

variable {c : Codec} {definitions : Json.Members} {t s : TypeDef} {json : Json}

/-- What definitions inside a form take when their documents decide. -/
def TakesValid (definitions : Json.Members) (casing : Casing) (s : TypeDef) (part : Json) : Prop :=
  Valid definitions (s.toSchema casing) part

/-! ## Null -/

theorem allowsNull_schemaMembers_iff {casing : Casing} :
    AllowsNull (t.schemaMembers casing) ↔ t.nullable = true ∨ Codec.isAny t = true := by
  unfold AllowsNull
  rw [Codec.isAny_iff, TypeDef.get?_nullable]
  cases nullable : t.nullable with
  | true =>
      simp
  | false =>
      have noFlag : (t.schemaMembers casing).get? "nullable" = none := by
        rw [TypeDef.get?_nullable, nullable]
        rfl
      rw [← @TypeDef.form_eq_any_iff casing]
      simp only [Bool.false_eq_true, if_false, reduceCtorEq, false_or]
      constructor
      · exact fun nothing keyword _ notMetadata => nothing keyword notMetadata
      · intro nothing keyword notMetadata
        by_cases isFlag : keyword = "nullable"
        · rw [isFlag]
          exact noFlag
        · exact nothing keyword isFlag notMetadata

theorem valid_null_iff {casing : Casing} :
    Valid definitions (t.toSchema casing) .null ↔ t.nullable = true ∨ Codec.isAny t = true := by
  rw [← @allowsNull_schemaMembers_iff t casing, TypeDef.toSchema_eq]
  constructor
  · intro valid
    cases valid with
    | null allowed =>
        exact allowed
    | any notNull _ =>
        exact absurd rfl notNull
    | type _ fits =>
        exact fits.elim
    | ref notNull _ _ _ =>
        exact absurd rfl notNull
  · exact Valid.null

/-! ## Documents of forms -/

section Forms

variable {casing : Casing} {form : Form TypeDef}

theorem get?_of_form (casing : Casing) (keyword : String) {found : Json} (notFlag : keyword ≠ "nullable")
    (notMetadata : keyword ≠ "metadata") (sameForm : s.form = form)
    (inForm : (TypeDef.schemaOfForm casing form).lookup keyword = some found) :
    (s.schemaMembers casing).get? keyword = some found := by
  rw [TypeDef.get?_schemaMembers notFlag notMetadata, sameForm]
  exact inForm

theorem valid_of_object {properties : List (Property TypeDef)} {members : Json.Members}
    (isObject : s.form = .object properties) (distinct : (Form.wireKeys casing properties).Nodup)
    (each : ∀ p ∈ properties, p.Accepts casing (TakesValid definitions casing) members) :
    Valid definitions (s.toSchema casing) (.obj members) := by
  have declared : ∀ optional key property part,
      (TypeDef.propertySchemas casing optional properties).get? key = some property →
        members.get? key = some part → Valid definitions property part := by
    intro optional key property part listed found
    obtain ⟨p, member, rfl, _, rfl⟩ := (TypeDef.get?_propertySchemas_eq_some_iff distinct).1 listed
    exact (Property.accepts_of_found found).1 (each p member)
  have required : (s.schemaMembers casing).get? "properties" =
      some (.obj (TypeDef.propertySchemas casing false properties)) := by
    refine get?_of_form casing "properties" (by decide) (by decide) isObject ?_
    rw [TypeDef.schemaOfForm_object, TypeDef.schemaOfProperties_eq distinct, TypeDef.objectMembers]
    simp
  rw [TypeDef.toSchema_eq]
  refine Valid.properties required ?_ (declared false) ?_
  · intro key isRequired
    obtain ⟨property, listed⟩ := Option.isSome_iff_exists.1 isRequired
    obtain ⟨p, member, rfl, notOptional, _⟩ := (TypeDef.get?_propertySchemas_eq_some_iff distinct).1 listed
    cases found : members.get? (casing.apply p.name) with
    | some part =>
        rfl
    | none =>
        have mayMiss := (Property.accepts_of_missing found).1 (each p member)
        rw [notOptional] at mayMiss
        cases mayMiss
  · intro optional key property part isOptional listed
    rw [TypeDef.get?_optionalProperties isObject distinct] at isOptional
    split at isOptional
    · cases isOptional
    · cases isOptional
      exact declared true key property part listed

/-- What a form accepts is valid against the document of a definition of that form. -/
theorem valid_of_accepts (sameForm : s.form = form) (apart : KeysApart casing form) (notNull : json ≠ .null)
    (accepts : form.Accepts casing (TakesValid definitions casing) json) :
    Valid definitions (s.toSchema casing) json := by
  cases form with
  | any =>
      rw [TypeDef.toSchema_eq]
      exact .any notNull (TypeDef.form_eq_any_iff.2 sameForm)
  | primitive kind =>
      have keyword := get?_of_form casing "type" (by decide) (by decide) sameForm rfl
      rw [TypeDef.toSchema_eq]
      exact .type keyword accepts
  | enumeration listed =>
      obtain ⟨s, member, rfl⟩ := accepts
      have keyword := get?_of_form casing "enum" (by decide) (by decide) sameForm rfl
      rw [TypeDef.toSchema_eq]
      exact .enum keyword (List.mem_map_of_mem member)
  | elements item =>
      obtain ⟨items, rfl, each⟩ := accepts
      have keyword := get?_of_form casing "elements" (by decide) (by decide) sameForm rfl
      rw [TypeDef.toSchema_eq]
      exact .elements keyword each
  | values item =>
      obtain ⟨members, rfl, each⟩ := accepts
      have keyword := get?_of_form casing "values" (by decide) (by decide) sameForm rfl
      rw [TypeDef.toSchema_eq]
      exact .values keyword each
  | object properties =>
      obtain ⟨members, rfl, each⟩ := accepts
      exact valid_of_object sameForm apart.1 each
  | ref name =>
      exact accepts.elim
  | union key mapping =>
      obtain ⟨members, tag, properties, rfl, tagged, listed, each⟩ := accepts
      have distinctKeys := apart.1 (tag, properties) (mem_of_lookup listed)
      have variant : Valid definitions ((TypeDef.object properties).toSchema casing) (.obj members) :=
        valid_of_object rfl (List.nodup_cons.1 distinctKeys).2 each
      have keyword :=
        get?_of_form casing "discriminator" (by decide) (by decide) sameForm rfl
      have found : (TypeDef.variantSchemas casing mapping).get? tag =
          some ((TypeDef.object properties).toSchema casing) := by
        rw [TypeDef.get?_variantSchemas, listed]
        rfl
      rw [TypeDef.toSchema_eq]
      exact .discriminator keyword (TypeDef.get?_mapping sameForm apart.2) tagged found variant

theorem property_accepts_of_valid {properties : List (Property TypeDef)} {required members : Json.Members}
    (isObject : s.form = .object properties) (distinct : (Form.wireKeys casing properties).Nodup)
    (isRequired : (s.schemaMembers casing).get? "properties" = some (.obj required))
    (present : ∀ key, (required.get? key).isSome = true → (members.get? key).isSome = true)
    (each : ∀ key property part, required.get? key = some property → members.get? key = some part →
      Valid definitions property part)
    (eachOptional : ∀ optional key property part,
      (s.schemaMembers casing).get? "optionalProperties" = some (.obj optional) →
        Json.Members.get? key optional = some property → members.get? key = some part →
          Valid definitions property part) :
    ∀ p ∈ properties, p.Accepts casing (TakesValid definitions casing) members := by
  intro p declared
  have listed : (TypeDef.propertySchemas casing p.optional properties).get? (casing.apply p.name) =
      some (p.type.toSchema casing) :=
    (TypeDef.get?_propertySchemas_eq_some_iff distinct).2 ⟨p, declared, rfl, rfl, rfl⟩
  obtain ⟨properties', sameForm, isParts⟩ := TypeDef.object_of_properties isRequired
  rw [isObject] at sameForm
  cases sameForm
  rw [TypeDef.schemaOfProperties_eq distinct] at isParts
  cases isParts
  cases optional : p.optional with
  | false =>
      rw [optional] at listed
      have there := present (casing.apply p.name) (by rw [listed]; rfl)
      obtain ⟨part, found⟩ := Option.isSome_iff_exists.1 there
      exact (Property.accepts_of_found found).2 (each _ _ part listed found)
  | true =>
      rw [optional] at listed
      cases found : members.get? (casing.apply p.name) with
      | none =>
          exact (Property.accepts_of_missing found).2 optional
      | some part =>
          -- an empty `optionalProperties` is left out of the document, but this one has a member
          have notEmpty : (TypeDef.propertySchemas casing true properties).isEmpty = false := by
            cases empty : TypeDef.propertySchemas casing true properties with
            | nil =>
                rw [empty] at listed
                cases listed
            | cons head tail =>
                rfl
          have isOptional := TypeDef.get?_optionalProperties isObject distinct
          rw [notEmpty] at isOptional
          exact (Property.accepts_of_found found).2 (eachOptional _ _ _ part isOptional listed found)

end Forms

/-! ## References -/

section References

/-- The named documents are those of the bodies in the table. -/
def Names (c : Codec) (definitions : Json.Members) : Prop :=
  ∀ name, definitions.get? name = (c.definitions.get? name).map fun body => body.toSchema c.casing

theorem valid_of_resolve (names : Names c definitions) (notNull : json ≠ .null)
    (resolved : c.definitions.resolve t = .ok s) (valid : Valid definitions (s.toSchema c.casing) json) :
    Valid definitions (t.toSchema c.casing) json := by
  obtain ⟨count, leads⟩ := Definitions.resolve_eq_ok_iff.1 resolved
  clear resolved
  induction leads with
  | here _ =>
      exact valid
  | @step count t next target name isRef found rest inductionHypothesis =>
      have validNext := inductionHypothesis valid
      have form := TypeDef.refName?_eq_some_iff.1 isRef
      have keyword : (t.schemaMembers c.casing).get? "ref" = some (.str name) :=
        get?_of_form c.casing "ref" (by decide) (by decide) form rfl
      have named : definitions.get? name = some (next.toSchema c.casing) := by
        rw [names name, found]
        rfl
      rw [TypeDef.toSchema_eq]
      exact .ref notNull keyword named validNext

/-- JSON that is valid against the document of a definition is accepted by the form that its references end at. -/
theorem exists_accepts_of_valid (names : Names c definitions)
    (apartBodies : c.definitions.Everywhere (KeysApart c.casing)) {schema : Json}
    (valid : Valid definitions schema json) :
    ∀ t : TypeDef, schema = t.toSchema c.casing → t.Everywhere (KeysApart c.casing) → json ≠ .null →
      ∃ form, c.target t = .ok form ∧ form.Accepts c.casing (TakesValid definitions c.casing) json := by
  induction valid with
  | null _ =>
      exact fun _ _ _ notNull => absurd rfl notNull
  | any _ noForm =>
      intro t isDocument _ _
      obtain rfl := TypeDef.eq_schemaMembers isDocument
      exact ⟨.any, Codec.target_of_form (TypeDef.form_eq_any_iff.1 noForm) nofun, trivial⟩
  | type keyword fits =>
      intro t isDocument _ _
      obtain rfl := TypeDef.eq_schemaMembers isDocument
      obtain ⟨kind, form, sameLabel⟩ := TypeDef.primitive_of_type keyword
      have sameKind := PrimitiveKind.label_injective (Json.str.inj sameLabel)
      exact ⟨.primitive kind, Codec.target_of_form form nofun, sameKind ▸ fits⟩
  | enum keyword member =>
      intro t isDocument _ _
      obtain rfl := TypeDef.eq_schemaMembers isDocument
      obtain ⟨listed, form, same⟩ := TypeDef.enumeration_of_enum keyword
      cases same
      obtain ⟨s, listedString, same⟩ := List.mem_map.1 member
      exact ⟨.enumeration listed, Codec.target_of_form form nofun, s, listedString, same.symm⟩
  | elements keyword each _ =>
      intro t isDocument _ _
      obtain rfl := TypeDef.eq_schemaMembers isDocument
      obtain ⟨item, form, rfl⟩ := TypeDef.elements_of_elements keyword
      exact ⟨.elements item, Codec.target_of_form form nofun, _, rfl, each⟩
  | values keyword each _ =>
      intro t isDocument _ _
      obtain rfl := TypeDef.eq_schemaMembers isDocument
      obtain ⟨item, form, rfl⟩ := TypeDef.values_of_values keyword
      exact ⟨.values item, Codec.target_of_form form nofun, _, rfl, each⟩
  | properties keyword present each eachOptional _ _ =>
      intro t isDocument apart _
      obtain rfl := TypeDef.eq_schemaMembers isDocument
      obtain ⟨properties, form, _⟩ := TypeDef.object_of_properties keyword
      have distinct : (Form.wireKeys c.casing properties).Nodup := (apart.here_of_form form).1
      exact ⟨.object properties, Codec.target_of_form form nofun, _, rfl,
        property_accepts_of_valid form distinct keyword present each eachOptional⟩
  | ref notNull keyword named _ inductionHypothesis =>
      intro t isDocument _ _
      obtain rfl := TypeDef.eq_schemaMembers isDocument
      obtain ⟨name, form, same⟩ := TypeDef.ref_of_ref keyword
      cases same
      rw [names] at named
      obtain ⟨body, found, rfl⟩ := Option.map_eq_some_iff.1 named
      obtain ⟨target, reached, accepts⟩ := inductionHypothesis body rfl (apartBodies.get? found) notNull
      exact ⟨target, (Codec.target_of_ref form found).2 reached, accepts⟩
  | discriminator keyword mapped tagged found _ inductionHypothesis =>
      intro t isDocument apart _
      obtain rfl := TypeDef.eq_schemaMembers isDocument
      obtain ⟨key, mapping, form, same⟩ := TypeDef.union_of_discriminator keyword
      cases same
      have promised := apart.here_of_form form
      rw [TypeDef.get?_mapping form promised.2] at mapped
      cases mapped
      rw [TypeDef.get?_variantSchemas] at found
      obtain ⟨properties, listed, rfl⟩ := Option.map_eq_some_iff.1 found
      have isVariant := mem_of_lookup listed
      -- the document of a variant is that of a record without the tag
      have apartVariant : (TypeDef.object properties).Everywhere (KeysApart c.casing) :=
        TypeDef.everywhere_object ⟨(List.nodup_cons.1 (promised.1 _ isVariant)).2, trivial⟩
          (apart.union form _ isVariant)
      obtain ⟨target, reached, accepts⟩ := inductionHypothesis _ rfl apartVariant nofun
      have sameTarget : Form.object properties = target := by
        have ends := @Codec.target_of_form c (TypeDef.object properties) _ rfl nofun
        rw [ends] at reached
        cases reached
        rfl
      subst sameTarget
      obtain ⟨members, same, each⟩ := accepts
      cases same
      exact ⟨.union key mapping, Codec.target_of_form form nofun, _, _, properties, rfl, tagged, listed, each⟩

end References

end SchemaRpc.Schema
