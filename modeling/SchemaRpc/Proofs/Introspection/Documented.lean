import SchemaRpc.Proofs.Introspection.Denotes
import SchemaRpc.Proofs.Introspection.Correct
import SchemaRpc.Proofs.Schema.Marks

/-!
# Documentation in the nodes of declared types

What a declaration says about itself and its fields is found in the document of a body that describes it
(`Documents.of_describesBody`). An enumeration stands where it is used: directly in a field it shares the node of the
field, inside arrays and maps it has a node of its own. The nodes of variants have no metadata, whatever the variant says
about itself.
-/

namespace SchemaRpc

variable {n : Nat}

/-- The keywords on the way to what arrays and maps hold. -/
def Shape.keywords : Shape n → List String
  | array item => "elements" :: item.keywords
  | map item => "values" :: item.keywords
  | optional inner => inner.keywords
  | nullable inner => inner.keywords
  | primitive _ | any | unit | unsupported _ | declared _ => []

namespace Catalog

/-- What the enumeration says about itself that shares the node of a shape. -/
def inlineInfo? (catalog : Catalog n) : Shape n → Option TypeInfo
  | .optional inner => inlineInfo? catalog inner
  | .nullable inner => inlineInfo? catalog inner
  | .declared slot => if catalog.IsEntered slot then none else some (catalog.get slot).info
  | _ => none

variable {catalog : Catalog n}

/-- An enumeration that is in no array or map shares the node. -/
theorem inlineInfo?_eq_some {shape : Shape n} {slot : Fin n} (direct : shape.keywords = [])
    (mentioned : slot ∈ shape.slots) (isEnum : ¬ catalog.IsEntered slot) :
    catalog.inlineInfo? shape = some (catalog.get slot).info := by
  induction shape with
  | declared other =>
      cases List.mem_singleton.1 mentioned
      exact if_neg isEnum
  | optional inner inductionHypothesis | nullable inner inductionHypothesis =>
      exact inductionHypothesis direct mentioned
  | array | map =>
      cases direct
  | primitive | any | unit | unsupported =>
      cases mentioned

end Catalog

/-- Where a field stands in the document of its object. -/
def FieldDecl.place (casing : Casing) (field : FieldDecl (Shape n)) : List String :=
  [if (Introspection.splitOptional field.type).2 then "optionalProperties" else "properties", casing.apply field.name]

namespace Introspection

variable {catalog : Catalog n} {defs : Definitions} {casing : Casing}

/-! ## What nodes show -/

/-- A node has the documentation of a field; the field's own description goes before that of its enumeration. -/
structure ShowsField (catalog : Catalog n) (field : FieldDecl (Shape n)) (node : Json) : Prop where
  marks : node.IsMarked (field.description <|> (catalog.inlineInfo? field.type).bind TypeInfo.description)
    ((catalog.inlineInfo? field.type).any TypeInfo.deprecated || field.deprecated)
  /-- An enumeration in arrays and maps has its own documentation. -/
  held : field.type.keywords ≠ [] → ∀ slot ∈ field.type.slots, ¬ catalog.IsEntered slot →
    ∃ inner, node.follow? field.type.keywords = some inner ∧
      inner.IsMarked (catalog.get slot).info.description (catalog.get slot).info.deprecated

/-- A node has the documentation of all fields, but for those whose place is that of a later one. -/
def ShowsFields (catalog : Catalog n) (casing : Casing) (fields : List (FieldDecl (Shape n))) (node : Json) : Prop :=
  ∀ earlier field later, fields = earlier ++ field :: later →
    (∀ other ∈ later, other.place casing ≠ field.place casing) →
    ∃ inner, node.follow? (field.place casing) = some inner ∧ ShowsField catalog field inner

/-- A node has the documentation of the record or union at a slot and of its fields, and none of its variants. -/
structure Documents (catalog : Catalog n) (casing : Casing) (slot : Fin n) (node : Json) : Prop where
  own : node.IsMarked (catalog.get slot).info.description (catalog.get slot).info.deprecated
  record : ∀ fields, (catalog.get slot).members = .record fields → ShowsFields catalog casing fields node
  union : ∀ key variants, (catalog.get slot).members = .union key variants → ∀ variant ∈ variants,
    ∃ inner, node.follow? ["mapping", variant.tag] = some inner ∧ ShowsFields catalog casing variant.fields inner ∧
      inner.follow? ["metadata"] = none

/-! ## Types of fields -/

theorem Denotes.metadata {shape : Shape n} {t : TypeDef} (denotes : Denotes catalog defs shape t) :
    t.metadata.description = (catalog.inlineInfo? shape).bind TypeInfo.description ∧
      t.metadata.deprecated = (catalog.inlineInfo? shape).any TypeInfo.deprecated := by
  induction denotes with
  | primitive | any | array | map =>
      exact ⟨rfl, rfl⟩
  | nullable _ inductionHypothesis =>
      exact inductionHypothesis
  | @enumeration slot listed members =>
      have isEnum : ¬ catalog.IsEntered slot := by
        intro isEntered
        rw [Catalog.IsEntered, members] at isEntered
        cases isEntered
      rw [Catalog.inlineInfo?, if_neg isEnum]
      exact ⟨rfl, rfl⟩
  | named isEntered _ =>
      rw [Catalog.inlineInfo?, if_pos isEntered]
      exact ⟨rfl, rfl⟩

/-- What arrays and maps hold is found in every definition of the same form. -/
theorem Denotes.held {shape : Shape n} {t : TypeDef} (denotes : Denotes catalog defs shape t) {u : TypeDef}
    (sameForm : u.form = t.form) (inside : shape.keywords ≠ []) {slot : Fin n} (mentioned : slot ∈ shape.slots)
    (isEnum : ¬ catalog.IsEntered slot) :
    ∃ inner, (u.toSchema casing).follow? shape.keywords = some inner ∧
      inner.IsMarked (catalog.get slot).info.description (catalog.get slot).info.deprecated := by
  -- at the end of the keywords the enumeration shares the node
  have shown {item : Shape n} {t : TypeDef} (denotes : Denotes catalog defs item t) (mentioned : slot ∈ item.slots)
      (further : item.keywords ≠ [] → ∃ inner, (t.toSchema casing).follow? item.keywords = some inner ∧
        inner.IsMarked (catalog.get slot).info.description (catalog.get slot).info.deprecated) :
      ∃ inner, (t.toSchema casing).follow? item.keywords = some inner ∧
        inner.IsMarked (catalog.get slot).info.description (catalog.get slot).info.deprecated := by
    by_cases direct : item.keywords = []
    · have marked := t.isMarked_toSchema casing
      rw [denotes.metadata.1, denotes.metadata.2, Catalog.inlineInfo?_eq_some direct mentioned isEnum] at marked
      rw [direct]
      exact ⟨_, rfl, marked⟩
    · exact further direct
  induction denotes generalizing u with
  | primitive | any | enumeration | named =>
      exact absurd rfl inside
  | array denotes inductionHypothesis =>
      rw [Shape.keywords, TypeDef.follow?_elements sameForm]
      exact shown denotes mentioned fun further => inductionHypothesis rfl further mentioned
  | map denotes inductionHypothesis =>
      rw [Shape.keywords, TypeDef.follow?_values sameForm]
      exact shown denotes mentioned fun further => inductionHypothesis rfl further mentioned
  | nullable _ inductionHypothesis =>
      exact inductionHypothesis sameForm inside mentioned

theorem keywords_splitOptional (shape : Shape n) : (splitOptional shape).1.keywords = shape.keywords := by
  cases shape <;> rfl

theorem inlineInfo?_splitOptional (shape : Shape n) :
    catalog.inlineInfo? (splitOptional shape).1 = catalog.inlineInfo? shape := by
  cases shape <;> rfl

/-! ## Fields -/

section Fields

variable {field : FieldDecl (Shape n)} {p : Property TypeDef}

theorem DenotesField.place_eq (denotes : DenotesField catalog defs field p) : p.place casing = field.place casing := by
  have optional : p.optional = (splitOptional field.type).2 :=
    Bool.eq_iff_iff.2 (denotes.optional.trans (optional_splitOptional field.type).symm)
  rw [Property.place, FieldDecl.place, denotes.name, optional]

theorem DenotesField.shows (denotes : DenotesField catalog defs field p) :
    ShowsField catalog field (p.type.toSchema casing) := by
  obtain ⟨t, denotesType, documented⟩ := denotes.type
  obtain ⟨description, deprecated⟩ := denotesType.metadata
  rw [inlineInfo?_splitOptional] at description deprecated
  constructor
  case marks =>
    have marked := p.type.isMarked_toSchema casing
    rw [documented] at marked ⊢
    rw [← description, ← deprecated]
    exact marked
  case held =>
    intro inside slot mentioned isEnum
    rw [← keywords_splitOptional] at inside ⊢
    rw [← slots_splitOptional] at mentioned
    refine denotesType.held ?_ inside mentioned isEnum
    rw [documented]
    rfl

/-- Where lists correspond, what is in the one at a place corresponds to what is in the other there. -/
theorem exists_split_of_forall₂ {α β : Type} {R : α → β → Prop} {earlier later : List α} {a : α} {all : List β}
    (related : List.Forall₂ R (earlier ++ a :: later) all) :
    ∃ before b after, all = before ++ b :: after ∧ R a b ∧ List.Forall₂ R later after := by
  induction earlier generalizing all with
  | nil =>
      obtain ⟨b, after, here, rest, rfl⟩ := List.forall₂_cons_left_iff.1 related
      exact ⟨[], b, after, rfl, here, rest⟩
  | cons head earlier inductionHypothesis =>
      obtain ⟨first, others, _, rest, rfl⟩ := List.forall₂_cons_left_iff.1 related
      obtain ⟨before, b, after, rfl, here, later⟩ := inductionHypothesis rest
      exact ⟨first :: before, b, after, rfl, here, later⟩

/-- The document of an object shows the fields that its properties denote. -/
theorem showsFields_toSchema {t : TypeDef} {fields : List (FieldDecl (Shape n))} {properties : List (Property TypeDef)}
    (form : t.form = .object properties) (denote : List.Forall₂ (DenotesField catalog defs) fields properties) :
    ShowsFields catalog casing fields (t.toSchema casing) := by
  rintro earlier field later rfl last
  obtain ⟨before, p, after, rfl, denotes, rest⟩ := exists_split_of_forall₂ denote
  have lastOfPlace : ∀ other ∈ after, other.place casing ≠ p.place casing := by
    intro other listed
    clear denote form
    induction rest with
    | nil =>
        cases listed
    | @cons declared q _ _ denotesOther _ inductionHypothesis =>
        obtain ⟨lastHere, last⟩ := List.forall_mem_cons.1 last
        rcases List.mem_cons.1 listed with rfl | listed
        · rw [denotesOther.place_eq, denotes.place_eq]
          exact lastHere
        · exact inductionHypothesis last listed
  rw [← denotes.place_eq]
  exact ⟨_, TypeDef.follow?_place form rfl lastOfPlace, denotes.shows⟩

end Fields

/-! ## Bodies -/

/-- The node of a body has the documentation of the type that it describes. -/
theorem Documents.of_describesBody {slot : Fin n} {name : String} {body : TypeDef}
    (describes : DescribesBody catalog defs slot name body) (checked : body.form.Checked) :
    Documents catalog casing slot (body.toSchema casing) := by
  have marked := body.isMarked_toSchema casing
  rw [describes.metadata] at marked
  have members := describes.members
  constructor
  case own =>
    exact marked
  case record =>
    intro fields declared
    rw [declared] at members
    generalize formOf : body.form = form at members
    cases members with
    | record denote =>
        exact showsFields_toSchema formOf denote
  case union =>
    intro key variants declared variant listed
    rw [declared] at members
    generalize formOf : body.form = form at members checked
    cases members with
    | @union _ _ mapping denote =>
        obtain ⟨earlier, later, rfl⟩ := List.append_of_mem listed
        obtain ⟨before, entry, after, rfl, ⟨tag, denoteFields⟩, _⟩ := exists_split_of_forall₂ denote
        have present : entry ∈ before ++ entry :: after := List.mem_append_right _ List.mem_cons_self
        rw [← tag]
        exact ⟨_, TypeDef.follow?_variant formOf checked.1 present, showsFields_toSchema rfl denoteFields,
          TypeDef.follow?_metadata_object entry.2⟩

end Introspection

end SchemaRpc
