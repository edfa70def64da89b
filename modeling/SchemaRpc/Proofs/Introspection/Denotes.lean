import Mathlib.Data.List.Forall2
import SchemaRpc.Proofs.Definitions.Table
import SchemaRpc.Proofs.Introspection.Visit

/-!
# What a table says about declared types

`Denotes` relates a shape to a definition that says the same over a table, `DescribesBody` a declared type to the body of
its entry. `Reaches` are the declared types that a shape leads to. None of them mentions how a table comes about.
-/

namespace SchemaRpc

/-- The declared types that a shape mentions. -/
def Shape.slots {n : Nat} : Shape n → List (Fin n)
  | declared slot => [slot]
  | array item => item.slots
  | map item => item.slots
  | optional inner => inner.slots
  | nullable inner => inner.slots
  | primitive _ | any | unit | unsupported _ => []

/-- The types of all fields. -/
def Members.types {τ : Type} : Members τ → List τ
  | record fields => fields.map FieldDecl.type
  | union _ variants => variants.flatMap fun variant => variant.fields.map FieldDecl.type
  | enumeration _ => []

namespace Catalog

variable {n : Nat} (catalog : Catalog n)

/-- The identity of the declaration at a slot. -/
def id (slot : Fin n) : TypeId :=
  (catalog.get slot).info.id

/-- The type at a slot is a record or a union. -/
def IsEntered (slot : Fin n) : Prop :=
  (catalog.get slot).members.isEnumeration = false

/-- Each identity is that of one declared type. -/
def OneTypeEach : Prop :=
  ∀ slot other, catalog.id slot = catalog.id other → catalog.get slot = catalog.get other

instance (slot : Fin n) : Decidable (catalog.IsEntered slot) :=
  inferInstanceAs (Decidable ((catalog.get slot).members.isEnumeration = false))

instance : Decidable catalog.OneTypeEach :=
  inferInstanceAs
    (Decidable (∀ slot other, catalog.id slot = catalog.id other → catalog.get slot = catalog.get other))

/-- A shape leads to the types that it mentions, and on to those that their fields mention. -/
inductive Reaches (catalog : Catalog n) (shape : Shape n) : Fin n → Prop
  | mentioned {slot : Fin n} :
      slot ∈ shape.slots →
      Reaches catalog shape slot
  | field {slot other : Fin n} {type : Shape n} :
      Reaches catalog shape slot →
      type ∈ (catalog.get slot).members.types →
      other ∈ type.slots →
      Reaches catalog shape other

variable {catalog}

theorem Reaches.of_slots {shape shape' : Shape n} {slot : Fin n} (reaches : Reaches catalog shape slot)
    (same : shape.slots = shape'.slots) : Reaches catalog shape' slot := by
  induction reaches with
  | mentioned member =>
      exact .mentioned (same ▸ member)
  | field _ type member inductionHypothesis =>
      exact .field inductionHypothesis type member

theorem Reaches.of_type {slot other : Fin n} {type : Shape n} (declared : type ∈ (catalog.get slot).members.types)
    (reaches : Reaches catalog type other) : Reaches catalog (.declared slot) other := by
  induction reaches with
  | mentioned member =>
      exact .field (.mentioned List.mem_cons_self) declared member
  | field _ type member inductionHypothesis =>
      exact .field inductionHypothesis type member

end Catalog

namespace Introspection

open Catalog

variable {n : Nat} {catalog : Catalog n} {defs defs' : Definitions}

/-- A definition says what a shape says. An enumeration stands where it is used; a record or union is referred to by the
name of its type. -/
inductive Denotes (catalog : Catalog n) (defs : Definitions) : Shape n → TypeDef → Prop
  | primitive (kind : PrimitiveKind) :
      Denotes catalog defs (.primitive kind) (.primitive kind)
  | any :
      Denotes catalog defs .any .any
  | array {item : Shape n} {t : TypeDef} :
      Denotes catalog defs item t →
      Denotes catalog defs (.array item) (.elements t)
  | map {item : Shape n} {t : TypeDef} :
      Denotes catalog defs item t →
      Denotes catalog defs (.map item) (.values t)
  | nullable {inner : Shape n} {t : TypeDef} :
      Denotes catalog defs inner t →
      Denotes catalog defs (.nullable inner) (t.withNullable true)
  | enumeration {slot : Fin n} {listed : List String} :
      (catalog.get slot).members = .enumeration listed →
      Denotes catalog defs (.declared slot)
        ((TypeDef.ofForm (.enumeration listed)).withMetadata
          (metadataOf (catalog.get slot).info (catalog.get slot).info.name))
  | named {slot : Fin n} {name : String} :
      catalog.IsEntered slot →
      defs.nameOf? (catalog.id slot) = some name →
      Denotes catalog defs (.declared slot) (.ref name)

/-- A property says what a field says. It is optional exactly when the field is wrapped so, and the wrapper leaves no
other trace. -/
structure DenotesField (catalog : Catalog n) (defs : Definitions) (field : FieldDecl (Shape n))
    (p : Property TypeDef) : Prop where
  name : p.name = field.name
  optional : p.optional = true ↔ ∃ inner, field.type = .optional inner
  type : ∃ t, Denotes catalog defs (splitOptional field.type).1 t ∧ p.type = document field t

/-- A form lists the fields of members in declared order, for a union by variant. -/
inductive DenotesMembers (catalog : Catalog n) (defs : Definitions) : Members (Shape n) → Form TypeDef → Prop
  | record {fields : List (FieldDecl (Shape n))} {properties : List (Property TypeDef)} :
      List.Forall₂ (DenotesField catalog defs) fields properties →
      DenotesMembers catalog defs (.record fields) (.object properties)
  | union {key : String} {variants : List (VariantDecl (Shape n))}
      {mapping : List (String × List (Property TypeDef))} :
      List.Forall₂ (fun variant entry =>
        entry.1 = variant.tag ∧ List.Forall₂ (DenotesField catalog defs) variant.fields entry.2) variants mapping →
      DenotesMembers catalog defs (.union key variants) (.union key mapping)

/-- A body describes the type at a slot under a name. -/
structure DescribesBody (catalog : Catalog n) (defs : Definitions) (slot : Fin n) (name : String)
    (body : TypeDef) : Prop where
  members : DenotesMembers catalog defs (catalog.get slot).members body.form
  nullable : body.nullable = false
  metadata : body.metadata = metadataOf (catalog.get slot).info (some name)

/-- A definition is nullable exactly where its shape says so. -/
theorem Denotes.nullable_iff {shape : Shape n} {t : TypeDef} (denotes : Denotes catalog defs shape t) :
    t.nullable = true ↔ ∃ inner, shape = .nullable inner := by
  cases denotes with
  | nullable _ =>
      simp [TypeDef.withNullable]
  | primitive | any | array | map | enumeration | named =>
      simp [TypeDef.primitive, TypeDef.any, TypeDef.elements, TypeDef.values, TypeDef.ref, TypeDef.ofForm,
        TypeDef.withMetadata]

/-! ## Tables that know more names -/

/-- The names of the one table are those of the other, which may have more. -/
def NamesKept (defs defs' : Definitions) : Prop :=
  ∀ id name, defs.nameOf? id = some name → defs'.nameOf? id = some name

theorem NamesKept.nameOf?_eq_none (kept : NamesKept defs defs') {id : TypeId} (unnamed : defs'.nameOf? id = none) :
    defs.nameOf? id = none := by
  cases named : defs.nameOf? id with
  | none =>
      rfl
  | some name =>
      rw [kept id name named] at unnamed
      cases unnamed

section Mono

variable (kept : NamesKept defs defs')

include kept

theorem Denotes.mono {shape : Shape n} {t : TypeDef} (denotes : Denotes catalog defs shape t) :
    Denotes catalog defs' shape t := by
  induction denotes with
  | primitive kind =>
      exact .primitive kind
  | any =>
      exact .any
  | array _ inductionHypothesis =>
      exact .array inductionHypothesis
  | map _ inductionHypothesis =>
      exact .map inductionHypothesis
  | nullable _ inductionHypothesis =>
      exact .nullable inductionHypothesis
  | enumeration members =>
      exact .enumeration members
  | named entered named =>
      exact .named entered (kept _ _ named)

theorem DenotesField.mono {field : FieldDecl (Shape n)} {p : Property TypeDef}
    (denotes : DenotesField catalog defs field p) : DenotesField catalog defs' field p := by
  obtain ⟨t, denotesType, same⟩ := denotes.type
  exact ⟨denotes.name, denotes.optional, t, denotesType.mono kept, same⟩

theorem DenotesMembers.mono {members : Members (Shape n)} {form : Form TypeDef}
    (denotes : DenotesMembers catalog defs members form) : DenotesMembers catalog defs' members form := by
  cases denotes with
  | record fields =>
      exact .record (fields.imp fun _ _ field => field.mono kept)
  | union variants =>
      exact .union (variants.imp fun _ _ variant => ⟨variant.1, variant.2.imp fun _ _ field => field.mono kept⟩)

theorem DescribesBody.mono {slot : Fin n} {name : String} {body : TypeDef}
    (describes : DescribesBody catalog defs slot name body) : DescribesBody catalog defs' slot name body :=
  ⟨describes.members.mono kept, describes.nullable, describes.metadata⟩

end Mono

end Introspection

end SchemaRpc
