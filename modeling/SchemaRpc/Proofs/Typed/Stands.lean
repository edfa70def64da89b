import SchemaRpc.Proofs.Codec.Success
import SchemaRpc.Proofs.Introspection.Denotes
import SchemaRpc.Proofs.Introspection.Correct
import SchemaRpc.Proofs.TypeDef.Nodes
import SchemaRpc.Typed.Basic

/-!
# Definitions that stand for types

A definition stands for a type when its form says the same, wrappers aside, and it is nullable exactly where a wrapper
takes null; a property is optional exactly where the outermost wrapper takes what is missing. This is what introspection
leaves in a table of the types that it accepted: `Denotes` over the shapes of types, read off type by type.
-/

namespace SchemaRpc

open Introspection Catalog

variable {n : Nat} {types : TypeCatalog n} {defs : Definitions}

namespace Ty

/-- The outermost wrapper takes what is missing. -/
def mayMiss : Ty n → Bool
  | optional _ | field _ => true
  | _ => false

/-- A wrapper takes null. -/
def takesNull : Ty n → Bool
  | option _ | field _ => true
  | optional inner => inner.takesNull
  | _ => false

/-- A form says what a type says, its wrappers aside. Inside a type nothing may be missing. -/
def HasForm (types : TypeCatalog n) (defs : Definitions) : Ty n → Form TypeDef → Prop
  | bool, form => form = .primitive .boolean
  | int kind, form => form = .primitive kind.toPrimitive
  | float32, form => form = .primitive .float32
  | float64, form => form = .primitive .float64
  | string, form => form = .primitive .string
  | timestamp, form => form = .primitive .timestamp
  | json, form => form = .any
  | unit, _ => False
  | wide _, _ => False
  | list item, form =>
      ∃ t, form = .elements t ∧ item.mayMiss = false ∧ item.HasForm types defs t.form ∧ t.nullable = item.takesNull
  | map item, form =>
      ∃ t, form = .values t ∧ item.mayMiss = false ∧ item.HasForm types defs t.form ∧ t.nullable = item.takesNull
  | option inner, form => inner.mayMiss = false ∧ inner.HasForm types defs form
  | optional inner, form => inner.mayMiss = false ∧ inner.HasForm types defs form
  | field inner, form => inner.mayMiss = false ∧ inner.HasForm types defs form
  | declared slot, form =>
      (∃ listed, (types.get slot).members = .enumeration listed ∧ form = .enumeration listed) ∨
        types.shapes.IsEntered slot ∧
          ∃ name, defs.nameOf? (types.shapes.id slot) = some name ∧ form = .ref name

/-- A definition stands for a type. -/
structure Stands (types : TypeCatalog n) (defs : Definitions) (ty : Ty n) (t : TypeDef) : Prop where
  form : ty.HasForm types defs t.form
  nullable : t.nullable = ty.takesNull

end Ty

/-- A property stands for a field. -/
structure FieldDecl.Stands (types : TypeCatalog n) (defs : Definitions) (field : FieldDecl (Ty n))
    (p : Property TypeDef) : Prop where
  name : p.name = field.name
  optional : p.optional = field.type.mayMiss
  type : field.type.Stands types defs p.type

/-- A form lists the fields of members in declared order. -/
inductive Members.Stands (types : TypeCatalog n) (defs : Definitions) : Members (Ty n) → Form TypeDef → Prop
  | record {declared : List (FieldDecl (Ty n))} {properties : List (Property TypeDef)} :
      List.Forall₂ (FieldDecl.Stands types defs) declared properties →
      Members.Stands types defs (.record declared) (.object properties)
  | union {key : String} {variants : List (VariantDecl (Ty n))} {mapping : List (String × List (Property TypeDef))} :
      List.Forall₂ (fun variant entry =>
        entry.1 = variant.tag ∧ List.Forall₂ (FieldDecl.Stands types defs) variant.fields entry.2) variants mapping →
      Members.Stands types defs (.union key variants) (.union key mapping)

/-! ## What introspection leaves -/

theorem TypeCatalog.get_shapes (slot : Fin n) : types.shapes.get slot = (types.get slot).map Ty.shape :=
  Vector.getElem_map _ slot.isLt

theorem TypeCatalog.enumeration_of_shapes {slot : Fin n} {listed : List String}
    (members : (types.shapes.get slot).members = .enumeration listed) :
    (types.get slot).members = .enumeration listed := by
  rw [get_shapes, Declaration.map] at members
  cases same : (types.get slot).members with
  | enumeration values =>
      rw [same] at members
      cases members
      rfl
  | record | union =>
      rw [same] at members
      cases members

namespace Ty

theorem stands_of_denotes {ty : Ty n} {t : TypeDef} (denotes : Denotes types.shapes defs ty.shape t) :
    ty.mayMiss = false ∧ ty.Stands types defs t := by
  induction ty generalizing t with
  | bool | int | float32 | float64 | string | timestamp | json =>
      cases denotes
      exact ⟨rfl, rfl, rfl⟩
  | unit | wide | optional | field =>
      cases denotes
  | list item inductionHypothesis =>
      cases denotes with
      | array denotesItem =>
          obtain ⟨present, stands⟩ := inductionHypothesis denotesItem
          exact ⟨rfl, ⟨_, rfl, present, stands.form, stands.nullable⟩, rfl⟩
  | map item inductionHypothesis =>
      cases denotes with
      | map denotesItem =>
          obtain ⟨present, stands⟩ := inductionHypothesis denotesItem
          exact ⟨rfl, ⟨_, rfl, present, stands.form, stands.nullable⟩, rfl⟩
  | option inner inductionHypothesis =>
      cases denotes with
      | nullable denotesInner =>
          obtain ⟨present, stands⟩ := inductionHypothesis denotesInner
          exact ⟨rfl, ⟨present, stands.form⟩, rfl⟩
  | declared slot =>
      cases denotes with
      | enumeration members =>
          exact ⟨rfl, .inl ⟨_, TypeCatalog.enumeration_of_shapes members, rfl⟩, rfl⟩
      | named entered named =>
          exact ⟨rfl, .inr ⟨entered, _, named, rfl⟩, rfl⟩

/-- The wrapper for what is missing is no part of the definition. -/
theorem stands_of_denotes_split {ty : Ty n} {t : TypeDef}
    (denotes : Denotes types.shapes defs (splitOptional ty.shape).1 t) : ty.Stands types defs t := by
  cases ty with
  | optional inner =>
      obtain ⟨present, stands⟩ := stands_of_denotes denotes
      exact ⟨⟨present, stands.form⟩, stands.nullable⟩
  | field inner =>
      obtain ⟨_, stands⟩ := @stands_of_denotes _ types defs (.option inner) t denotes
      exact ⟨stands.form, stands.nullable⟩
  | bool | int | float32 | float64 | string | timestamp | json | unit | wide | list | map | option | declared =>
      exact (stands_of_denotes denotes).2

theorem mayMiss_eq_true_iff {ty : Ty n} : ty.mayMiss = true ↔ ∃ inner, ty.shape = .optional inner := by
  cases ty <;> simp [mayMiss, shape]

end Ty

theorem FieldDecl.stands_of_denotesField {field : FieldDecl (Ty n)} {p : Property TypeDef}
    (denotes : DenotesField types.shapes defs (field.map Ty.shape) p) : field.Stands types defs p := by
  obtain ⟨t, denotesType, same⟩ := denotes.type
  have stands := Ty.stands_of_denotes_split denotesType
  constructor
  case name =>
    exact denotes.name
  case optional =>
    exact Bool.eq_iff_iff.2 (denotes.optional.trans Ty.mayMiss_eq_true_iff.symm)
  case type =>
    rw [same]
    exact ⟨stands.form, stands.nullable⟩

theorem FieldDecl.forall₂_stands {declared : List (FieldDecl (Ty n))} {properties : List (Property TypeDef)}
    (denotes : List.Forall₂ (DenotesField types.shapes defs) (declared.map (FieldDecl.map Ty.shape)) properties) :
    List.Forall₂ (FieldDecl.Stands types defs) declared properties :=
  (List.forall₂_map_left_iff.1 denotes).imp fun _ _ denotesField => FieldDecl.stands_of_denotesField denotesField

theorem Members.stands_of_denotesMembers {members : Members (Ty n)} {form : Form TypeDef}
    (denotes : DenotesMembers types.shapes defs (members.map Ty.shape) form) : members.Stands types defs form := by
  cases members with
  | record declared =>
      cases denotes with
      | record fields =>
          exact .record (FieldDecl.forall₂_stands fields)
  | union key variants =>
      cases denotes with
      | union entries =>
          refine .union ((List.forall₂_map_left_iff.1 entries).imp fun variant entry related => ?_)
          exact ⟨related.1, FieldDecl.forall₂_stands related.2⟩
  | enumeration listed =>
      cases denotes

theorem Members.Stands.ne_ref {members : Members (Ty n)} {form : Form TypeDef}
    (stands : members.Stands types defs form) (name : String) : form ≠ .ref name := by
  cases stands <;> exact nofun

theorem FieldDecl.names_eq_of_stands {declared : List (FieldDecl (Ty n))}
    {properties : List (Property TypeDef)} (stands : List.Forall₂ (FieldDecl.Stands types defs) declared properties) :
    declared.map FieldDecl.name = properties.map Property.name := by
  induction stands with
  | nil =>
      rfl
  | cons head _ inductionHypothesis =>
      rw [List.map_cons, List.map_cons, inductionHypothesis, head.name]

/-- The variant of a tag is the same on both sides. -/
theorem VariantDecl.exists_of_lookup {tag : String} {variants : List (VariantDecl (Ty n))}
    {mapping : List (String × List (Property TypeDef))} {properties : List (Property TypeDef)}
    (stands : List.Forall₂ (fun variant entry =>
      entry.1 = variant.tag ∧ List.Forall₂ (FieldDecl.Stands types defs) variant.fields entry.2) variants mapping)
    (listed : mapping.lookup tag = some properties) :
    ∃ variant, variants.find? (fun variant => variant.tag == tag) = some variant ∧
      List.Forall₂ (FieldDecl.Stands types defs) variant.fields properties := by
  induction stands with
  | nil =>
      cases listed
  | @cons variant entry _ _ related _ inductionHypothesis =>
      obtain ⟨key, fields⟩ := entry
      obtain ⟨rfl, standsFields⟩ := related
      by_cases same : tag = variant.tag
      · subst same
        rw [List.lookup_cons_self, Option.some.injEq] at listed
        subst listed
        exact ⟨variant, by simp, standsFields⟩
      · rw [List.lookup_cons, beq_false_of_ne same] at listed
        rw [List.find?_cons, beq_false_of_ne (Ne.symm same)]
        exact inductionHypothesis listed

/-- The body under the name of a declared type stands for its members. -/
theorem TypeCatalog.members_stands (coherent : Coherent types.shapes defs) {slot : Fin n} {name : String} {body : TypeDef}
    (named : defs.nameOf? (types.shapes.id slot) = some name) (found : defs.get? name = some body) :
    (types.get slot).members.Stands types defs body.form := by
  obtain ⟨entry, present, stored⟩ := Option.bind_eq_some_iff.1 found
  obtain ⟨body', present'⟩ := coherent.named _ name named
  rw [present] at present'
  cases present'
  have sameBody : body' = some body := stored
  subst sameBody
  have denotes := (coherent.described name slot body present).members
  rw [get_shapes] at denotes
  exact Members.stands_of_denotesMembers denotes

/-- Where a reference to a declared type leads anywhere, it leads to the body of the type. -/
theorem TypeCatalog.exists_body_of_target {c : Codec} (coherent : Coherent types.shapes c.definitions) {slot : Fin n}
    {name : String} {t : TypeDef} {form : Form TypeDef} (named : c.definitions.nameOf? (types.shapes.id slot) = some name)
    (isRef : t.form = .ref name) (reached : c.target t = .ok form) :
    ∃ body, c.definitions.get? name = some body ∧ body.form = form ∧
      (types.get slot).members.Stands types c.definitions form := by
  obtain ⟨body, found⟩ := Codec.exists_get?_of_target_ref isRef reached
  have stands := members_stands coherent named found
  have bodyReached : c.target body = .ok body.form := Codec.target_of_form rfl stands.ne_ref
  have same : body.form = form := by
    have reached' := (Codec.target_of_ref isRef found).2 bodyReached
    exact Except.ok.inj (reached'.symm.trans reached)
  rw [same] at stands
  exact ⟨body, found, same, stands⟩

end SchemaRpc
