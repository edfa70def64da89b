import SchemaRpc.Casing
import SchemaRpc.Proofs.Definitions.Table

/-!
# The nodes of a definition

What is promised of a definition is promised of each of its nodes by itself: of the definition and of everything that
stands inside it, up to its references. `Form.WireDistinct` is the promise that no two keys of one object on the wire
coincide, `Form.Checked` what the checked constructors promise.
-/

namespace SchemaRpc

namespace Form

variable {τ : Type}

/-- The wire keys of properties, in declared order. -/
def wireKeys (casing : Casing) (properties : List (Property τ)) : List String :=
  properties.map fun p => casing.apply p.name

/-- No two keys of an object of this form coincide on the wire. -/
def WireDistinct (casing : Casing) : Form τ → Prop
  | object properties => (wireKeys casing properties).Nodup
  | union key mapping =>
      ∀ variant ∈ mapping, (casing.apply key :: wireKeys casing variant.2).Nodup
  | _ => True

/-- What the checked constructors promise: values, property names and tags are unique, and no variant declares a
property named like the discriminator. -/
def Checked : Form τ → Prop
  | enumeration listed => listed ≠ [] ∧ listed.Nodup
  | object properties => (properties.map Property.name).Nodup
  | union key mapping =>
      (mapping.map Prod.fst).Nodup ∧
        ∀ variant ∈ mapping, (key :: variant.2.map Property.name).Nodup
  | _ => True

/-- No two variants of a union have one tag. -/
def TagsDistinct : Form τ → Prop
  | union _ mapping => (mapping.map Prod.fst).Nodup
  | _ => True

/-- The definitions directly inside a form. -/
def children : Form τ → List τ
  | elements item => [item]
  | values item => [item]
  | object properties => properties.map Property.type
  | union _ mapping => mapping.flatMap fun variant => variant.2.map Property.type
  | _ => []

instance (casing : Casing) : (form : Form τ) → Decidable (form.WireDistinct casing)
  | object properties => inferInstanceAs (Decidable (wireKeys casing properties).Nodup)
  | union key mapping =>
      inferInstanceAs
        (Decidable (∀ variant ∈ mapping, (casing.apply key :: wireKeys casing variant.2).Nodup))
  | any | primitive _ | enumeration _ | elements _ | values _ | ref _ => isTrue trivial

instance : (form : Form τ) → Decidable form.Checked
  | enumeration listed => inferInstanceAs (Decidable (listed ≠ [] ∧ listed.Nodup))
  | object properties => inferInstanceAs (Decidable (properties.map Property.name).Nodup)
  | union key mapping =>
      inferInstanceAs
        (Decidable ((mapping.map Prod.fst).Nodup ∧
          ∀ variant ∈ mapping, (key :: variant.2.map Property.name).Nodup))
  | any | primitive _ | elements _ | values _ | ref _ => isTrue trivial

instance : (form : Form τ) → Decidable form.TagsDistinct
  | union _ mapping => inferInstanceAs (Decidable (mapping.map Prod.fst).Nodup)
  | any | primitive _ | enumeration _ | elements _ | values _ | object _ | ref _ => isTrue trivial

end Form

namespace TypeDef

mutual

/-- A definition and all that stand inside it, without those its references lead to. -/
def nodes : TypeDef → List TypeDef
  | ⟨form, nullable, metadata⟩ => ⟨form, nullable, metadata⟩ :: nodesOfForm form

/-- The nodes inside a form. -/
def nodesOfForm : Form TypeDef → List TypeDef
  | .any => []
  | .primitive _ => []
  | .enumeration _ => []
  | .elements item => item.nodes
  | .values item => item.nodes
  | .object properties => nodesOfProperties properties
  | .ref _ => []
  | .union _ mapping => nodesOfMapping mapping

/-- The nodes of properties. -/
def nodesOfProperties : List (Property TypeDef) → List TypeDef
  | [] => []
  | ⟨_, type, _⟩ :: rest => type.nodes ++ nodesOfProperties rest

/-- The nodes of variants. -/
def nodesOfMapping : List (String × List (Property TypeDef)) → List TypeDef
  | [] => []
  | (_, properties) :: rest => nodesOfProperties properties ++ nodesOfMapping rest

end

theorem nodes_eq (t : TypeDef) : t.nodes = t :: nodesOfForm t.form := by
  cases t
  rfl

theorem self_mem_nodes (t : TypeDef) : t ∈ t.nodes := by
  rw [nodes_eq]
  exact List.mem_cons_self

theorem mem_nodes_of_form {t s : TypeDef} (member : s ∈ nodesOfForm t.form) : s ∈ t.nodes := by
  rw [nodes_eq]
  exact List.mem_cons_of_mem t member

theorem mem_nodesOfProperties {properties : List (Property TypeDef)} {s : TypeDef} :
    s ∈ nodesOfProperties properties ↔ ∃ p ∈ properties, s ∈ p.type.nodes := by
  induction properties with
  | nil =>
      simp [nodesOfProperties]
  | cons head tail inductionHypothesis =>
      obtain ⟨name, type, optional⟩ := head
      simp [nodesOfProperties, inductionHypothesis]

theorem mem_nodesOfMapping {mapping : List (String × List (Property TypeDef))} {s : TypeDef} :
    s ∈ nodesOfMapping mapping ↔ ∃ variant ∈ mapping, s ∈ nodesOfProperties variant.2 := by
  induction mapping with
  | nil =>
      simp [nodesOfMapping]
  | cons head tail inductionHypothesis =>
      obtain ⟨tag, properties⟩ := head
      simp [nodesOfMapping, inductionHypothesis]

theorem refName?_eq_some_iff {t : TypeDef} {name : String} : t.refName? = some name ↔ t.form = .ref name := by
  unfold refName?
  cases t.form <;> simp

/-! ## Promises about every node -/

/-- A promise that every node of a definition keeps. -/
def Everywhere (promise : Form TypeDef → Prop) (t : TypeDef) : Prop :=
  ∀ s ∈ t.nodes, promise s.form

instance (promise : Form TypeDef → Prop) [DecidablePred promise] (t : TypeDef) :
    Decidable (t.Everywhere promise) :=
  inferInstanceAs (Decidable (∀ s ∈ t.nodes, promise s.form))

namespace Everywhere

variable {promise : Form TypeDef → Prop} {t : TypeDef}

theorem here (everywhere : t.Everywhere promise) : promise t.form :=
  everywhere t (self_mem_nodes t)

theorem here_of_form {form : Form TypeDef} (everywhere : t.Everywhere promise) (sameForm : t.form = form) :
    promise form := by
  rw [← sameForm]
  exact everywhere.here

theorem elements {item : TypeDef} (everywhere : t.Everywhere promise)
    (form : t.form = .elements item) : item.Everywhere promise := by
  intro s member
  refine everywhere s (mem_nodes_of_form ?_)
  rw [form]
  exact member

theorem values {item : TypeDef} (everywhere : t.Everywhere promise)
    (form : t.form = .values item) : item.Everywhere promise := by
  intro s member
  refine everywhere s (mem_nodes_of_form ?_)
  rw [form]
  exact member

theorem object {properties : List (Property TypeDef)} (everywhere : t.Everywhere promise)
    (form : t.form = .object properties) :
    ∀ p ∈ properties, p.type.Everywhere promise := by
  intro p declared s member
  refine everywhere s (mem_nodes_of_form ?_)
  rw [form]
  exact mem_nodesOfProperties.2 ⟨p, declared, member⟩

theorem union {key : String} {mapping : List (String × List (Property TypeDef))}
    (everywhere : t.Everywhere promise) (form : t.form = .union key mapping) :
    ∀ variant ∈ mapping, ∀ p ∈ variant.2, p.type.Everywhere promise := by
  intro variant listed p declared s member
  refine everywhere s (mem_nodes_of_form ?_)
  rw [form]
  exact mem_nodesOfMapping.2
    ⟨variant, listed, mem_nodesOfProperties.2 ⟨p, declared, member⟩⟩

theorem children (everywhere : t.Everywhere promise) : ∀ s ∈ t.form.children, s.Everywhere promise := by
  intro s child
  cases form : t.form with
  | elements item =>
      rw [form, Form.children, List.mem_singleton] at child
      exact child ▸ everywhere.elements form
  | values item =>
      rw [form, Form.children, List.mem_singleton] at child
      exact child ▸ everywhere.values form
  | object properties =>
      rw [form, Form.children] at child
      obtain ⟨p, declared, rfl⟩ := List.mem_map.1 child
      exact everywhere.object form p declared
  | union key mapping =>
      rw [form, Form.children] at child
      obtain ⟨variant, listed, inside⟩ := List.mem_flatMap.1 child
      obtain ⟨p, declared, rfl⟩ := List.mem_map.1 inside
      exact everywhere.union form variant listed p declared
  | any | primitive | enumeration | ref =>
      rw [form] at child
      cases child

end Everywhere

section Everywhere

variable {promise : Form TypeDef → Prop}

theorem everywhere_iff {t : TypeDef} :
    t.Everywhere promise ↔ promise t.form ∧ ∀ s ∈ nodesOfForm t.form, promise s.form := by
  unfold Everywhere
  rw [nodes_eq, List.forall_mem_cons]

/-- Nullability and metadata do not matter to a promise about forms. -/
theorem Everywhere.of_form {t t' : TypeDef} (everywhere : t.Everywhere promise) (sameForm : t'.form = t.form) :
    t'.Everywhere promise := by
  rw [everywhere_iff, sameForm]
  exact everywhere_iff.1 everywhere

theorem everywhere_object {properties : List (Property TypeDef)} (here : promise (.object properties))
    (types : ∀ p ∈ properties, p.type.Everywhere promise) : (object properties).Everywhere promise := by
  refine everywhere_iff.2 ⟨here, fun s member => ?_⟩
  obtain ⟨p, declared, inside⟩ := mem_nodesOfProperties.1 member
  exact types p declared s inside

theorem everywhere_union {key : String} {mapping : List (String × List (Property TypeDef))}
    (here : promise (.union key mapping))
    (types : ∀ variant ∈ mapping, ∀ p ∈ variant.2, p.type.Everywhere promise) :
    (ofForm (.union key mapping)).Everywhere promise := by
  refine everywhere_iff.2 ⟨here, fun s member => ?_⟩
  obtain ⟨variant, listed, insideVariant⟩ := mem_nodesOfMapping.1 member
  obtain ⟨p, declared, inside⟩ := mem_nodesOfProperties.1 insideVariant
  exact types variant listed p declared s inside

end Everywhere

end TypeDef

namespace Definitions

/-- A promise that every node of every body in the table keeps. -/
def Everywhere (promise : Form TypeDef → Prop) (defs : Definitions) : Prop :=
  ∀ entry ∈ defs.completed, entry.2.Everywhere promise

instance (promise : Form TypeDef → Prop) [DecidablePred promise] (defs : Definitions) :
    Decidable (defs.Everywhere promise) :=
  inferInstanceAs (Decidable (∀ entry ∈ defs.completed, entry.2.Everywhere promise))

theorem Everywhere.get? {promise : Form TypeDef → Prop} {defs : Definitions} {name : String}
    {body : TypeDef} (everywhere : defs.Everywhere promise)
    (found : defs.get? name = some body) : body.Everywhere promise :=
  everywhere (name, body) (mem_completed_of_get? found)

end Definitions

end SchemaRpc
