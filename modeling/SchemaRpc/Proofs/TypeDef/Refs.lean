import SchemaRpc.Proofs.TypeDef.Nodes

/-!
# The references of a definition

`TypeDef.induct` is the induction over a definition and the definitions directly inside it. The names that a definition
refers to are those of its nodes that are references.
-/

namespace SchemaRpc

theorem Form.mem_children_object {τ : Type} {properties : List (Property τ)} {s : τ} :
    s ∈ (object properties).children ↔ ∃ p ∈ properties, p.type = s :=
  List.mem_map

theorem Form.mem_children_union {τ : Type} {key : String} {mapping : List (String × List (Property τ))} {s : τ} :
    s ∈ (union key mapping).children ↔ ∃ variant ∈ mapping, ∃ p ∈ variant.2, p.type = s := by
  unfold children
  simp only [List.mem_flatMap, List.mem_map]

/-- Something holds of a definition directly inside an object if it holds of the type of a property. -/
theorem Form.exists_mem_children_object {τ : Type} {P : τ → Prop} {properties : List (Property τ)} :
    (∃ s ∈ (object properties).children, P s) ↔ ∃ p ∈ properties, P p.type := by
  constructor
  · rintro ⟨s, inside, holds⟩
    obtain ⟨p, declared, rfl⟩ := mem_children_object.1 inside
    exact ⟨p, declared, holds⟩
  · rintro ⟨p, declared, holds⟩
    exact ⟨p.type, mem_children_object.2 ⟨p, declared, rfl⟩, holds⟩

theorem Form.exists_mem_children_union {τ : Type} {P : τ → Prop} {key : String}
    {mapping : List (String × List (Property τ))} :
    (∃ s ∈ (union key mapping).children, P s) ↔ ∃ variant ∈ mapping, ∃ p ∈ variant.2, P p.type := by
  constructor
  · rintro ⟨s, inside, holds⟩
    obtain ⟨variant, listed, p, declared, rfl⟩ := mem_children_union.1 inside
    exact ⟨variant, listed, p, declared, holds⟩
  · rintro ⟨variant, listed, p, declared, holds⟩
    exact ⟨p.type, mem_children_union.2 ⟨variant, listed, p, declared, rfl⟩, holds⟩

namespace TypeDef

/-- Induction over a definition with those directly inside it. -/
theorem induct {P : TypeDef → Prop} (step : ∀ t : TypeDef, (∀ s ∈ t.form.children, P s) → P t) (t : TypeDef) : P t :=
  @TypeDef.rec P (fun form => ∀ s ∈ form.children, P s) (fun properties => ∀ p ∈ properties, P p.type)
    (fun mapping => ∀ variant ∈ mapping, ∀ p ∈ variant.2, P p.type) (fun p => P p.type)
    (fun variant => ∀ p ∈ variant.2, P p.type)
    (fun form nullable metadata inside => step ⟨form, nullable, metadata⟩ inside)
    (List.forall_mem_nil _) (fun _ => List.forall_mem_nil _) (fun _ => List.forall_mem_nil _)
    (fun _ holds => List.forall_mem_singleton.2 holds) (fun _ holds => List.forall_mem_singleton.2 holds)
    (fun _ each => List.forall_mem_map.2 each) (fun _ => List.forall_mem_nil _)
    (fun _ _ each => List.forall_mem_flatMap.2 fun variant listed => List.forall_mem_map.2 (each variant listed))
    (List.forall_mem_nil _) (fun _ _ head tail => List.forall_mem_cons.2 ⟨head, tail⟩)
    (List.forall_mem_nil _) (fun _ _ head tail => List.forall_mem_cons.2 ⟨head, tail⟩)
    (fun _ _ _ holds => holds) (fun _ _ each => each) t

theorem mem_refsOfProperties {properties : List (Property TypeDef)} {name : String} :
    name ∈ refsOfProperties properties ↔ ∃ p ∈ properties, name ∈ p.type.refs := by
  induction properties with
  | nil =>
      simp [refsOfProperties]
  | cons head tail inductionHypothesis =>
      obtain ⟨_, type, _⟩ := head
      simp [refsOfProperties, inductionHypothesis]

theorem mem_refsOfMapping {mapping : List (String × List (Property TypeDef))} {name : String} :
    name ∈ refsOfMapping mapping ↔ ∃ variant ∈ mapping, name ∈ refsOfProperties variant.2 := by
  induction mapping with
  | nil =>
      simp [refsOfMapping]
  | cons head tail inductionHypothesis =>
      obtain ⟨_, properties⟩ := head
      simp [refsOfMapping, inductionHypothesis]

theorem refs_eq (t : TypeDef) : t.refs = refsOfForm t.form := by
  cases t
  rfl

theorem refs_eq_of_form {t t' : TypeDef} (same : t.form = t'.form) : t.refs = t'.refs := by
  rw [refs_eq, refs_eq, same]

/-- A name that a definition refers to is its own target, or one of those directly inside refers to it. -/
theorem mem_refs_iff_child {t : TypeDef} {name : String} :
    name ∈ t.refs ↔ t.form = .ref name ∨ ∃ child ∈ t.form.children, name ∈ child.refs := by
  rw [refs_eq]
  cases form : t.form with
  | elements item | values item =>
      simp [refsOfForm, Form.children]
  | object properties =>
      simp [refsOfForm, mem_refsOfProperties, Form.exists_mem_children_object]
  | union key mapping =>
      simp [refsOfForm, mem_refsOfMapping, mem_refsOfProperties, Form.exists_mem_children_union]
  | ref target =>
      simp [refsOfForm, Form.children, eq_comm]
  | any | primitive | enumeration =>
      simp [refsOfForm, Form.children]

theorem mem_refs_of_ref {t : TypeDef} {name : String} (form : t.form = .ref name) : name ∈ t.refs :=
  mem_refs_iff_child.2 (.inl form)

theorem mem_refs_of_child {t s : TypeDef} {name : String} (child : s ∈ t.form.children) (inside : name ∈ s.refs) :
    name ∈ t.refs :=
  mem_refs_iff_child.2 (.inr ⟨s, child, inside⟩)

/-- A node is the definition itself, or a node of one directly inside. -/
theorem mem_nodes_iff_child {t node : TypeDef} :
    node ∈ t.nodes ↔ node = t ∨ ∃ child ∈ t.form.children, node ∈ child.nodes := by
  rw [nodes_eq, List.mem_cons]
  refine or_congr_right ?_
  cases form : t.form with
  | elements item | values item =>
      simp [nodesOfForm, Form.children]
  | object properties =>
      simp [nodesOfForm, mem_nodesOfProperties, Form.exists_mem_children_object]
  | union key mapping =>
      simp [nodesOfForm, mem_nodesOfMapping, mem_nodesOfProperties, Form.exists_mem_children_union]
  | any | primitive | enumeration | ref =>
      simp [nodesOfForm, Form.children]

/-- What is collected are the targets of the references among the nodes, wherever they stand. -/
theorem mem_refs_iff {t : TypeDef} {name : String} : name ∈ t.refs ↔ ∃ node ∈ t.nodes, node.form = .ref name := by
  induction t using induct with
  | step t inductionHypothesis =>
      rw [mem_refs_iff_child]
      constructor
      · rintro (form | ⟨child, inside, referred⟩)
        · exact ⟨t, self_mem_nodes t, form⟩
        · obtain ⟨node, within, form⟩ := (inductionHypothesis child inside).1 referred
          exact ⟨node, mem_nodes_iff_child.2 (.inr ⟨child, inside, within⟩), form⟩
      · rintro ⟨node, within, form⟩
        rcases mem_nodes_iff_child.1 within with rfl | ⟨child, inside, within⟩
        · exact .inl form
        · exact .inr ⟨child, inside, (inductionHypothesis child inside).2 ⟨node, within, form⟩⟩

theorem mem_refs_of_mem_nodes {t s : TypeDef} {name : String} (node : s ∈ t.nodes) (form : s.form = .ref name) :
    name ∈ t.refs :=
  mem_refs_iff.2 ⟨s, node, form⟩

end TypeDef

end SchemaRpc
