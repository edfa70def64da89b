import SchemaRpc.Proofs.Introspection.Walk
import SchemaRpc.Proofs.TypeDef.Checked

/-!
# Invariants of introspection

A property of definitions that is `Closed` under what the walk does with them holds of all that the walk gives, and an
invariant of the table that survives a reservation and the storing of such a definition survives the whole walk.
-/

namespace SchemaRpc

/-- Properties as the checks of the type model let them pass: different names, and types as stated. -/
structure Passed (P : TypeDef → Prop) (properties : List (Property TypeDef)) : Prop where
  names : (properties.map Property.name).Nodup
  types : ∀ p ∈ properties, P p.type

/-- A property of definitions that every way of making a definition keeps. -/
structure TypeDef.Closed (P : TypeDef → Prop) : Prop where
  any : P .any
  primitive : ∀ kind, P (.primitive kind)
  ref : ∀ name, P (.ref name)
  elements : ∀ t, P t → P (.elements t)
  values : ∀ t, P t → P (.values t)
  withNullable : ∀ t nullable, P t → P (t.withNullable nullable)
  withMetadata : ∀ t metadata, P t → P (t.withMetadata metadata)
  enumeration : ∀ listed t, TypeDef.enumeration listed = .ok t → P t
  object : ∀ properties, Passed P properties → P (.object properties)
  union : ∀ key mapping t, TypeDef.unionOf key mapping = .ok t →
    (∀ variant ∈ mapping, Passed P variant.2) → P t

namespace Introspection

variable {n : Nat} {invariant : Definitions → Prop} {P : TypeDef → Prop} {expand : Expansion n}

theorem keeps_walkShape (closed : TypeDef.Closed P) (expanded : ∀ slot path, Keeps invariant (expand slot path) P)
    (shape : Shape n) (path : List String) : Keeps invariant (walkShape expand path shape) P := by
  induction shape with
  | primitive kind =>
      exact .pure (closed.primitive kind)
  | array item inductionHypothesis =>
      exact inductionHypothesis.bind fun t holds => .pure (closed.elements t holds)
  | map item inductionHypothesis =>
      exact inductionHypothesis.bind fun t holds => .pure (closed.values t holds)
  | nullable inner inductionHypothesis =>
      exact inductionHypothesis.bind fun t holds => .pure (closed.withNullable t true holds)
  | any =>
      exact .pure closed.any
  | declared slot =>
      exact expanded slot path
  | optional | unit | unsupported =>
      exact .throw

theorem keeps_walkFields (closed : TypeDef.Closed P) (expanded : ∀ slot path, Keeps invariant (expand slot path) P)
    (fields : List (FieldDecl (Shape n))) (path : List String) :
    Keeps invariant (walkFields expand path fields) fun properties => ∀ p ∈ properties, P p.type := by
  induction fields with
  | nil =>
      exact .pure (List.forall_mem_nil _)
  | cons field rest inductionHypothesis =>
      refine (keeps_walkShape closed expanded _ _).bind fun t holds => inductionHypothesis.bind fun properties all => ?_
      exact .pure (List.forall_mem_cons.2 ⟨closed.withMetadata t _ holds, all⟩)

theorem keeps_walkObject (closed : TypeDef.Closed P) (expanded : ∀ slot path, Keeps invariant (expand slot path) P)
    (fields : List (FieldDecl (Shape n))) (path : List String) :
    Keeps invariant (walkObject expand path fields) (Passed P) := by
  refine (keeps_walkFields closed expanded fields path).bind fun properties types => .lift fun checked passed => ?_
  obtain ⟨rfl, names⟩ := TypeDef.checkProperties_eq_ok passed
  exact ⟨names, types⟩

theorem keeps_walkVariants (closed : TypeDef.Closed P) (expanded : ∀ slot path, Keeps invariant (expand slot path) P)
    (variants : List (VariantDecl (Shape n))) (path : List String) :
    Keeps invariant (walkVariants expand path variants) fun mapping => ∀ variant ∈ mapping, Passed P variant.2 := by
  induction variants with
  | nil =>
      exact .pure (List.forall_mem_nil _)
  | cons variant rest inductionHypothesis =>
      refine (keeps_walkObject closed expanded _ _).bind fun properties passed =>
        inductionHypothesis.bind fun mapping all => ?_
      exact .pure (List.forall_mem_cons.2 ⟨passed, all⟩)

theorem keeps_walkMembers (closed : TypeDef.Closed P) (expanded : ∀ slot path, Keeps invariant (expand slot path) P)
    (members : Members (Shape n)) (path : List String) : Keeps invariant (walkMembers expand path members) P := by
  cases members with
  | record fields =>
      exact (keeps_walkObject closed expanded fields path).bind fun properties passed =>
        .pure (closed.object properties passed)
  | union key variants =>
      exact (keeps_walkVariants closed expanded variants path).bind fun mapping passed =>
        .lift fun t made => closed.union key mapping t made passed
  | enumeration listed =>
      exact .lift fun t made => closed.enumeration listed t made

end Introspection

end SchemaRpc
