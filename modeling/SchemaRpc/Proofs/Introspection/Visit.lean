import SchemaRpc.Proofs.Introspection.Invariant

/-!
# One use of a declared type

An enumeration stands where it is used, a record or union that has a name is referred to, and one that has none is
entered. These are the equations of `visit`, and what it keeps.
-/

namespace SchemaRpc

/-- The members are those of an enumeration, which has no entry of its own. -/
def Members.isEnumeration {τ : Type} : Members τ → Bool
  | enumeration _ => true
  | _ => false

theorem Members.eq_enumeration {τ : Type} {members : Members τ} (isEnum : members.isEnumeration = true) :
    ∃ listed, members = .enumeration listed := by
  cases members with
  | enumeration listed =>
      exact ⟨listed, rfl⟩
  | record | union =>
      cases isEnum

namespace Introspection

variable {n : Nat} {w : Introspection n} {expand : Expansion n} {slot : Fin n} {path : List String}
  {defs : Definitions}

theorem visit_enumeration {listed : List String} (isEnum : (w.catalog.get slot).members = .enumeration listed) :
    w.visit expand slot path =
      lift (TypeDef.enumeration listed) >>= fun t =>
        pure (t.withMetadata (metadataOf (w.catalog.get slot).info (w.catalog.get slot).info.name)) := by
  unfold visit
  cases declared : w.catalog.get slot with
  | mk info members =>
      rw [declared] at isEnum
      cases isEnum
      rfl

theorem visit_entered (isEntered : (w.catalog.get slot).members.isEnumeration = false) :
    w.visit expand slot path =
      (do
        match (← get).nameOf? (w.catalog.get slot).info.id with
        | some name => return .ref name
        | none => w.enter expand path (w.catalog.get slot).info (w.catalog.get slot).members) := by
  unfold visit
  cases declared : w.catalog.get slot with
  | mk info members =>
      rw [declared] at isEntered
      cases members with
      | enumeration listed =>
          cases isEntered
      | record | union =>
          rfl

theorem run_visit_named {name : String} (isEntered : (w.catalog.get slot).members.isEnumeration = false)
    (named : defs.nameOf? (w.catalog.get slot).info.id = some name) :
    (w.visit expand slot path).run.run defs = (.ok (.ref name), defs) := by
  have ran : (get : Walk Definitions).run.run defs = (.ok defs, defs) := rfl
  rw [visit_entered isEntered, run_bind, ran]
  simp only [named]
  rfl

theorem run_visit_fresh (isEntered : (w.catalog.get slot).members.isEnumeration = false)
    (fresh : defs.nameOf? (w.catalog.get slot).info.id = none) :
    (w.visit expand slot path).run.run defs =
      (w.enter expand path (w.catalog.get slot).info (w.catalog.get slot).members).run.run defs := by
  have ran : (get : Walk Definitions).run.run defs = (.ok defs, defs) := rfl
  rw [visit_entered isEntered, run_bind, ran]
  simp only [fresh]

/-! ## Invariants -/

section Keeps

variable {invariant : Definitions → Prop} {P : TypeDef → Prop}

/-- An invariant that reserving a name keeps, and storing a definition with the property. -/
structure Preserved (invariant : Definitions → Prop) (P : TypeDef → Prop) : Prop where
  reserve : ∀ name owner defs defs', invariant defs → defs.reserve name (some owner) = .ok defs' → invariant defs'
  insert : ∀ name owner body defs defs', P body → invariant defs → defs.insert name body (some owner) = .ok defs' →
    invariant defs'

theorem keeps_enter (closed : TypeDef.Closed P) (preserved : Preserved invariant P)
    (expanded : ∀ slot path, Keeps invariant (expand slot path) P) (path : List String) (info : TypeInfo)
    (members : Members (Shape n)) : Keeps invariant (w.enter expand path info members) P := by
  refine (Keeps.onTable (preserved.reserve _ _)).bind fun _ _ => ?_
  refine (keeps_walkMembers closed expanded members path).bind fun body holds => ?_
  refine (Keeps.onTable fun defs defs' kept => ?_).bind fun _ _ => .pure (closed.ref _)
  exact preserved.insert _ _ _ _ _ (closed.withMetadata body _ holds) kept

theorem keeps_visit (closed : TypeDef.Closed P) (preserved : Preserved invariant P)
    (expanded : ∀ slot path, Keeps invariant (expand slot path) P) (slot : Fin n) (path : List String) :
    Keeps invariant (w.visit expand slot path) P := by
  cases isEnum : (w.catalog.get slot).members.isEnumeration with
  | true =>
      obtain ⟨listed, members⟩ := Members.eq_enumeration isEnum
      rw [visit_enumeration members]
      refine (Keeps.lift fun t made => closed.enumeration listed t made).bind fun t holds => ?_
      exact .pure (closed.withMetadata t _ holds)
  | false =>
      rw [visit_entered isEnum]
      refine Keeps.get.bind fun defs _ => ?_
      split
      · exact .pure (closed.ref _)
      · exact keeps_enter closed preserved expanded path _ _

theorem keeps_expand (closed : TypeDef.Closed P) (preserved : Preserved invariant P) (fuel : Nat) :
    ∀ slot path, Keeps invariant (w.expand fuel slot path) P := by
  induction fuel with
  | zero =>
      exact fun slot path => .throw
  | succ fuel inductionHypothesis =>
      exact keeps_visit closed preserved inductionHypothesis

theorem keeps_rootBy (expanded : ∀ slot path, Keeps invariant (expand slot path) P) (shape : Shape n) :
    Keeps invariant (w.rootBy expand shape) fun _ => True := by
  unfold rootBy
  split
  · exact .pure trivial
  · split
    split
    · exact .throw
    · refine Keeps.get.bind fun defs _ => ?_
      split
      · exact .throw
      · exact (expanded _ _).bind fun _ _ => .pure trivial
  · exact .throw

theorem keeps_root (closed : TypeDef.Closed P) (preserved : Preserved invariant P) (shape : Shape n) :
    Keeps invariant (w.root shape) fun _ => True :=
  keeps_rootBy (keeps_expand closed preserved (n + 1)) shape

end Keeps

end Introspection

end SchemaRpc
