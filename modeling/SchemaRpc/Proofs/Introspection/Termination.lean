import SchemaRpc.Proofs.Definitions.Table
import SchemaRpc.Proofs.Introspection.Visit

/-!
# The walk of a root ends

Nothing bounds the recursion of a walk but the table: a type is entered only while it has no name, and gets one before
its members are looked at. So on a table whose owned entries are known by their owners, the uses of declared types never
lie more than `n + 1` deep, and what would happen below that depth does not matter.
-/

namespace SchemaRpc

namespace Definitions

/-- The owner of an entry has a name. -/
def Tracked (defs : Definitions) : Prop :=
  ∀ name entry owner, defs.entry? name = some entry → entry.owner = some owner → defs.nameOf? owner ≠ none

variable {defs defs' : Definitions} {name : String} {owner : TypeId} {body : Option TypeDef}

theorem nameOf?_add_ne_none {id : TypeId} (named : defs.nameOf? id ≠ none) :
    (defs.add name ⟨body, some owner⟩).nameOf? id ≠ none := by
  by_cases same : id = owner
  · subst same
    rw [nameOf?_add_owner]
    nofun
  · rw [nameOf?_add_of_ne same]
    exact named

theorem Tracked.add (tracked : defs.Tracked) : (defs.add name ⟨body, some owner⟩).Tracked := by
  intro other entry id found owned
  by_cases same : other = name
  · subst same
    rw [entry?_add_self] at found
    cases found
    cases owned
    rw [nameOf?_add_owner]
    nofun
  · rw [entry?_add_of_ne same] at found
    exact nameOf?_add_ne_none (tracked other entry id found owned)

theorem Tracked.fill (tracked : defs.Tracked) (reserved : defs.entry? name = some ⟨none, some owner⟩) :
    (defs.fill name ⟨body, some owner⟩).Tracked := by
  intro other entry id found owned
  by_cases same : other = name
  · subst same
    rw [entry?_fill_self] at found
    cases found
    exact tracked other _ id reserved owned
  · rw [entry?_fill_of_ne same] at found
    exact tracked other entry id found owned

end Definitions

namespace TypeDef

theorem closed_true : Closed fun _ => True := by
  constructor <;> intros <;> trivial

end TypeDef

namespace Introspection

variable {n : Nat} {w : Introspection n} {defs defs' : Definitions}

/-- So many nested uses of declared types, and `last` for those below them. -/
def unroll (w : Introspection n) (last : Expansion n) : Nat → Expansion n
  | 0 => last
  | count + 1 => w.visit (w.unroll last count)

/-! ## The types that have no name yet -/

/-- The number of declarations whose type has no name. -/
def pending (w : Introspection n) (defs : Definitions) : Nat :=
  (List.finRange n).countP fun slot => (defs.nameOf? (w.catalog.get slot).info.id).isNone

/-- A table on which a walk is at most so many first uses deep. -/
structure Bounded (w : Introspection n) (count : Nat) (defs : Definitions) : Prop where
  tracked : defs.Tracked
  pending_le : w.pending defs ≤ count

theorem bounded_of_tracked (tracked : defs.Tracked) : w.Bounded n defs := by
  refine ⟨tracked, ?_⟩
  have atMost := List.countP_le_length (p := fun slot => (defs.nameOf? (w.catalog.get slot).info.id).isNone)
    (l := List.finRange n)
  rwa [List.length_finRange] at atMost

theorem pending_le_of_named (named : ∀ id, defs.nameOf? id ≠ none → defs'.nameOf? id ≠ none) :
    w.pending defs' ≤ w.pending defs := by
  refine List.countP_mono_left fun slot _ unnamed => ?_
  rw [Option.isNone_iff_eq_none] at unnamed ⊢
  exact Decidable.byContradiction fun before => named _ before unnamed

theorem countP_lt_of_imp {α : Type} {p q : α → Bool} {items : List α} {item : α} (member : item ∈ items)
    (imp : ∀ x ∈ items, p x = true → q x = true) (notP : p item = false) (holdsQ : q item = true) :
    items.countP p < items.countP q := by
  obtain ⟨before, after, rfl⟩ := List.append_of_mem member
  have front : before.countP p ≤ before.countP q :=
    List.countP_mono_left fun x inside => imp x (List.mem_append_left _ inside)
  have back : after.countP p ≤ after.countP q :=
    List.countP_mono_left fun x inside => imp x (List.mem_append_right _ (List.mem_cons_of_mem _ inside))
  rw [List.countP_append, List.countP_append, List.countP_cons_of_neg (by simp [notP]),
    List.countP_cons_of_pos holdsQ]
  omega

theorem Bounded.add {count : Nat} (bounded : w.Bounded count defs) (name : String) (owner : TypeId)
    (body : Option TypeDef) : w.Bounded count (defs.add name ⟨body, some owner⟩) where
  tracked := bounded.tracked.add
  pending_le := Nat.le_trans (pending_le_of_named fun _ named => Definitions.nameOf?_add_ne_none named) bounded.pending_le

theorem preserved_bounded (count : Nat) : Preserved (w.Bounded count) fun _ => True where
  reserve name owner defs defs' bounded reserved := by
    rcases Definitions.reserve_eq_ok_iff.1 reserved with ⟨_, _, _, rfl⟩ | ⟨_, rfl⟩
    · exact bounded
    · exact bounded.add name owner none
  insert name owner body defs defs' _ bounded inserted := by
    rcases Definitions.insert_eq_ok_iff.1 inserted with ⟨_, rfl⟩ | ⟨reserved, rfl⟩ | ⟨_, _, rfl⟩
    · exact bounded.add name owner (some body)
    · exact ⟨bounded.tracked.fill reserved, bounded.pending_le⟩
    · exact bounded

/-- Reserving a name for a type that has none leaves fewer types without. -/
theorem bounded_of_reserve {count : Nat} {slot : Fin n} {name : String} (bounded : w.Bounded (count + 1) defs)
    (fresh : defs.nameOf? (w.catalog.get slot).info.id = none)
    (reserved : defs.reserve name (some (w.catalog.get slot).info.id) = .ok defs') : w.Bounded count defs' := by
  rcases Definitions.reserve_eq_ok_iff.1 reserved with ⟨entry, found, owned, _⟩ | ⟨_, rfl⟩
  · exact absurd fresh (bounded.tracked name entry _ found owned)
  · refine ⟨bounded.tracked.add, ?_⟩
    have fewer : w.pending (defs.add name ⟨none, some (w.catalog.get slot).info.id⟩) < w.pending defs := by
      refine countP_lt_of_imp (List.mem_finRange slot) (fun other _ unnamed => ?_) ?_ ?_
      · rw [Option.isNone_iff_eq_none] at unnamed ⊢
        exact Decidable.byContradiction fun before => Definitions.nameOf?_add_ne_none before unnamed
      · rw [Definitions.nameOf?_add_owner]
        rfl
      · rw [fresh]
        rfl
    have enough := bounded.pending_le
    omega

/-! ## Walks that do the same -/

/-- Two walks do the same on every table of the invariant. -/
def Agree {α : Type} (invariant : Definitions → Prop) (walk walk' : Walk α) : Prop :=
  ∀ defs, invariant defs → walk.run.run defs = walk'.run.run defs

section Agree

variable {α β : Type} {invariant : Definitions → Prop}

theorem Agree.refl (walk : Walk α) : Agree invariant walk walk :=
  fun _ _ => rfl

theorem run_bind_congr {walk : Walk α} {next next' : α → Walk β}
    (same : ∀ a between, Runs walk defs a between → (next a).run.run between = (next' a).run.run between) :
    (walk >>= next).run.run defs = (walk >>= next').run.run defs := by
  rw [run_bind, run_bind]
  cases ran : walk.run.run defs with
  | mk result between =>
      cases result with
      | ok a =>
          exact same a between ran
      | error error =>
          rfl

theorem Agree.bind {walk walk' : Walk α} {next next' : α → Walk β} {given : α → Prop}
    (agree : Agree invariant walk walk') (keeps : Keeps invariant walk given)
    (rest : ∀ a, Agree invariant (next a) (next' a)) : Agree invariant (walk >>= next) (walk' >>= next') := by
  intro defs kept
  have first : (walk' >>= next').run.run defs = (walk >>= next').run.run defs := by
    rw [run_bind, run_bind, agree defs kept]
  rw [first]
  refine run_bind_congr fun a between ran => rest a between ?_
  have keptBetween := (keeps defs kept).1
  rw [ran] at keptBetween
  exact keptBetween

variable {expand expand' : Expansion n}

theorem agree_walkShape (agree : ∀ slot path, Agree invariant (expand slot path) (expand' slot path))
    (keeps : ∀ slot path, Keeps invariant (expand slot path) fun _ => True) (shape : Shape n) (path : List String) :
    Agree invariant (walkShape expand path shape) (walkShape expand' path shape) := by
  induction shape with
  | array item inductionHypothesis =>
      exact inductionHypothesis.bind (keeps_walkShape TypeDef.closed_true keeps item path) fun _ => .refl _
  | map item inductionHypothesis =>
      exact inductionHypothesis.bind (keeps_walkShape TypeDef.closed_true keeps item path) fun _ => .refl _
  | nullable inner inductionHypothesis =>
      exact inductionHypothesis.bind (keeps_walkShape TypeDef.closed_true keeps inner path) fun _ => .refl _
  | declared slot =>
      exact agree slot path
  | primitive | any | optional | unit | unsupported =>
      exact .refl _

theorem agree_walkFields (agree : ∀ slot path, Agree invariant (expand slot path) (expand' slot path))
    (keeps : ∀ slot path, Keeps invariant (expand slot path) fun _ => True) (fields : List (FieldDecl (Shape n)))
    (path : List String) : Agree invariant (walkFields expand path fields) (walkFields expand' path fields) := by
  induction fields with
  | nil =>
      exact .refl _
  | cons field rest inductionHypothesis =>
      refine (agree_walkShape agree keeps _ _).bind (keeps_walkShape TypeDef.closed_true keeps _ _) fun _ => ?_
      exact inductionHypothesis.bind (keeps_walkFields TypeDef.closed_true keeps rest path) fun _ => .refl _

theorem agree_walkObject (agree : ∀ slot path, Agree invariant (expand slot path) (expand' slot path))
    (keeps : ∀ slot path, Keeps invariant (expand slot path) fun _ => True) (fields : List (FieldDecl (Shape n)))
    (path : List String) : Agree invariant (walkObject expand path fields) (walkObject expand' path fields) :=
  (agree_walkFields agree keeps fields path).bind (keeps_walkFields TypeDef.closed_true keeps fields path)
    fun _ => .refl _

theorem agree_walkVariants (agree : ∀ slot path, Agree invariant (expand slot path) (expand' slot path))
    (keeps : ∀ slot path, Keeps invariant (expand slot path) fun _ => True) (variants : List (VariantDecl (Shape n)))
    (path : List String) :
    Agree invariant (walkVariants expand path variants) (walkVariants expand' path variants) := by
  induction variants with
  | nil =>
      exact .refl _
  | cons variant rest inductionHypothesis =>
      refine (agree_walkObject agree keeps _ _).bind (keeps_walkObject TypeDef.closed_true keeps _ _) fun _ => ?_
      exact inductionHypothesis.bind (keeps_walkVariants TypeDef.closed_true keeps rest path) fun _ => .refl _

theorem agree_walkMembers (agree : ∀ slot path, Agree invariant (expand slot path) (expand' slot path))
    (keeps : ∀ slot path, Keeps invariant (expand slot path) fun _ => True) (members : Members (Shape n))
    (path : List String) : Agree invariant (walkMembers expand path members) (walkMembers expand' path members) := by
  cases members with
  | record fields =>
      exact (agree_walkObject agree keeps fields path).bind (keeps_walkObject TypeDef.closed_true keeps fields path)
        fun _ => .refl _
  | union key variants =>
      exact (agree_walkVariants agree keeps variants path).bind
        (keeps_walkVariants TypeDef.closed_true keeps variants path) fun _ => .refl _
  | enumeration listed =>
      exact .refl _

end Agree

/-! ## Nothing happens below the bound -/

theorem pending_pos {slot : Fin n} (fresh : defs.nameOf? (w.catalog.get slot).info.id = none) : 0 < w.pending defs := by
  refine List.countP_pos_iff.2 ⟨slot, List.mem_finRange slot, ?_⟩
  rw [fresh]
  rfl

/-- One use does the same when the uses below it do where one type less is without name. -/
theorem agree_visit {count : Nat} {expand expand' : Expansion n}
    (below : ∀ fewer, fewer + 1 = count → ∀ slot path,
      Agree (w.Bounded fewer) (expand slot path) (expand' slot path))
    (keeps : ∀ fewer slot path, Keeps (w.Bounded fewer) (expand slot path) fun _ => True)
    (slot : Fin n) (path : List String) :
    Agree (w.Bounded count) (w.visit expand slot path) (w.visit expand' slot path) := by
  intro defs bounded
  cases isEnum : (w.catalog.get slot).members.isEnumeration with
  | true =>
      obtain ⟨listed, members⟩ := Members.eq_enumeration isEnum
      rw [visit_enumeration members, visit_enumeration members]
  | false =>
      cases named : defs.nameOf? (w.catalog.get slot).info.id with
      | some name =>
          rw [run_visit_named isEnum named, run_visit_named isEnum named]
      | none =>
          have unnamed := pending_pos named
          have atMost := bounded.pending_le
          obtain ⟨fewer, rfl⟩ : ∃ fewer, count = fewer + 1 := Nat.exists_eq_add_one.2 (by omega)
          rw [run_visit_fresh isEnum named, run_visit_fresh isEnum named]
          refine run_bind_congr fun _ between ran => ?_
          -- the name is reserved before the members are walked, so these start with one type less to name
          have boundedBetween := bounded_of_reserve bounded named (runs_onTable.1 ran)
          have agree := agree_walkMembers (below fewer rfl) (keeps fewer) (w.catalog.get slot).members path
          have kept := keeps_walkMembers TypeDef.closed_true (keeps fewer) (w.catalog.get slot).members path
          exact agree.bind kept (fun _ => .refl _) between boundedBetween

theorem agree_unroll (last : Expansion n) (count : Nat) :
    ∀ slot path, Agree (w.Bounded count) (w.expand (count + 1) slot path) (w.unroll last (count + 1) slot path) := by
  induction count with
  | zero =>
      exact agree_visit (fun _ impossible => absurd impossible (Nat.succ_ne_zero _)) fun fewer =>
        keeps_expand TypeDef.closed_true (preserved_bounded fewer) 0
  | succ count inductionHypothesis =>
      refine agree_visit (fun fewer same => ?_) fun fewer =>
        keeps_expand TypeDef.closed_true (preserved_bounded fewer) (count + 1)
      cases same
      exact inductionHypothesis

theorem rootBy_congr {expand expand' : Expansion n} (shape : Shape n)
    (same : ∀ slot, (expand slot []).run.run defs = (expand' slot []).run.run defs) :
    (w.rootBy expand shape).run.run defs = (w.rootBy expand' shape).run.run defs := by
  unfold rootBy
  split
  · rfl
  · next slot =>
    split
    split
    · rfl
    · refine run_bind_congr fun held between ran => ?_
      obtain ⟨_, rfl⟩ := runs_get.1 ran
      split
      · rfl
      · rw [run_bind, run_bind, same slot]
  · rfl

/-- A root is walked to its end: whatever is put below `n + 1` nested uses, the walk does the same. -/
theorem rootBy_unroll (tracked : defs.Tracked) (last : Expansion n) (shape : Shape n) :
    (w.rootBy (w.unroll last (n + 1)) shape).run.run defs = (w.root shape).run.run defs := by
  have bounded : w.Bounded n defs := bounded_of_tracked tracked
  rw [root]
  apply rootBy_congr
  intro slot
  exact (agree_unroll last n slot [] defs bounded).symm

end Introspection

end SchemaRpc
