import SchemaRpc.Proofs.Introspection.Refused
import SchemaRpc.Proofs.Introspection.Root

/-!
# Walks towards a known table

Where every record and union has a name of its own, a finished table tells beforehand what all walks over its parts
give: the definitions that say in that table what the shapes say (`yields_root`). What a part has already and in which
order it came there makes no difference, since no name depends on the way on which a type is reached.
-/

namespace SchemaRpc.Introspection

open Catalog

variable {n : Nat} {catalog : Catalog n} {final defs defs' : Definitions}

/-- A finished table in which the types have the names that they declare. -/
structure Complete (catalog : Catalog n) (final : Definitions) : Prop where
  coherent : Coherent catalog final
  finished : Finished final
  checked : final.Everywhere Form.Checked
  declared : ∀ slot name, final.nameOf? (catalog.id slot) = some name → (catalog.get slot).info.name = some name

theorem Complete.entry (complete : Complete catalog final) {slot : Fin n} {name : String}
    (named : final.nameOf? (catalog.id slot) = some name) :
    ∃ body, final.entry? name = some ⟨some body, some (catalog.id slot)⟩ ∧
      DescribesBody catalog final slot name body ∧ body.Everywhere Form.Checked := by
  obtain ⟨body, found, describes⟩ := entry_of_named complete.coherent complete.finished named
  have got : final.get? name = some body := Option.bind_eq_some_iff.2 ⟨_, found, rfl⟩
  exact ⟨body, found, describes, complete.checked.get? got⟩

/-- A table with some of the entries of another, and without some of their bodies. -/
structure Part (final defs : Definitions) : Prop where
  entries : ∀ name entry, defs.entry? name = some entry →
    ∃ body, final.entry? name = some ⟨some body, entry.owner⟩ ∧ ∀ stored, entry.body = some stored → stored = body
  names : NamesKept defs final

namespace Part

theorem empty : Part final .empty where
  entries _ _ found := nomatch found
  names _ _ named := nomatch named

variable {name : String} {owner : TypeId} {body : TypeDef}

theorem owner_eq (part : Part final defs) (known : final.entry? name = some ⟨some body, some owner⟩)
    {entry : Definitions.Entry} (found : defs.entry? name = some entry) :
    entry.owner = some owner ∧ ∀ stored, entry.body = some stored → stored = body := by
  obtain ⟨stored, itsOwner⟩ := entry
  obtain ⟨body', foundFinal, same⟩ := part.entries name _ found
  rw [known] at foundFinal
  cases foundFinal
  exact ⟨rfl, same⟩

theorem add (part : Part final defs) (known : final.entry? name = some ⟨some body, some owner⟩)
    (named : final.nameOf? owner = some name) {stored : Option TypeDef} (same : ∀ t, stored = some t → t = body) :
    Part final (defs.add name ⟨stored, some owner⟩) where
  entries other entry found := by
    rcases Definitions.entry?_of_add found with ⟨rfl, rfl⟩ | before
    · exact ⟨body, known, same⟩
    · exact part.entries other entry before
  names id other namedHere := by
    by_cases sameId : id = owner
    · subst sameId
      rw [Definitions.nameOf?_add_owner] at namedHere
      cases namedHere
      exact named
    · rw [Definitions.nameOf?_add_of_ne sameId] at namedHere
      exact part.names id other namedHere

theorem fill (part : Part final defs) (known : final.entry? name = some ⟨some body, some owner⟩) :
    Part final (defs.fill name ⟨some body, some owner⟩) where
  entries other entry found := by
    rcases Definitions.entry?_of_fill found with ⟨rfl, rfl⟩ | before
    · exact ⟨body, known, fun _ stored => (Option.some.inj stored).symm⟩
    · exact part.entries other entry before
  names := part.names

/-- A name can be reserved for the type that has it in the end. -/
theorem reserve (part : Part final defs) (known : final.entry? name = some ⟨some body, some owner⟩)
    (named : final.nameOf? owner = some name) :
    ∃ opened, defs.reserve name (some owner) = .ok opened ∧ Part final opened := by
  cases found : defs.entry? name with
  | none =>
      exact ⟨_, Definitions.reserve_eq_ok_iff.2 (.inr ⟨found, rfl⟩), part.add known named nofun⟩
  | some entry =>
      obtain ⟨owned, -⟩ := part.owner_eq known found
      exact ⟨defs, Definitions.reserve_eq_ok_iff.2 (.inl ⟨entry, found, owned, rfl⟩), part⟩

/-- The body that a name has in the end can be stored. -/
theorem insert (part : Part final defs) (known : final.entry? name = some ⟨some body, some owner⟩)
    (named : final.nameOf? owner = some name) :
    ∃ stored, defs.insert name body (some owner) = .ok stored ∧ Part final stored := by
  cases found : defs.entry? name with
  | none =>
      refine ⟨_, Definitions.insert_eq_ok_iff.2 (.inl ⟨found, rfl⟩), part.add known named ?_⟩
      exact fun _ stored => (Option.some.inj stored).symm
  | some entry =>
      obtain ⟨owned, -⟩ := part.owner_eq known found
      obtain ⟨stored, owner'⟩ := entry
      cases owned
      cases stored with
      | none =>
          exact ⟨_, Definitions.insert_eq_ok_iff.2 (.inr (.inl ⟨found, rfl⟩)), part.fill known⟩
      | some stored =>
          exact ⟨defs, Definitions.insert_eq_ok_iff.2 (.inr (.inr ⟨stored, found, rfl⟩)), part⟩

end Part

/-! ## Walks that succeed -/

/-- On every table of the invariant the walk succeeds with the one result, in a table of the invariant. -/
def Yields {α : Type} (invariant : Definitions → Prop) (walk : Walk α) (a : α) : Prop :=
  ∀ defs, invariant defs → ∃ defs', Runs walk defs a defs' ∧ invariant defs'

namespace Yields

variable {α β : Type} {invariant : Definitions → Prop} {walk : Walk α}

theorem pure (a : α) : Yields invariant (Pure.pure a) a :=
  fun defs kept => ⟨defs, runs_pure.2 ⟨rfl, rfl⟩, kept⟩

theorem bind {next : α → Walk β} {a : α} {b : β} (first : Yields invariant walk a)
    (rest : Yields invariant (next a) b) :
    Yields invariant (walk >>= next) b := by
  intro defs kept
  obtain ⟨between, ran, keptBetween⟩ := first defs kept
  obtain ⟨defs', ranRest, keptAfter⟩ := rest between keptBetween
  exact ⟨defs', runs_bind.2 ⟨a, between, ran, ranRest⟩, keptAfter⟩

theorem lift {result : Except ModelError α} {a : α} (succeeds : result = .ok a) :
    Yields invariant (Introspection.lift result) a :=
  fun defs kept => ⟨defs, runs_lift.2 ⟨succeeds, rfl⟩, kept⟩

end Yields

section Walks

variable {expand : Expansion n} {invariant : Definitions → Prop}
variable (yields : ∀ slot path t, Denotes catalog final (.declared slot) t → t.Everywhere Form.Checked →
  Yields invariant (expand slot path) t)

include yields

theorem yields_walkShape {shape : Shape n} {t : TypeDef} (denotes : Denotes catalog final shape t)
    (checked : t.Everywhere Form.Checked) (path : List String) : Yields invariant (walkShape expand path shape) t := by
  induction denotes with
  | primitive kind =>
      exact .pure _
  | any =>
      exact .pure _
  | array _ inductionHypothesis =>
      exact (inductionHypothesis (checked.elements rfl)).bind (.pure _)
  | map _ inductionHypothesis =>
      exact (inductionHypothesis (checked.values rfl)).bind (.pure _)
  | nullable _ inductionHypothesis =>
      exact (inductionHypothesis (checked.of_form rfl)).bind (.pure _)
  | enumeration members =>
      exact yields _ path _ (.enumeration members) checked
  | named isEntered named =>
      exact yields _ path _ (.named isEntered named) checked

theorem yields_walkFields {fields : List (FieldDecl (Shape n))} {properties : List (Property TypeDef)}
    (denote : List.Forall₂ (DenotesField catalog final) fields properties)
    (checked : ∀ p ∈ properties, p.type.Everywhere Form.Checked) (path : List String) :
    Yields invariant (walkFields expand path fields) properties := by
  induction denote with
  | nil =>
      exact .pure _
  | @cons field p fields properties denotes _ inductionHypothesis =>
      obtain ⟨here, others⟩ := List.forall_mem_cons.1 checked
      obtain ⟨t, denotesType, type⟩ := denotes.type
      have optional : p.optional = (splitOptional field.type).2 := by
        rw [Bool.eq_iff_iff, optional_splitOptional]
        exact denotes.optional
      have property : p = ⟨field.name, document field t, (splitOptional field.type).2⟩ := by
        obtain ⟨name, itsType, isOptional⟩ := p
        cases denotes.name
        cases type
        cases optional
        rfl
      rw [walkFields_cons, property]
      rw [type] at here
      refine (yields_walkShape yields denotesType (here.of_form rfl) _).bind ?_
      exact (inductionHypothesis others).bind (.pure _)

theorem yields_walkObject {fields : List (FieldDecl (Shape n))} {properties : List (Property TypeDef)}
    (denote : List.Forall₂ (DenotesField catalog final) fields properties)
    (names : (properties.map Property.name).Nodup) (checked : ∀ p ∈ properties, p.type.Everywhere Form.Checked)
    (path : List String) : Yields invariant (walkObject expand path fields) properties :=
  (yields_walkFields yields denote checked path).bind (.lift (TypeDef.checkProperties_of_nodup names))

theorem yields_walkVariants {variants : List (VariantDecl (Shape n))}
    {mapping : List (String × List (Property TypeDef))}
    (denote : List.Forall₂ (fun variant entry =>
      entry.1 = variant.tag ∧ List.Forall₂ (DenotesField catalog final) variant.fields entry.2) variants mapping)
    (names : ∀ entry ∈ mapping, (entry.2.map Property.name).Nodup)
    (checked : ∀ entry ∈ mapping, ∀ p ∈ entry.2, p.type.Everywhere Form.Checked) (path : List String) :
    Yields invariant (walkVariants expand path variants) mapping := by
  induction denote with
  | nil =>
      exact .pure _
  | @cons variant entry variants mapping denotes _ inductionHypothesis =>
      obtain ⟨namesHere, namesThere⟩ := List.forall_mem_cons.1 names
      obtain ⟨checkedHere, checkedThere⟩ := List.forall_mem_cons.1 checked
      obtain ⟨tag, properties⟩ := entry
      obtain ⟨rfl, denoteFields⟩ := denotes
      refine (yields_walkObject yields denoteFields namesHere checkedHere _).bind ?_
      exact (inductionHypothesis namesThere checkedThere).bind (.pure _)

/-- The members of a type give its body, but for the metadata. -/
theorem yields_walkMembers {members : Members (Shape n)} {body : TypeDef}
    (denotes : DenotesMembers catalog final members body.form) (checked : body.Everywhere Form.Checked)
    (path : List String) : Yields invariant (walkMembers expand path members) (.ofForm body.form) := by
  have here := checked.here
  cases form : body.form with
  | object properties =>
      rw [form] at denotes here
      cases denotes with
      | record denote =>
          exact (yields_walkObject yields denote here (checked.object form) path).bind (.pure _)
  | union key mapping =>
      rw [form] at denotes here
      cases denotes with
      | union denote =>
          have names : ∀ entry ∈ mapping, (entry.2.map Property.name).Nodup :=
            fun entry listed => (List.nodup_cons.1 (here.2 entry listed)).2
          refine (yields_walkVariants yields denote names (checked.union form) path).bind ?_
          exact .lift (TypeDef.unionOf_of_checked here)
  | any | primitive | enumeration | elements | values | ref =>
      rw [form] at denotes
      nomatch denotes

end Walks

/-! ## Entering a type -/

variable {w : Introspection n} {slot : Fin n} {name : String}

/-- A part of the table with so many types to enter. -/
structure Ready (w : Introspection n) (final : Definitions) (count : Nat) (defs : Definitions) : Prop where
  part : Part final defs
  bounded : w.Bounded count defs

theorem runs_enter_part {expand : Expansion n} {count : Nat} (complete : Complete w.catalog final)
    (yields : ∀ slot path t, Denotes w.catalog final (.declared slot) t → t.Everywhere Form.Checked →
      Yields (w.Ready final count) (expand slot path) t)
    (named : final.nameOf? (w.catalog.id slot) = some name) (path : List String)
    (ready : w.Ready final (count + 1) defs) (fresh : defs.nameOf? (w.catalog.id slot) = none) :
    ∃ defs', Runs (w.enter expand path (w.catalog.get slot).info (w.catalog.get slot).members) defs (.ref name) defs' ∧
      w.Ready final (count + 1) defs' := by
  obtain ⟨body, known, describes, checked⟩ := complete.entry named
  have itsName : w.nameFor (w.catalog.get slot).info path = name := by
    rw [nameFor, complete.declared slot name named]
    rfl
  obtain ⟨opened, reserved, partOpened⟩ := ready.part.reserve known named
  have readyOpened : w.Ready final count opened := ⟨partOpened, bounded_of_reserve ready.bounded fresh reserved⟩
  obtain ⟨walked, ranMembers, readyWalked⟩ :=
    yields_walkMembers yields describes.members checked path opened readyOpened
  have sameBody :
      (TypeDef.ofForm body.form).withMetadata (metadataOf (w.catalog.get slot).info (some name)) = body := by
    obtain ⟨form, nullable, metadata⟩ := body
    cases describes.nullable
    cases describes.metadata
    rfl
  obtain ⟨stored, inserted, partStored⟩ := readyWalked.part.insert known named
  have boundedStored : w.Bounded count stored :=
    (preserved_bounded count).insert _ _ _ _ _ trivial readyWalked.bounded inserted
  refine ⟨stored, ?_, partStored, boundedStored.tracked, Nat.le_succ_of_le boundedStored.pending_le⟩
  unfold enter
  rw [itsName]
  refine runs_bind.2 ⟨(), opened, runs_onTable.2 reserved, runs_bind.2 ⟨_, walked, ranMembers, ?_⟩⟩
  rw [sameBody]
  exact runs_bind.2 ⟨(), stored, runs_onTable.2 inserted, runs_pure.2 ⟨rfl, rfl⟩⟩

theorem yields_visit {count : Nat} {expand : Expansion n} (complete : Complete w.catalog final)
    (below : ∀ fewer, fewer + 1 = count → ∀ slot path t, Denotes w.catalog final (.declared slot) t →
      t.Everywhere Form.Checked → Yields (w.Ready final fewer) (expand slot path) t)
    (slot : Fin n) (path : List String) (t : TypeDef) (denotes : Denotes w.catalog final (.declared slot) t)
    (checked : t.Everywhere Form.Checked) : Yields (w.Ready final count) (w.visit expand slot path) t := by
  cases denotes with
  | enumeration members =>
      rw [visit_enumeration members]
      exact (Yields.lift (TypeDef.enumeration_of_checked checked.here)).bind (.pure _)
  | @named _ name isEntered named =>
      intro defs ready
      unfold Runs
      cases before : defs.nameOf? (w.catalog.get slot).info.id with
      | some name' =>
          have same := ready.part.names _ _ before
          cases named.symm.trans same
          exact ⟨defs, run_visit_named isEntered before, ready⟩
      | none =>
          have unnamed := pending_pos before
          have atMost := ready.bounded.pending_le
          obtain ⟨fewer, rfl⟩ : ∃ fewer, count = fewer + 1 := Nat.exists_eq_add_one.2 (by omega)
          rw [run_visit_fresh isEntered before]
          exact runs_enter_part complete (below fewer rfl) named path ready before

theorem yields_expand (complete : Complete w.catalog final) (count : Nat) :
    ∀ slot path t, Denotes w.catalog final (.declared slot) t → t.Everywhere Form.Checked →
      Yields (w.Ready final count) (w.expand (count + 1) slot path) t := by
  induction count with
  | zero =>
      exact yields_visit complete fun _ impossible => absurd impossible (Nat.succ_ne_zero _)
  | succ count inductionHypothesis =>
      refine yields_visit complete fun fewer same => ?_
      cases same
      exact inductionHypothesis

/-! ## Roots -/

/-- What a root is called in a table that knows it. -/
inductive Rooted (catalog : Catalog n) (defs : Definitions) : Shape n → Option String → Prop
  | unit :
      Rooted catalog defs .unit none
  | entered {slot : Fin n} {name : String} :
      catalog.IsEntered slot →
      defs.nameOf? (catalog.id slot) = some name →
      Rooted catalog defs (.declared slot) (some name)

theorem Rooted.mono {shape : Shape n} {result : Option String} (rooted : Rooted catalog defs shape result)
    (kept : NamesKept defs defs') : Rooted catalog defs' shape result := by
  cases rooted with
  | unit => exact .unit
  | entered isEntered named => exact .entered isEntered (kept _ _ named)

theorem rooted_of_runs (types : w.catalog.OneTypeEach) {shape : Shape n} {result : Option String}
    (coherent : Coherent w.catalog defs) (ran : Runs (w.root shape) defs result defs') :
    Rooted w.catalog defs' shape result := by
  cases shape with
  | unit =>
      obtain ⟨rfl, -⟩ := runs_pure.1 ran
      exact .unit
  | declared slot =>
      obtain ⟨name, rfl⟩ := exists_name_of_root types coherent ran
      obtain ⟨other, same, isEntered, named⟩ := (runs_root types coherent ran).2 name rfl
      cases same
      exact .entered isEntered named
  | primitive | array | map | optional | nullable | any | unsupported =>
      exact absurd ran not_runs_throw

/-- The root of a type with a name of its own is not looked up first. -/
theorem run_rootBy_declared {expand : Expansion n} (isEntered : w.catalog.IsEntered slot)
    (declared : (w.catalog.get slot).info.name = some name) (defs : Definitions) :
    (w.rootBy expand (.declared slot)).run.run defs =
      (expand slot [] >>= fun t => pure t.refName?).run.run defs := by
  have got : (get : Walk Definitions).run.run defs = (.ok defs, defs) := rfl
  unfold IsEntered at isEntered
  unfold rootBy
  dsimp only
  cases members : (w.catalog.get slot).members with
  | enumeration listed =>
      rw [members] at isEntered
      cases isEntered
  | record | union =>
      dsimp only
      rw [run_bind, got, declared]
      rfl

/-- On every part of the table a root succeeds under the name that it has in the table. -/
theorem yields_root (complete : Complete w.catalog final) {shape : Shape n} {result : Option String}
    (rooted : Rooted w.catalog final shape result) (part : Part final defs) (tracked : defs.Tracked) :
    ∃ defs', Runs (w.root shape) defs result defs' ∧ Part final defs' := by
  cases rooted with
  | unit =>
      exact ⟨defs, runs_pure.2 ⟨rfl, rfl⟩, part⟩
  | @entered slot name isEntered named =>
      have checked : (TypeDef.ref name).Everywhere Form.Checked :=
        TypeDef.everywhere_iff.2 ⟨trivial, List.forall_mem_nil _⟩
      have ready : w.Ready final n defs := ⟨part, bounded_of_tracked tracked⟩
      have yields : Yields (w.Ready final n) (w.expand (n + 1) slot [] >>= fun t => pure t.refName?) (some name) :=
        (yields_expand complete n slot [] _ (.named isEntered named) checked).bind (.pure _)
      obtain ⟨defs', ran, readyAfter⟩ := yields defs ready
      refine ⟨defs', ?_, readyAfter.part⟩
      unfold Runs root
      rw [run_rootBy_declared isEntered (complete.declared slot name named)]
      exact ran

/-! ## Names as they are declared -/

/-- A type with a name of its own has this one in the table. -/
def NamedAsDeclared (catalog : Catalog n) (defs : Definitions) : Prop :=
  ∀ slot name given, defs.nameOf? (catalog.id slot) = some name → (catalog.get slot).info.name = some given →
    name = given

theorem NamedAsDeclared.add (asDeclared : NamedAsDeclared w.catalog defs) (types : w.catalog.OneTypeEach)
    (path : List String) (body : Option TypeDef) :
    NamedAsDeclared w.catalog
      (defs.add (w.nameFor (w.catalog.get slot).info path) ⟨body, some (w.catalog.id slot)⟩) := by
  intro other itsName given named declared
  by_cases same : w.catalog.id other = w.catalog.id slot
  · rw [same, Definitions.nameOf?_add_owner] at named
    -- another slot with this identity declares the same type
    rw [types other slot same] at declared
    cases named
    rw [nameFor, declared]
    rfl
  · rw [Definitions.nameOf?_add_of_ne same] at named
    exact asDeclared other itsName given named declared

theorem keeps_asDeclared_enter {expand : Expansion n} (types : w.catalog.OneTypeEach)
    (expanded : ∀ slot path, Keeps (NamedAsDeclared w.catalog) (expand slot path) fun _ => True) (path : List String) :
    Keeps (NamedAsDeclared w.catalog)
      (w.enter expand path (w.catalog.get slot).info (w.catalog.get slot).members) fun _ => True := by
  refine (Keeps.onTable fun defs defs' kept reserved => ?_).bind fun _ _ => ?_
  · rcases Definitions.reserve_eq_ok_iff.1 reserved with ⟨_, _, _, rfl⟩ | ⟨_, rfl⟩
    · exact kept
    · exact kept.add types path none
  refine (keeps_walkMembers TypeDef.closed_true expanded _ path).bind fun body _ => ?_
  refine (Keeps.onTable fun defs defs' kept inserted => ?_).bind fun _ _ => .pure trivial
  rcases Definitions.insert_eq_ok_iff.1 inserted with ⟨_, rfl⟩ | ⟨_, rfl⟩ | ⟨_, _, rfl⟩
  · exact kept.add types path _
  · exact kept
  · exact kept

theorem keeps_asDeclared_expand (types : w.catalog.OneTypeEach) (fuel : Nat) :
    ∀ slot path, Keeps (NamedAsDeclared w.catalog) (w.expand fuel slot path) fun _ => True := by
  induction fuel with
  | zero =>
      exact fun slot path => .throw
  | succ fuel inductionHypothesis =>
      intro slot path
      cases isEnum : (w.catalog.get slot).members.isEnumeration with
      | true =>
          obtain ⟨listed, members⟩ := Members.eq_enumeration isEnum
          rw [expand, visit_enumeration members]
          exact (Keeps.lift fun _ _ => trivial).bind fun _ (_ : True) => .pure trivial
      | false =>
          rw [expand, visit_entered isEnum]
          refine Keeps.get.bind fun defs _ => ?_
          split
          · exact .pure trivial
          · exact keeps_asDeclared_enter types inductionHypothesis path

theorem keeps_asDeclared_root (types : w.catalog.OneTypeEach) (shape : Shape n) :
    Keeps (NamedAsDeclared w.catalog) (w.root shape) fun _ => True :=
  keeps_rootBy (keeps_asDeclared_expand types (n + 1)) shape

theorem complete_empty : Complete catalog .empty where
  coherent := coherent_empty
  finished := nofun
  checked := List.forall_mem_nil _
  declared := nofun

/-- A root that leads to no type without a name leaves a complete table complete. -/
theorem Complete.root (types : w.catalog.OneTypeEach) (complete : Complete w.catalog defs) {shape : Shape n}
    {result : Option String}
    (named : ∀ slot, Reaches w.catalog shape slot → w.catalog.IsEntered slot → (w.catalog.get slot).info.name ≠ none)
    (ran : Runs (w.root shape) defs result defs') : Complete w.catalog defs' := by
  have step := (runs_root types complete.coherent ran).1
  have asDeclared : NamedAsDeclared w.catalog defs' := by
    have kept : NamedAsDeclared w.catalog defs := fun slot name given known declared =>
      Option.some.inj ((complete.declared slot name known).symm.trans declared)
    have keeps := (keeps_asDeclared_root types shape defs kept).1
    rw [ran] at keeps
    exact keeps
  constructor
  case coherent => exact step.coherent
  case finished => exact complete.finished.step step
  case checked =>
    have roots : Keeps (Definitions.Everywhere Form.Checked) (w.root shape) fun _ => True :=
      keeps_root TypeDef.closed_checked (Definitions.preserved_everywhere _) shape
    have keeps := (roots defs complete.checked).1
    rw [ran] at keeps
    exact keeps
  case declared =>
    intro slot name known
    have hasName : (w.catalog.get slot).info.name ≠ none := by
      cases before : defs.nameOf? (w.catalog.id slot) with
      | some other =>
          rw [complete.declared slot other before]
          nofun
      | none =>
          obtain ⟨body, found⟩ := step.coherent.named _ name known
          obtain ⟨owner, isEntered, owned, -⟩ := step.coherent.owned name _ found
          have missing : defs.entry? name = none := by
            cases foundBefore : defs.entry? name with
            | none => rfl
            | some entry =>
                have same := step.grows.entries name entry foundBefore
                rw [found] at same
                cases same
                exact absurd before (complete.coherent.tracked name _ _ foundBefore rfl)
          obtain ⟨other, reaches, ownedByOther, -⟩ := step.grows.added name _ found missing
          rw [types slot other (Option.some.inj ownedByOther)]
          refine named other reaches ?_
          rw [IsEntered, ← types owner other (Option.some.inj (owned.symm.trans ownedByOther))]
          exact isEntered
    obtain ⟨given, declared⟩ := Option.ne_none_iff_exists'.1 hasName
    rw [declared, asDeclared slot name given known declared]

end SchemaRpc.Introspection
