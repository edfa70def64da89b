import SchemaRpc.Proofs.Introspection.Denotes
import SchemaRpc.Proofs.Introspection.Termination

/-!
# Introspection is correct

`Coherent` is the invariant of the table between and during walks: every entry belongs to a record or union that is known
by the name of the entry, and a body that is there describes its type. A name that is reserved and has no body yet is that
of a type whose members are being walked. `Grows` is what one walk does to the table: it leaves the entries that are
there, the unfinished ones among them, and adds finished entries of types that it reaches.
-/

namespace SchemaRpc.Introspection

open Catalog

variable {n : Nat} {catalog : Catalog n} {defs between defs' : Definitions}

/-- The invariant of a table that walks over a catalog make. -/
structure Coherent (catalog : Catalog n) (defs : Definitions) : Prop where
  ascending : Entries.Ascending defs.entries
  owned : ∀ name entry, defs.entry? name = some entry →
    ∃ slot, catalog.IsEntered slot ∧ entry.owner = some (catalog.id slot) ∧ defs.nameOf? (catalog.id slot) = some name
  named : ∀ id name, defs.nameOf? id = some name → ∃ body, defs.entry? name = some ⟨body, some id⟩
  described : ∀ name slot body, defs.entry? name = some ⟨some body, some (catalog.id slot)⟩ →
    DescribesBody catalog defs slot name body

theorem coherent_empty {catalog : Catalog n} : Coherent catalog .empty :=
  ⟨.nil, nofun, nofun, nofun⟩

/-- What a walk does to the table that reaches the given types. -/
structure Grows (catalog : Catalog n) (reached : Fin n → Prop) (defs defs' : Definitions) : Prop where
  entries : ∀ name entry, defs.entry? name = some entry → defs'.entry? name = some entry
  names : NamesKept defs defs'
  added : ∀ name entry, defs'.entry? name = some entry → defs.entry? name = none →
    ∃ slot, reached slot ∧ entry.owner = some (catalog.id slot) ∧ entry.body ≠ none

namespace Grows

variable {reached reached' : Fin n → Prop}

theorem refl : Grows catalog reached defs defs where
  entries _ _ found := found
  names _ _ named := named
  added name entry found missing := by
    rw [missing] at found
    cases found

theorem trans (first : Grows catalog reached defs between) (second : Grows catalog reached between defs') :
    Grows catalog reached defs defs' where
  entries name entry found := second.entries name entry (first.entries name entry found)
  names id name named := second.names id name (first.names id name named)
  added name entry found missing := by
    cases foundBetween : between.entry? name with
    | none =>
        exact second.added name entry found foundBetween
    | some entry' =>
        have same := second.entries name entry' foundBetween
        rw [found] at same
        cases same
        exact first.added name entry foundBetween missing

theorem mono (grows : Grows catalog reached defs defs') (wider : ∀ slot, reached slot → reached' slot) :
    Grows catalog reached' defs defs' where
  entries := grows.entries
  names := grows.names
  added name entry found missing := by
    obtain ⟨slot, reachedSlot, rest⟩ := grows.added name entry found missing
    exact ⟨slot, wider slot reachedSlot, rest⟩

end Grows

theorem Coherent.tracked (coherent : Coherent catalog defs) : defs.Tracked := by
  intro name entry owner found owned
  obtain ⟨slot, _, ownedBy, named⟩ := coherent.owned name entry found
  rw [owned] at ownedBy
  cases ownedBy
  rw [named]
  nofun

/-! ## Walks over shapes and fields -/

/-- A walk from one table to another keeps it coherent and adds only what is reached. -/
structure Step (catalog : Catalog n) (reached : Fin n → Prop) (defs defs' : Definitions) : Prop where
  coherent : Coherent catalog defs'
  grows : Grows catalog reached defs defs'

theorem Step.refl {reached : Fin n → Prop} (coherent : Coherent catalog defs) : Step catalog reached defs defs :=
  ⟨coherent, .refl⟩

theorem Step.mono {reached reached' : Fin n → Prop} (step : Step catalog reached defs defs')
    (wider : ∀ slot, reached slot → reached' slot) : Step catalog reached' defs defs' :=
  ⟨step.coherent, step.grows.mono wider⟩

theorem Step.trans {reached : Fin n → Prop} (first : Step catalog reached defs between)
    (second : Step catalog reached between defs') : Step catalog reached defs defs' :=
  ⟨second.coherent, first.grows.trans second.grows⟩

theorem slots_splitOptional (shape : Shape n) : (splitOptional shape).1.slots = shape.slots := by
  cases shape <;> rfl

theorem optional_splitOptional (shape : Shape n) :
    (splitOptional shape).2 = true ↔ ∃ inner, shape = .optional inner := by
  cases shape <;> simp [splitOptional]

theorem walkFields_cons (expand : Expansion n) (path : List String) (field : FieldDecl (Shape n))
    (rest : List (FieldDecl (Shape n))) :
    walkFields expand path (field :: rest) =
      walkShape expand (path ++ [field.name]) (splitOptional field.type).1 >>= fun t =>
        walkFields expand path rest >>= fun properties =>
          pure (⟨field.name, document field t, (splitOptional field.type).2⟩ :: properties) :=
  rfl

/-- A way of expanding declared types is correct when each use that succeeds is. -/
def Correct (catalog : Catalog n) (expand : Expansion n) : Prop :=
  ∀ slot path defs t defs', Coherent catalog defs → Runs (expand slot path) defs t defs' →
    Step catalog (Reaches catalog (.declared slot)) defs defs' ∧ Denotes catalog defs' (.declared slot) t

section Walks

variable {expand : Expansion n} (correct : Correct catalog expand)

include correct

theorem runs_walkShape {shape : Shape n} {path : List String} {t : TypeDef} (coherent : Coherent catalog defs)
    (ran : Runs (walkShape expand path shape) defs t defs') :
    Step catalog (Reaches catalog shape) defs defs' ∧ Denotes catalog defs' shape t := by
  induction shape generalizing t with
  | primitive kind =>
      obtain ⟨rfl, rfl⟩ := runs_pure.1 ran
      exact ⟨.refl coherent, .primitive kind⟩
  | any =>
      obtain ⟨rfl, rfl⟩ := runs_pure.1 ran
      exact ⟨.refl coherent, .any⟩
  | array item inductionHypothesis =>
      obtain ⟨inner, after, ranInner, rest⟩ := runs_bind.1 ran
      obtain ⟨rfl, rfl⟩ := runs_pure.1 rest
      obtain ⟨step, denotes⟩ := inductionHypothesis ranInner
      exact ⟨step.mono fun _ reaches => reaches.of_slots rfl, .array denotes⟩
  | map item inductionHypothesis =>
      obtain ⟨inner, after, ranInner, rest⟩ := runs_bind.1 ran
      obtain ⟨rfl, rfl⟩ := runs_pure.1 rest
      obtain ⟨step, denotes⟩ := inductionHypothesis ranInner
      exact ⟨step.mono fun _ reaches => reaches.of_slots rfl, .map denotes⟩
  | nullable inner inductionHypothesis =>
      obtain ⟨inside, after, ranInner, rest⟩ := runs_bind.1 ran
      obtain ⟨rfl, rfl⟩ := runs_pure.1 rest
      obtain ⟨step, denotes⟩ := inductionHypothesis ranInner
      exact ⟨step.mono fun _ reaches => reaches.of_slots rfl, .nullable denotes⟩
  | declared slot =>
      exact correct slot path defs t defs' coherent ran
  | optional | unit | unsupported =>
      exact absurd ran not_runs_throw

theorem runs_walkFields {fields : List (FieldDecl (Shape n))} {path : List String}
    {properties : List (Property TypeDef)} (coherent : Coherent catalog defs)
    (ran : Runs (walkFields expand path fields) defs properties defs') :
    Step catalog (fun slot => ∃ type ∈ fields.map FieldDecl.type, Reaches catalog type slot) defs defs' ∧
      List.Forall₂ (DenotesField catalog defs') fields properties := by
  induction fields generalizing defs properties with
  | nil =>
      obtain ⟨rfl, rfl⟩ := runs_pure.1 ran
      exact ⟨.refl coherent, .nil⟩
  | cons field rest inductionHypothesis =>
      rw [walkFields_cons] at ran
      obtain ⟨t, between, ranType, ranRest⟩ := runs_bind.1 ran
      obtain ⟨others, after, ranOthers, done⟩ := runs_bind.1 ranRest
      obtain ⟨rfl, rfl⟩ := runs_pure.1 done
      obtain ⟨stepType, denotes⟩ := runs_walkShape correct coherent ranType
      obtain ⟨stepRest, denoteRest⟩ := inductionHypothesis stepType.coherent ranOthers
      have property : DenotesField catalog after field ⟨field.name, document field t, (splitOptional field.type).2⟩ :=
        ⟨rfl, optional_splitOptional field.type, t, denotes.mono stepRest.grows.names, rfl⟩
      refine ⟨(stepType.mono ?_).trans (stepRest.mono ?_), .cons property denoteRest⟩
      · intro slot reaches
        exact ⟨field.type, List.mem_cons_self, reaches.of_slots (slots_splitOptional field.type)⟩
      · rintro slot ⟨type, member, reaches⟩
        exact ⟨type, List.mem_cons_of_mem _ member, reaches⟩

theorem runs_walkObject {fields : List (FieldDecl (Shape n))} {path : List String}
    {properties : List (Property TypeDef)} (coherent : Coherent catalog defs)
    (ran : Runs (walkObject expand path fields) defs properties defs') :
    Step catalog (fun slot => ∃ type ∈ fields.map FieldDecl.type, Reaches catalog type slot) defs defs' ∧
      List.Forall₂ (DenotesField catalog defs') fields properties := by
  obtain ⟨walked, between, ranFields, rest⟩ := runs_bind.1 ran
  obtain ⟨passed, rfl⟩ := runs_lift.1 rest
  obtain ⟨rfl, _⟩ := TypeDef.checkProperties_eq_ok passed
  exact runs_walkFields correct coherent ranFields

theorem runs_walkVariants {variants : List (VariantDecl (Shape n))} {path : List String}
    {mapping : List (String × List (Property TypeDef))} (coherent : Coherent catalog defs)
    (ran : Runs (walkVariants expand path variants) defs mapping defs') :
    Step catalog (fun slot => ∃ variant ∈ variants, ∃ type ∈ variant.fields.map FieldDecl.type,
        Reaches catalog type slot) defs defs' ∧
      List.Forall₂ (fun variant entry =>
        entry.1 = variant.tag ∧ List.Forall₂ (DenotesField catalog defs') variant.fields entry.2) variants mapping := by
  induction variants generalizing defs mapping with
  | nil =>
      obtain ⟨rfl, rfl⟩ := runs_pure.1 ran
      exact ⟨.refl coherent, .nil⟩
  | cons variant rest inductionHypothesis =>
      obtain ⟨properties, between, ranFields, ranRest⟩ := runs_bind.1 ran
      obtain ⟨others, after, ranOthers, done⟩ := runs_bind.1 ranRest
      obtain ⟨rfl, rfl⟩ := runs_pure.1 done
      obtain ⟨stepFields, denoteFields⟩ := runs_walkObject correct coherent ranFields
      obtain ⟨stepRest, denoteRest⟩ := inductionHypothesis stepFields.coherent ranOthers
      have denoteVariant := denoteFields.imp fun _ _ field => DenotesField.mono stepRest.grows.names field
      refine ⟨(stepFields.mono ?_).trans (stepRest.mono ?_), .cons ⟨rfl, denoteVariant⟩ denoteRest⟩
      · rintro slot ⟨type, member, reaches⟩
        exact ⟨variant, List.mem_cons_self, type, member, reaches⟩
      · rintro slot ⟨other, listed, reaches⟩
        exact ⟨other, List.mem_cons_of_mem _ listed, reaches⟩

theorem runs_walkMembers {members : Members (Shape n)} {path : List String} {t : TypeDef}
    (isEntered : members.isEnumeration = false) (coherent : Coherent catalog defs)
    (ran : Runs (walkMembers expand path members) defs t defs') :
    Step catalog (fun slot => ∃ type ∈ members.types, Reaches catalog type slot) defs defs' ∧
      DenotesMembers catalog defs' members t.form ∧ t.nullable = false := by
  cases members with
  | record fields =>
      obtain ⟨properties, between, ranFields, rest⟩ := runs_bind.1 ran
      obtain ⟨rfl, rfl⟩ := runs_pure.1 rest
      obtain ⟨step, denote⟩ := runs_walkObject correct coherent ranFields
      exact ⟨step, .record denote, rfl⟩
  | union key variants =>
      obtain ⟨mapping, between, ranVariants, rest⟩ := runs_bind.1 ran
      obtain ⟨made, rfl⟩ := runs_lift.1 rest
      obtain ⟨rfl, _⟩ := TypeDef.unionOf_eq_ok made
      obtain ⟨step, denote⟩ := runs_walkVariants correct coherent ranVariants
      refine ⟨step.mono ?_, .union denote, rfl⟩
      rintro slot ⟨variant, listed, type, member, reaches⟩
      exact ⟨type, List.mem_flatMap.2 ⟨variant, listed, member⟩, reaches⟩
  | enumeration listed =>
      cases isEntered

end Walks

/-! ## Entering a type -/

variable {w : Introspection n} {slot : Fin n} {name : String}

/-- A reservation for a type without name opens an unfinished entry. -/
theorem coherent_add (coherent : Coherent catalog defs) (isEntered : catalog.IsEntered slot)
    (fresh : defs.nameOf? (catalog.id slot) = none) (free : defs.entry? name = none) :
    Coherent catalog (defs.add name ⟨none, some (catalog.id slot)⟩) ∧
      NamesKept defs (defs.add name ⟨none, some (catalog.id slot)⟩) := by
  have namesKept : NamesKept defs (defs.add name ⟨none, some (catalog.id slot)⟩) := fun _ _ named =>
    Definitions.nameOf?_add_of_some fresh named none
  refine ⟨⟨Entries.ascending_insert _ _ coherent.ascending, ?_, ?_, ?_⟩, namesKept⟩
  · intro other entry found
    rcases Definitions.entry?_of_add found with ⟨rfl, rfl⟩ | before
    · exact ⟨slot, isEntered, rfl, Definitions.nameOf?_add_owner none⟩
    · obtain ⟨owner, entered, ownedBy, named⟩ := coherent.owned other entry before
      exact ⟨owner, entered, ownedBy, namesKept _ _ named⟩
  · exact Definitions.NamesOwned.add coherent.named free none
  · intro other owner body found
    rcases Definitions.entry?_of_add found with ⟨-, reserved⟩ | before
    · cases reserved
    · exact (coherent.described other owner body before).mono namesKept

/-- Storing the body of a type finishes its entry. -/
theorem coherent_fill (types : catalog.OneTypeEach) (coherent : Coherent catalog defs) {body : TypeDef}
    (reserved : defs.entry? name = some ⟨none, some (catalog.id slot)⟩)
    (describes : DescribesBody catalog defs slot name body) :
    Coherent catalog (defs.fill name ⟨some body, some (catalog.id slot)⟩) := by
  have namesKept : NamesKept defs (defs.fill name ⟨some body, some (catalog.id slot)⟩) := fun _ _ named => named
  refine ⟨Entries.ascending_insert _ _ coherent.ascending, ?_, ?_, ?_⟩
  · intro other entry found
    rcases Definitions.entry?_of_fill found with ⟨rfl, rfl⟩ | before
    · exact coherent.owned other ⟨none, some (catalog.id slot)⟩ reserved
    · exact coherent.owned other entry before
  · exact Definitions.NamesOwned.fill coherent.named reserved (some body)
  · intro other owner body' found
    rcases Definitions.entry?_of_fill found with ⟨rfl, stored⟩ | before
    · rw [Definitions.Entry.mk.injEq, Option.some.injEq, Option.some.injEq] at stored
      obtain ⟨rfl, sameId⟩ := stored
      -- another slot with this identity declares the same type
      have sameType := types owner slot sameId
      refine DescribesBody.mono namesKept ⟨?_, describes.nullable, ?_⟩
      · rw [sameType]
        exact describes.members
      · rw [sameType]
        exact describes.metadata
    · exact (coherent.described other owner body' before).mono namesKept

/-- Entering a type finishes its entry and all that its members lead to. -/
theorem runs_enter {expand : Expansion n} (types : w.catalog.OneTypeEach) (correct : Correct w.catalog expand)
    {path : List String} {t : TypeDef} (isEntered : w.catalog.IsEntered slot)
    (fresh : defs.nameOf? (w.catalog.id slot) = none) (coherent : Coherent w.catalog defs)
    (ran : Runs (w.enter expand path (w.catalog.get slot).info (w.catalog.get slot).members) defs t defs') :
    Step w.catalog (Reaches w.catalog (.declared slot)) defs defs' ∧ Denotes w.catalog defs' (.declared slot) t := by
  obtain ⟨_, opened, ranReserve, ranRest⟩ := runs_bind.1 ran
  obtain ⟨body, walked, ranMembers, ranStore⟩ := runs_bind.1 ranRest
  obtain ⟨_, stored, ranInsert, done⟩ := runs_bind.1 ranStore
  obtain ⟨rfl, rfl⟩ := runs_pure.1 done
  generalize w.nameFor (w.catalog.get slot).info path = name at *
  -- the name is new: an entry of this type would have given it a name before
  rcases Definitions.reserve_eq_ok_iff.1 (runs_onTable.1 ranReserve) with ⟨entry, found, owned, _⟩ | ⟨free, rfl⟩
  · exact absurd fresh (coherent.tracked name entry _ found owned)
  obtain ⟨coherentOpened, namesOpened⟩ := coherent_add coherent isEntered fresh free
  obtain ⟨step, denotesMembers, notNullable⟩ := runs_walkMembers correct isEntered coherentOpened ranMembers
  have reserved : walked.entry? name = some ⟨none, some (w.catalog.id slot)⟩ :=
    step.grows.entries name _ Definitions.entry?_add_self
  rcases Definitions.insert_eq_ok_iff.1 (runs_onTable.1 ranInsert) with ⟨missing, _⟩ | ⟨_, rfl⟩ | ⟨_, filled, _⟩
  · rw [reserved] at missing
    cases missing
  · have described : DescribesBody w.catalog walked slot name
        (body.withMetadata (metadataOf (w.catalog.get slot).info (some name))) :=
      ⟨denotesMembers, notNullable, rfl⟩
    refine ⟨⟨coherent_fill types step.coherent reserved described, ?_, ?_, ?_⟩, .named isEntered ?_⟩
    · intro other entry found
      have different : other ≠ name := by
        rintro rfl
        rw [free] at found
        cases found
      rw [Definitions.entry?_fill_of_ne different]
      exact step.grows.entries other entry ((Definitions.entry?_add_of_ne different).trans found)
    · exact fun id other named => step.grows.names id other (namesOpened id other named)
    · intro other entry found missing
      by_cases same : other = name
      · subst same
        rw [Definitions.entry?_fill_self] at found
        cases found
        exact ⟨slot, .mentioned List.mem_cons_self, rfl, nofun⟩
      · rw [Definitions.entry?_fill_of_ne same] at found
        -- what else is new was added for a type that a member of this one reaches
        have missingOpened :
            Definitions.entry? (defs.add name ⟨none, some (w.catalog.id slot)⟩) other = none :=
          (Definitions.entry?_add_of_ne same).trans missing
        obtain ⟨owner, ⟨type, declared, reaches⟩, rest⟩ := step.grows.added other entry found missingOpened
        exact ⟨owner, reaches.of_type declared, rest⟩
    · exact step.grows.names _ _ (Definitions.nameOf?_add_owner none)
  · rw [reserved] at filled
    cases filled

theorem correct_visit {expand : Expansion n} (types : w.catalog.OneTypeEach) (correct : Correct w.catalog expand) :
    Correct w.catalog (w.visit expand) := by
  intro slot path defs t defs' coherent ran
  cases isEnum : (w.catalog.get slot).members.isEnumeration with
  | true =>
      obtain ⟨listed, members⟩ := Members.eq_enumeration isEnum
      rw [visit_enumeration members] at ran
      obtain ⟨made, between, ranLift, done⟩ := runs_bind.1 ran
      obtain ⟨passed, rfl⟩ := runs_lift.1 ranLift
      obtain ⟨rfl, rfl⟩ := runs_pure.1 done
      obtain ⟨rfl, _⟩ := TypeDef.enumeration_eq_ok passed
      exact ⟨.refl coherent, .enumeration members⟩
  | false =>
      unfold Runs at ran
      cases named : defs.nameOf? (w.catalog.get slot).info.id with
      | some name =>
          rw [run_visit_named isEnum named] at ran
          cases ran
          exact ⟨.refl coherent, .named isEnum named⟩
      | none =>
          rw [run_visit_fresh isEnum named] at ran
          exact runs_enter types correct isEnum named coherent ran

theorem correct_expand (types : w.catalog.OneTypeEach) (fuel : Nat) : Correct w.catalog (w.expand fuel) := by
  induction fuel with
  | zero =>
      intro slot path defs t defs' _ ran
      exact absurd ran not_runs_throw
  | succ fuel inductionHypothesis =>
      exact correct_visit types inductionHypothesis

/-- The root of a successful walk with a name is a record or union, entered under that name. -/
theorem runs_root (types : w.catalog.OneTypeEach) {shape : Shape n} {result : Option String}
    (coherent : Coherent w.catalog defs) (ran : Runs (w.root shape) defs result defs') :
    Step w.catalog (Reaches w.catalog shape) defs defs' ∧
      ∀ name, result = some name →
        ∃ slot, shape = .declared slot ∧ w.catalog.IsEntered slot ∧
          defs'.nameOf? (w.catalog.id slot) = some name := by
  unfold root rootBy at ran
  split at ran
  · obtain ⟨rfl, rfl⟩ := runs_pure.1 ran
    exact ⟨.refl coherent, nofun⟩
  · next slot =>
    split at ran
    next info members declared =>
    split at ran
    · exact absurd ran not_runs_throw
    · next notEnum =>
      obtain ⟨held, between, ranGet, rest⟩ := runs_bind.1 ran
      obtain ⟨rfl, rfl⟩ := runs_get.1 ranGet
      split at rest
      · obtain ⟨_, _, thrown, _⟩ := runs_bind.1 rest
        exact absurd thrown not_runs_throw
      · obtain ⟨t, after, ranExpand, done⟩ := runs_bind.1 rest
        obtain ⟨rfl, rfl⟩ := runs_pure.1 done
        obtain ⟨step, denotes⟩ := correct_expand types _ slot [] _ t _ coherent ranExpand
        refine ⟨step, fun name given => ⟨slot, rfl, ?_⟩⟩
        cases denotes with
        | enumeration isEnum =>
            rw [declared] at isEnum
            exact absurd isEnum (notEnum _)
        | named isEntered named =>
            cases given
            exact ⟨isEntered, named⟩
  · exact absurd ran not_runs_throw

end SchemaRpc.Introspection
