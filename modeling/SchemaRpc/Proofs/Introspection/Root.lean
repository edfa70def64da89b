import SchemaRpc.Proofs.Introspection.Checked
import SchemaRpc.Proofs.Introspection.Correct
import SchemaRpc.Proofs.TypeDef.Refs

/-!
# The table that root calls make

Between calls every entry is finished. Whatever is reached from a root then has exactly one entry, and no reference is
left open.
-/

namespace SchemaRpc

namespace Introspection

open Catalog

variable {n : Nat} {catalog : Catalog n} {defs defs' : Definitions}

/-- A definition that says what a shape says refers only to names of types. -/
theorem Denotes.refs {shape : Shape n} {t : TypeDef} (denotes : Denotes catalog defs shape t) :
    ∀ name ∈ t.refs, ∃ id, defs.nameOf? id = some name := by
  induction denotes with
  | primitive | any | enumeration _ =>
      exact fun name member => absurd member List.not_mem_nil
  | array _ inductionHypothesis =>
      exact inductionHypothesis
  | map _ inductionHypothesis =>
      exact inductionHypothesis
  | @nullable inner t _ inductionHypothesis =>
      have same : (t.withNullable true).refs = t.refs := TypeDef.refs_eq_of_form rfl
      rw [same]
      exact inductionHypothesis
  | named _ named =>
      intro name member
      cases List.mem_singleton.1 member
      exact ⟨_, named⟩

theorem refs_of_denoteFields {fields : List (FieldDecl (Shape n))} {properties : List (Property TypeDef)}
    (denote : List.Forall₂ (DenotesField catalog defs) fields properties) :
    ∀ name ∈ TypeDef.refsOfProperties properties, ∃ id, defs.nameOf? id = some name := by
  intro name member
  obtain ⟨p, declared, inside⟩ := TypeDef.mem_refsOfProperties.1 member
  clear member
  induction denote with
  | nil =>
      cases declared
  | @cons field q fields properties denotes _ inductionHypothesis =>
      rcases List.mem_cons.1 declared with rfl | declared
      · obtain ⟨t, denotesType, same⟩ := denotes.type
        have sameRefs : p.type.refs = t.refs := by
          rw [same]
          exact TypeDef.refs_eq_of_form rfl
        rw [sameRefs] at inside
        exact denotesType.refs name inside
      · exact inductionHypothesis declared

theorem DenotesMembers.refs {members : Members (Shape n)} {form : Form TypeDef}
    (denotes : DenotesMembers catalog defs members form) :
    ∀ name ∈ TypeDef.refsOfForm form, ∃ id, defs.nameOf? id = some name := by
  cases denotes with
  | record denote =>
      exact refs_of_denoteFields denote
  | @union key variants mapping denote =>
      intro name member
      obtain ⟨variant, listed, inside⟩ := TypeDef.mem_refsOfMapping.1 member
      clear member
      induction denote with
      | nil =>
          cases listed
      | cons denotes _ inductionHypothesis =>
          rcases List.mem_cons.1 listed with rfl | listed
          · exact refs_of_denoteFields denotes.2 name inside
          · exact inductionHypothesis listed

/-- Every entry has its body. -/
def Finished (defs : Definitions) : Prop :=
  ∀ name entry, defs.entry? name = some entry → entry.body ≠ none

theorem Finished.step {reached : Fin n → Prop} (finished : Finished defs) (step : Step catalog reached defs defs') :
    Finished defs' := by
  intro name entry found
  cases before : defs.entry? name with
  | none =>
      obtain ⟨_, _, _, body⟩ := step.grows.added name entry found before
      exact body
  | some entry' =>
      have kept := step.grows.entries name entry' before
      rw [found] at kept
      cases kept
      exact finished name entry before

theorem Coherent.entry?_of_mem (coherent : Coherent catalog defs) {name : String} {entry : Definitions.Entry}
    (member : (name, entry) ∈ defs.entries) : defs.entry? name = some entry :=
  Entries.find?_of_mem coherent.ascending member

theorem unresolvedRefs_eq_nil (coherent : Coherent catalog defs) (finished : Finished defs) :
    defs.unresolvedRefs = [] := by
  have noneReserved : defs.entries.filter (fun entry => entry.2.body.isNone) = [] := by
    refine List.filter_eq_nil_iff.2 ?_
    rintro ⟨name, entry⟩ member
    have body := finished name entry (coherent.entry?_of_mem member)
    simpa [Option.isNone_iff_eq_none] using body
  have noneOpen : ((defs.completed.flatMap fun entry => entry.2.refs).filter fun name => !defs.contains name) = [] := by
    refine List.filter_eq_nil_iff.2 fun name member => ?_
    obtain ⟨⟨other, body⟩, listed, inside⟩ := List.mem_flatMap.1 member
    obtain ⟨entry, stored, ofBody⟩ := Definitions.mem_completed.1 listed
    have found := coherent.entry?_of_mem stored
    obtain ⟨slot, _, owned, _⟩ := coherent.owned other entry found
    obtain ⟨body', owner⟩ := entry
    cases ofBody
    cases owned
    have described := coherent.described other slot body found
    obtain ⟨form, nullable, metadata⟩ := body
    obtain ⟨id, named⟩ := described.members.refs name inside
    -- a body refers only to names of entered types, and each of these has an entry
    obtain ⟨_, target⟩ := coherent.named id name named
    simp [Definitions.contains, target]
  show List.foldl _ [] ((defs.entries.filter fun entry => entry.2.body.isNone).map Prod.fst ++
    (defs.completed.flatMap fun entry => entry.2.refs).filter fun name => !defs.contains name) = []
  rw [noneReserved, noneOpen]
  rfl

/-! ## Root calls one after the other -/

/-- The tables that any successful root calls over a catalog make of the empty one. -/
inductive Introspected (catalog : Catalog n) : Definitions → Prop
  | empty :
      Introspected catalog .empty
  | root {defs defs' : Definitions} (procedure : String) (role : Role) (shape : Shape n) {result : Option String} :
      Introspected catalog defs →
      Runs (root ⟨catalog, procedure, role⟩ shape) defs result defs' →
      Introspected catalog defs'

theorem Introspected.coherent (types : catalog.OneTypeEach) (introspected : Introspected catalog defs) :
    Coherent catalog defs ∧ Finished defs := by
  induction introspected with
  | empty =>
      exact ⟨⟨.nil, nofun, nofun, nofun⟩, nofun⟩
  | root procedure role shape _ ran inductionHypothesis =>
      obtain ⟨coherent, finished⟩ := inductionHypothesis
      have step := (runs_root (w := ⟨catalog, procedure, role⟩) types coherent ran).1
      exact ⟨step.coherent, finished.step step⟩

/-- What a root call that gives a name has done to the table. -/
structure Entered (catalog : Catalog n) (slot : Fin n) (name : String) (defs defs' : Definitions) : Prop where
  /-- The name is that of the root. -/
  root : catalog.IsEntered slot ∧ defs'.nameOf? (catalog.id slot) = some name
  /-- Each record or union that is reached owns one finished entry, which describes it. -/
  reached : ∀ other, catalog.Reaches (.declared slot) other → catalog.IsEntered other →
    ∃ itsName body, defs'.nameOf? (catalog.id other) = some itsName ∧
      defs'.entry? itsName = some ⟨some body, some (catalog.id other)⟩ ∧
      DescribesBody catalog defs' other itsName body ∧
      ∀ another entry, defs'.entry? another = some entry → entry.owner = some (catalog.id other) → another = itsName
  /-- Two types never share an entry. -/
  apart : ∀ id other itsName, defs'.nameOf? id = some itsName → defs'.nameOf? other = some itsName → id = other
  /-- What was there is still there. -/
  kept : ∀ itsName entry, defs.entry? itsName = some entry → defs'.entry? itsName = some entry
  /-- Nothing is added that is not reached. -/
  added : ∀ itsName entry, defs'.entry? itsName = some entry → defs.entry? itsName = none →
    ∃ other, catalog.Reaches (.declared slot) other ∧ entry.owner = some (catalog.id other)
  resolved : defs'.unresolvedRefs = []

/-- The types of the fields of an entered type that are records or unions are entered too. -/
theorem named_of_denotes {shape : Shape n} {t : TypeDef} (denotes : Denotes catalog defs shape t) {other : Fin n}
    (mentioned : other ∈ shape.slots) (isEntered : catalog.IsEntered other) :
    ∃ name, defs.nameOf? (catalog.id other) = some name := by
  induction denotes with
  | primitive | any =>
      cases mentioned
  | array _ inductionHypothesis =>
      exact inductionHypothesis mentioned
  | map _ inductionHypothesis =>
      exact inductionHypothesis mentioned
  | nullable _ inductionHypothesis =>
      exact inductionHypothesis mentioned
  | enumeration isEnum =>
      cases List.mem_singleton.1 mentioned
      rw [IsEntered, isEnum] at isEntered
      cases isEntered
  | named _ named =>
      cases List.mem_singleton.1 mentioned
      exact ⟨_, named⟩

theorem named_of_denoteFields {fields : List (FieldDecl (Shape n))} {properties : List (Property TypeDef)}
    (denote : List.Forall₂ (DenotesField catalog defs) fields properties) {type : Shape n}
    (declared : type ∈ fields.map FieldDecl.type) {other : Fin n} (mentioned : other ∈ type.slots)
    (isEntered : catalog.IsEntered other) : ∃ name, defs.nameOf? (catalog.id other) = some name := by
  induction denote with
  | nil =>
      cases declared
  | @cons field p fields properties denotes _ inductionHypothesis =>
      rcases List.mem_cons.1 declared with rfl | declared
      · obtain ⟨t, denotesType, _⟩ := denotes.type
        rw [← slots_splitOptional] at mentioned
        exact named_of_denotes denotesType mentioned isEntered
      · exact inductionHypothesis declared

theorem named_of_denotesMembers {members : Members (Shape n)} {form : Form TypeDef}
    (denotes : DenotesMembers catalog defs members form) {type : Shape n} (declared : type ∈ members.types)
    {other : Fin n} (mentioned : other ∈ type.slots) (isEntered : catalog.IsEntered other) :
    ∃ name, defs.nameOf? (catalog.id other) = some name := by
  cases denotes with
  | record denote =>
      exact named_of_denoteFields denote declared mentioned isEntered
  | @union key variants mapping denote =>
      obtain ⟨variant, listed, inside⟩ := List.mem_flatMap.1 declared
      clear declared
      induction denote with
      | nil =>
          cases listed
      | cons denotes _ inductionHypothesis =>
          rcases List.mem_cons.1 listed with rfl | listed
          · exact named_of_denoteFields denotes.2 inside mentioned isEntered
          · exact inductionHypothesis listed

theorem isEntered_of_type {slot : Fin n} {type : Shape n} (declared : type ∈ (catalog.get slot).members.types) :
    catalog.IsEntered slot := by
  unfold IsEntered
  cases isEnum : (catalog.get slot).members.isEnumeration with
  | false =>
      rfl
  | true =>
      obtain ⟨listed, members⟩ := Members.eq_enumeration isEnum
      rw [members] at declared
      cases declared

/-- The entry of a named type in a finished table. -/
theorem entry_of_named (coherent : Coherent catalog defs) (finished : Finished defs) {slot : Fin n} {name : String}
    (named : defs.nameOf? (catalog.id slot) = some name) :
    ∃ body, defs.entry? name = some ⟨some body, some (catalog.id slot)⟩ ∧ DescribesBody catalog defs slot name body := by
  obtain ⟨body?, found⟩ := coherent.named _ name named
  cases body? with
  | none =>
      exact absurd rfl (finished name _ found)
  | some body =>
      exact ⟨body, found, coherent.described name slot body found⟩

theorem named_of_reaches (coherent : Coherent catalog defs) (finished : Finished defs) {slot : Fin n} {name : String}
    (named : defs.nameOf? (catalog.id slot) = some name) {other : Fin n}
    (reaches : catalog.Reaches (.declared slot) other) (isEntered : catalog.IsEntered other) :
    ∃ itsName, defs.nameOf? (catalog.id other) = some itsName := by
  induction reaches with
  | mentioned member =>
      cases List.mem_singleton.1 member
      exact ⟨name, named⟩
  | field _ declared mentioned inductionHypothesis =>
      obtain ⟨between, namedBetween⟩ := inductionHypothesis (isEntered_of_type declared)
      obtain ⟨body, _, described⟩ := entry_of_named coherent finished namedBetween
      exact named_of_denotesMembers described.members declared mentioned isEntered

/-- The walk of a root ends, on every table that root calls make, and when it gives a name it has entered all that the
root leads to and nothing else. -/
theorem root_entered {catalog : Catalog n} (types : catalog.OneTypeEach) (introspected : Introspected catalog defs)
    (procedure : String) (role : Role) (shape : Shape n) :
    (∀ last : Expansion n,
        (rootBy ⟨catalog, procedure, role⟩ (unroll ⟨catalog, procedure, role⟩ last (n + 1)) shape).run.run defs =
          (root ⟨catalog, procedure, role⟩ shape).run.run defs) ∧
      ∀ name defs', Runs (root ⟨catalog, procedure, role⟩ shape) defs (some name) defs' →
        ∃ slot, shape = .declared slot ∧ Entered catalog slot name defs defs' := by
  obtain ⟨coherent, finished⟩ := introspected.coherent types
  refine ⟨fun last => rootBy_unroll coherent.tracked last shape, fun name defs' ran => ?_⟩
  obtain ⟨step, given⟩ := runs_root (w := ⟨catalog, procedure, role⟩) types coherent ran
  obtain ⟨slot, rfl, isEntered, named⟩ := given name rfl
  have coherentAfter : Coherent catalog defs' := step.coherent
  have finishedAfter : Finished defs' := finished.step step
  refine ⟨slot, rfl, ⟨isEntered, named⟩, ?_, ?_, step.grows.entries, ?_, ?_⟩
  · intro other reaches enteredOther
    obtain ⟨itsName, itsNamed⟩ := named_of_reaches coherentAfter finishedAfter named reaches enteredOther
    obtain ⟨body, found, described⟩ := entry_of_named coherentAfter finishedAfter itsNamed
    refine ⟨itsName, body, itsNamed, found, described, fun another entry foundAnother owned => ?_⟩
    obtain ⟨owner, _, ownedBy, namedAnother⟩ := coherentAfter.owned another entry foundAnother
    rw [owned, Option.some.injEq] at ownedBy
    rw [← ownedBy, itsNamed] at namedAnother
    cases namedAnother
    rfl
  · intro id other itsName namedId namedOther
    obtain ⟨_, found⟩ := coherentAfter.named id itsName namedId
    obtain ⟨_, found'⟩ := coherentAfter.named other itsName namedOther
    rw [found] at found'
    cases found'
    rfl
  · intro itsName entry found missing
    obtain ⟨other, reaches, owned, _⟩ := step.grows.added itsName entry found missing
    exact ⟨other, reaches, owned⟩
  · exact unresolvedRefs_eq_nil coherentAfter finishedAfter

/-- A record, a union without name and an enumeration that lead to one another. -/
def treeCatalog : Catalog 3 :=
  #v[⟨{ id := 7, name := some "Tree" },
      .record
        [{ name := "left", type := .optional (.nullable (.declared 0)) }, { name := "leaf", type := .declared 1 }]⟩,
    ⟨{ id := 8 },
      .union "kind"
        [⟨"empty", none, []⟩,
          ⟨"full", none, [{ name := "trees", type := .array (.declared 0) }, { name := "color", type := .declared 2 }]⟩]⟩,
    ⟨{ id := 9 }, .enumeration ["red", "green"]⟩]

theorem root_entered_tree :
    ∃ name defs', Runs (root ⟨treeCatalog, "trees.grow", .params⟩ (.declared 0)) .empty (some name) defs' ∧
      ∃ slot, (Shape.declared 0 : Shape 3) = .declared slot ∧ Entered treeCatalog slot name .empty defs' :=
  ⟨_, _, rfl, (root_entered (by decide) .empty "trees.grow" .params (.declared 0)).2 _ _ rfl⟩

end Introspection

end SchemaRpc
