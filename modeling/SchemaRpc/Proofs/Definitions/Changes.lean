import SchemaRpc.Proofs.Definitions.Unresolved
import SchemaRpc.Proofs.TypeDef.Refs

/-!
# The table over time

A table is changed by reservations and by bodies that are stored, with whatever names, bodies and owners. `Change.does` is
all that one change can do; from it follows what every change keeps (`WriteOnce`), and which reservations can be filled
(`insert_reserved_iff`): those that were made for an owner, and no others.
-/

namespace SchemaRpc.Definitions

/-- What a table is asked for. -/
inductive Change where
  | reserve (name : String) (owner : Option TypeId)
  | insert (name : String) (body : TypeDef) (owner : Option TypeId)

namespace Change

def name : Change → String
  | reserve name _ => name
  | insert name _ _ => name

def owner : Change → Option TypeId
  | reserve _ owner => owner
  | insert _ _ owner => owner

/-- The body that is to be stored; a reservation comes without. -/
def body? : Change → Option TypeDef
  | reserve _ _ => none
  | insert _ body _ => some body

/-- The table that a change makes of another, unless it is refused. -/
def outcome (defs : Definitions) : Change → Except ModelError Definitions
  | reserve name owner => defs.reserve name owner
  | insert name body owner => defs.insert name body owner

/-- The table after a change, which is the one before if the change is refused. -/
def after (defs : Definitions) (change : Change) : Definitions :=
  match change.outcome defs with
  | .ok defs' => defs'
  | .error _ => defs

end Change

/-- The table after changes, one after the other. -/
def changed (defs : Definitions) (changes : List Change) : Definitions :=
  changes.foldl Change.after defs

/-- An entry takes whatever its owner asks for, and without owner no more than the body that it has. -/
def Entry.Takes (entry : Entry) (change : Change) : Prop :=
  entry.owner = change.owner ∧ (change.owner ≠ none ∨ change.body? ≠ none ∧ change.body? = entry.body)

variable {defs between defs' : Definitions} {change : Change} {entry : Entry} {name other : String} {body : TypeDef}
  {owner : Option TypeId}

/-! ## One change -/

/-- All that a change can do: it adds an entry, fills one of its owner, leaves the table as it is, or is refused. -/
inductive Change.Does (defs : Definitions) (change : Change) : Except ModelError Definitions → Prop
  | adds :
      defs.entry? change.name = none →
      Does defs change (.ok (defs.add change.name ⟨change.body?, change.owner⟩))
  | fills {body : TypeDef} {owner : TypeId} :
      defs.entry? change.name = some ⟨none, some owner⟩ → change.owner = some owner → change.body? = some body →
      Does defs change (.ok (defs.fill change.name ⟨some body, some owner⟩))
  | repeats {entry : Entry} :
      defs.entry? change.name = some entry → entry.Takes change → (change.body? ≠ none → entry.body ≠ none) →
      Does defs change (.ok defs)
  | collides {entry : Entry} :
      defs.entry? change.name = some entry → ¬entry.Takes change →
      Does defs change (.error (.nameCollision change.name))

theorem takes_reserve_iff : entry.Takes (.reserve name owner) ↔ entry.belongsTo owner = true := by
  rw [belongsTo_eq_true_iff]
  simp [Entry.Takes, Change.owner, Change.body?]

theorem takes_insert_iff :
    entry.Takes (.insert name body owner) ↔
      entry.belongsTo owner = true ∨ (owner = none ∧ entry.owner = none) ∧ entry.body = some body := by
  rw [belongsTo_eq_true_iff]
  cases owner with
  | none =>
      simp [Entry.Takes, Change.owner, Change.body?, eq_comm]
  | some id =>
      simp [Entry.Takes, Change.owner]

theorem does_reserve (defs : Definitions) (name : String) (owner : Option TypeId) :
    Change.Does defs (.reserve name owner) (defs.reserve name owner) := by
  unfold reserve
  cases found : defs.entry? name with
  | none =>
      exact .adds found
  | some entry =>
      by_cases belongs : entry.belongsTo owner = true
      · simp only [belongs, if_true]
        exact .repeats found (takes_reserve_iff.2 belongs) fun stored => absurd rfl stored
      · simp only [belongs]
        exact .collides found (mt takes_reserve_iff.1 belongs)

theorem does_insert (defs : Definitions) (name : String) (body : TypeDef) (owner : Option TypeId) :
    Change.Does defs (.insert name body owner) (defs.insert name body owner) := by
  unfold insert
  cases found : defs.entry? name with
  | none =>
      exact .adds found
  | some entry =>
      obtain ⟨stored, owner'⟩ := entry
      have takes : Entry.Takes ⟨stored, owner'⟩ (.insert name body owner) ↔ _ := takes_insert_iff
      by_cases belongs : Entry.belongsTo ⟨stored, owner'⟩ owner = true
      · obtain ⟨rfl, known⟩ := belongsTo_eq_true_iff.1 belongs
        obtain ⟨id, rfl⟩ := Option.ne_none_iff_exists'.1 known
        cases stored with
        | none =>
            simp only [belongs, if_true]
            exact .fills found rfl rfl
        | some stored =>
            simp only [belongs, if_true]
            exact .repeats found (takes.2 (.inl belongs)) fun _ => Option.some_ne_none stored
      · rw [or_iff_right belongs] at takes
        cases stored with
        | none =>
            simp only [belongs]
            exact .collides found fun taken => absurd (takes.1 taken).2 (Option.some_ne_none body).symm
        | some stored =>
            by_cases equal : (owner.isNone && owner'.isNone && decide (stored = body)) = true
            · simp only [belongs, equal, if_true]
              simp only [Bool.and_eq_true, Option.isNone_iff_eq_none, decide_eq_true_eq] at equal
              exact .repeats found (takes.2 ⟨equal.1, congrArg some equal.2⟩) fun _ => Option.some_ne_none stored
            · simp only [belongs, equal]
              simp only [Bool.and_eq_true, Option.isNone_iff_eq_none, decide_eq_true_eq] at equal
              exact .collides found fun taken => equal ⟨(takes.1 taken).1, Option.some.inj (takes.1 taken).2⟩

theorem Change.does (defs : Definitions) (change : Change) : change.Does defs (change.outcome defs) := by
  cases change with
  | reserve name owner =>
      exact does_reserve defs name owner
  | insert name body owner =>
      exact does_insert defs name body owner

/-- What a type asks for is refused where the name stands for another type, or for nobody. -/
theorem Change.foreign_of_refused (change : Change) {id : TypeId} {refusedName : String}
    (owned : change.owner = some id) (refused : change.outcome defs = .error (.nameCollision refusedName)) :
    refusedName = change.name ∧ ∃ entry, defs.entry? change.name = some entry ∧ entry.owner ≠ some id := by
  have does := change.does defs
  rw [refused] at does
  cases does with
  | collides found untaken =>
      refine ⟨rfl, _, found, fun same => untaken ⟨same.trans owned.symm, .inl ?_⟩⟩
      exact owned ▸ Option.some_ne_none id

/-! ## What every change keeps -/

theorem get?_add_of_ne (different : other ≠ name) : get? (defs.add name entry) other = defs.get? other :=
  congrArg (·.bind Entry.body) (entry?_add_of_ne different)

theorem get?_fill_of_ne (different : other ≠ name) : get? (defs.fill name entry) other = defs.get? other :=
  congrArg (·.bind Entry.body) (entry?_fill_of_ne different)

theorem get?_fill_self : get? (defs.fill name entry) name = entry.body :=
  congrArg (·.bind Entry.body) entry?_fill_self

/-- What stands in one table stands in another. -/
structure Preserves (defs defs' : Definitions) : Prop where
  /-- A name stays in the table, with its owner or without one. -/
  owners : ∀ name entry, defs.entry? name = some entry → ∃ body, defs'.entry? name = some ⟨body, entry.owner⟩
  /-- A body stays under its name. -/
  bodies : ∀ name body, defs.get? name = some body → defs'.get? name = some body

namespace Preserves

theorem refl (defs : Definitions) : Preserves defs defs where
  owners _ entry found := ⟨entry.body, found⟩
  bodies _ _ found := found

theorem trans (first : Preserves defs between) (second : Preserves between defs') : Preserves defs defs' where
  owners name entry found := by
    obtain ⟨body, foundBetween⟩ := first.owners name entry found
    exact second.owners name ⟨body, entry.owner⟩ foundBetween
  bodies name body found := second.bodies name body (first.bodies name body found)

/-- A new name leaves the others as they are. -/
theorem add (free : defs.entry? name = none) (entry : Entry) : Preserves defs (defs.add name entry) where
  owners other found present := by
    have different : other ≠ name := by
      rintro rfl
      rw [free] at present
      cases present
    exact ⟨found.body, (entry?_add_of_ne different).trans present⟩
  bodies other body present := by
    have different : other ≠ name := by
      rintro rfl
      rw [get?, free] at present
      cases present
    exact (get?_add_of_ne different).trans present

/-- A reservation that is filled had no body before, and keeps its owner. -/
theorem fill (reserved : defs.entry? name = some ⟨none, owner⟩) (body : Option TypeDef) :
    Preserves defs (defs.fill name ⟨body, owner⟩) where
  owners other found present := by
    by_cases same : other = name
    · subst same
      rw [reserved] at present
      cases present
      exact ⟨body, entry?_fill_self⟩
    · exact ⟨found.body, (entry?_fill_of_ne same).trans present⟩
  bodies other stored present := by
    have different : other ≠ name := by
      rintro rfl
      rw [get?, reserved] at present
      cases present
    exact (get?_fill_of_ne different).trans present

theorem after (defs : Definitions) (change : Change) : Preserves defs (change.after defs) := by
  have does := change.does defs
  unfold Change.after
  generalize change.outcome defs = outcome at does ⊢
  cases does with
  | adds free =>
      exact .add free _
  | fills reserved _ _ =>
      exact .fill reserved _
  | repeats | collides =>
      exact .refl defs

theorem changed (defs : Definitions) (changes : List Change) : Preserves defs (defs.changed changes) := by
  induction changes generalizing defs with
  | nil =>
      exact .refl defs
  | cons change rest inductionHypothesis =>
      exact (after defs change).trans (inductionHypothesis (change.after defs))

end Preserves

/-- Entries are in order, and a type with a name owns the entry there. -/
structure Tidy (defs : Definitions) : Prop where
  ascending : Entries.Ascending defs.entries
  named : defs.NamesOwned

namespace Tidy

theorem empty : Tidy empty where
  ascending := .nil
  named _ _ named := nomatch named

theorem add (tidy : defs.Tidy) (free : defs.entry? name = none) (body : Option TypeDef) (owner : Option TypeId) :
    (defs.add name ⟨body, owner⟩).Tidy where
  ascending := Entries.ascending_insert name _ tidy.ascending
  named := by
    cases owner with
    | some owner =>
        exact tidy.named.add free body
    | none =>
        intro id other named
        obtain ⟨body, found⟩ := tidy.named id other named
        obtain ⟨body, kept⟩ := (Preserves.add free _).owners other _ found
        exact ⟨body, kept⟩

theorem fill {owner : TypeId} (tidy : defs.Tidy) (reserved : defs.entry? name = some ⟨none, some owner⟩)
    (body : Option TypeDef) : (defs.fill name ⟨body, some owner⟩).Tidy where
  ascending := Entries.ascending_insert name _ tidy.ascending
  named := tidy.named.fill reserved body

theorem after (tidy : defs.Tidy) (change : Change) : (change.after defs).Tidy := by
  have does := change.does defs
  unfold Change.after
  generalize change.outcome defs = outcome at does ⊢
  cases does with
  | adds free =>
      exact tidy.add free _ _
  | fills reserved _ _ =>
      exact tidy.fill reserved _
  | repeats | collides =>
      exact tidy

theorem changed (tidy : defs.Tidy) (changes : List Change) : (defs.changed changes).Tidy := by
  induction changes generalizing defs with
  | nil =>
      exact tidy
  | cons change rest inductionHypothesis =>
      exact inductionHypothesis (tidy.after change)

end Tidy

theorem contains_eq_false_iff : defs.contains name = false ↔ defs.entry? name = none :=
  Option.isSome_eq_false_iff.trans Option.isNone_iff_eq_none

/-- In a tidy table the unresolved names are those of entries without a body, and the targets of references without an
entry. -/
theorem Tidy.mem_unresolvedRefs_iff (tidy : defs.Tidy) :
    name ∈ defs.unresolvedRefs ↔
      (∃ owner, defs.entry? name = some ⟨none, owner⟩) ∨
        defs.entry? name = none ∧
          ∃ other body, defs.get? other = some body ∧ ∃ node ∈ body.nodes, node.form = .ref name := by
  rw [mem_unresolvedRefs]
  refine or_congr ⟨?_, ?_⟩ (and_comm.trans (and_congr contains_eq_false_iff ⟨?_, ?_⟩))
  · rintro ⟨⟨body, owner⟩, listed, rfl⟩
    exact ⟨owner, Entries.find?_of_mem tidy.ascending listed⟩
  · rintro ⟨owner, found⟩
    exact ⟨⟨none, owner⟩, Entries.mem_of_find? found, rfl⟩
  · rintro ⟨⟨other, body⟩, listed, referred⟩
    exact ⟨other, body, get?_of_mem_completed tidy.ascending listed, TypeDef.mem_refs_iff.1 referred⟩
  · rintro ⟨other, body, found, referred⟩
    exact ⟨(other, body), mem_completed_of_get? found, TypeDef.mem_refs_iff.2 referred⟩

/-- What is promised of a table that changes have made, and of every later one. -/
structure WriteOnce (defs later : Definitions) : Prop extends Preserves defs later where
  /-- Only a name that is in the table can be refused, and nothing comes of it. -/
  refused : ∀ (change : Change) error, change.outcome defs = .error error →
    error = .nameCollision change.name ∧ defs.contains change.name = true ∧ change.after defs = defs
  /-- An entry is not taken over, neither by a type from another or from nobody, nor by nobody from a type. -/
  foreign : ∀ (change : Change) entry, defs.entry? change.name = some entry → entry.owner ≠ change.owner →
    change.outcome defs = .error (.nameCollision change.name)
  /-- The name of a type is that of an entry that it owns. -/
  named : ∀ id name, defs.nameOf? id = some name → ∃ body, defs.entry? name = some ⟨body, some id⟩
  /-- The unresolved names are in order, each once. -/
  ordered : defs.unresolvedRefs.Pairwise (· < ·)
  /-- They are reserved without a body, or a reference somewhere inside a body leads there and there is no entry. -/
  unresolved : ∀ name, name ∈ defs.unresolvedRefs ↔
    (∃ owner, defs.entry? name = some ⟨none, owner⟩) ∨
      defs.entry? name = none ∧
        ∃ other body, defs.get? other = some body ∧ ∃ node ∈ body.nodes, node.form = .ref name

theorem refused_of_outcome {error : ModelError} (refused : change.outcome defs = .error error) :
    error = .nameCollision change.name ∧ defs.contains change.name = true ∧ change.after defs = defs := by
  have does := change.does defs
  unfold Change.after
  rw [refused] at does ⊢
  cases does with
  | collides found _ =>
      exact ⟨rfl, Option.isSome_iff_exists.2 ⟨_, found⟩, rfl⟩

theorem outcome_of_foreign (found : defs.entry? change.name = some entry) (foreign : entry.owner ≠ change.owner) :
    change.outcome defs = .error (.nameCollision change.name) := by
  have does := change.does defs
  generalize change.outcome defs = outcome at does ⊢
  cases does with
  | adds free =>
      rw [free] at found
      cases found
  | fills reserved owned _ =>
      rw [reserved] at found
      cases found
      exact absurd owned.symm foreign
  | repeats found' takes _ =>
      rw [found'] at found
      cases found
      exact absurd takes.1 foreign
  | collides =>
      rfl

/-- Every table that reservations and bodies have made, in whatever order and some of them refused, is append-only and
write-once from there on. -/
theorem writeOnce_changed (earlier later : List Change) :
    WriteOnce (empty.changed earlier) ((empty.changed earlier).changed later) := by
  have tidy : (empty.changed earlier).Tidy := Tidy.empty.changed earlier
  constructor
  case toPreserves =>
    exact Preserves.changed (empty.changed earlier) later
  case refused =>
    exact fun change error => refused_of_outcome
  case foreign =>
    exact fun change entry => outcome_of_foreign
  case named =>
    exact tidy.named
  case ordered =>
    exact pairwise_unresolvedRefs _
  case unresolved =>
    exact fun name => tidy.mem_unresolvedRefs_iff

/-! ## Filling a reservation -/

/-- A change puts a body under the name. -/
def Change.Stores (defs : Definitions) (name : String) (change : Change) : Prop :=
  change.name = name ∧ change.body? ≠ none ∧ ∃ defs', change.outcome defs = .ok defs'

/-- Of changes made one after the other none puts a body under the name. -/
def Spares (name : String) : Definitions → List Change → Prop
  | _, [] => True
  | defs, change :: rest => ¬change.Stores defs name ∧ Spares name (change.after defs) rest

/-- A reservation stays until a body is put under its name. -/
theorem entry?_after_of_reserved (reserved : defs.entry? name = some ⟨none, owner⟩)
    (spared : ¬change.Stores defs name) : entry? (change.after defs) name = some ⟨none, owner⟩ := by
  have does := change.does defs
  unfold Change.after
  generalize made : change.outcome defs = outcome at does ⊢
  cases does with
  | adds free =>
      have different : name ≠ change.name := by
        intro same
        rw [same, free] at reserved
        cases reserved
      exact (entry?_add_of_ne different).trans reserved
  | fills _ _ stored =>
      have different : name ≠ change.name := by
        intro same
        exact spared ⟨same.symm, stored ▸ Option.some_ne_none _, _, made⟩
      exact (entry?_fill_of_ne different).trans reserved
  | repeats | collides =>
      exact reserved

theorem entry?_changed_of_reserved {changes : List Change} (reserved : defs.entry? name = some ⟨none, owner⟩)
    (spared : Spares name defs changes) : entry? (defs.changed changes) name = some ⟨none, owner⟩ := by
  induction changes generalizing defs with
  | nil =>
      exact reserved
  | cons change rest inductionHypothesis =>
      obtain ⟨here, later⟩ := spared
      exact inductionHypothesis (entry?_after_of_reserved reserved here) later

/-- Nobody can fill a reservation that was made for nobody. -/
theorem insert_of_unowned (reserved : defs.entry? name = some ⟨none, none⟩) (body : TypeDef) (owner : Option TypeId) :
    defs.insert name body owner = .error (.nameCollision name) := by
  have does := does_insert defs name body owner
  generalize defs.insert name body owner = outcome at does ⊢
  cases does with
  | adds free =>
      cases free.symm.trans reserved
  | fills owned _ _ =>
      cases owned.symm.trans reserved
  | repeats found takes _ =>
      cases found.symm.trans reserved
      obtain ⟨unowned, known | ⟨-, stored⟩⟩ := takes
      · exact absurd unowned.symm known
      · cases stored
  | collides =>
      rfl

/-- A name that was new and has been reserved can be filled later, whatever is asked for in between, exactly if it was
reserved for an owner. Made for nobody, a reservation is never filled: not without owner, and not by any type. -/
theorem insert_reserved_iff (earlier later : List Change) (name : String) (owner : Option TypeId) (body : TypeDef)
    {reserved : Definitions} (fresh : (empty.changed earlier).contains name = false)
    (claimed : (empty.changed earlier).reserve name owner = .ok reserved) (spared : Spares name reserved later) :
    ((∃ filled, (reserved.changed later).insert name body owner = .ok filled ∧ filled.get? name = some body) ↔
        owner ≠ none) ∧
      (owner = none → ∀ claimant,
        (reserved.changed later).insert name body claimant = .error (.nameCollision name)) := by
  have present : reserved.entry? name = some ⟨none, owner⟩ := by
    rw [reserve, contains_eq_false_iff.1 fresh] at claimed
    cases claimed
    exact entry?_add_self
  have waits := entry?_changed_of_reserved present spared
  cases owner with
  | none =>
      refine ⟨⟨?_, absurd rfl⟩, fun _ => insert_of_unowned waits body⟩
      rintro ⟨filled, inserted, -⟩
      rw [insert_of_unowned waits body none] at inserted
      cases inserted
  | some owner =>
      refine ⟨⟨fun _ => Option.some_ne_none owner, fun _ => ?_⟩, fun unowned => absurd unowned (Option.some_ne_none owner)⟩
      exact ⟨_, insert_eq_ok_iff.2 (.inr (.inl ⟨waits, rfl⟩)), get?_fill_self⟩

/-- A reservation that others run into, and that its owner repeats, before it is filled. -/
theorem insert_reserved_iff_contested :
    let earlier : List Change := [.insert "Leaf" (.primitive .string) none]
    let later : List Change :=
      [.reserve "Node" (some 1), .insert "Node" (.primitive .boolean) none, .reserve "Node" (some 0),
        .insert "Tree" (.elements (.ref "Node")) (some 0)]
    let reserved := (empty.changed earlier).add "Node" ⟨none, some 0⟩
    (empty.changed earlier).contains "Node" = false ∧
      (empty.changed earlier).reserve "Node" (some 0) = .ok reserved ∧ Spares "Node" reserved later ∧
      ∃ filled, (reserved.changed later).insert "Node" (.object []) (some 0) = .ok filled ∧
        filled.get? "Node" = some (.object []) := by
  intro earlier later reserved
  have spared : Spares "Node" reserved later := by
    refine ⟨?_, ?_, ?_, ?_, trivial⟩
    · rintro ⟨-, stored, -⟩
      exact stored rfl
    · rintro ⟨-, -, defs', made⟩
      cases made
    · rintro ⟨-, stored, -⟩
      exact stored rfl
    · rintro ⟨same, -⟩
      revert same
      decide
  have filled := insert_reserved_iff earlier later "Node" (some 0) (.object []) rfl rfl spared
  exact ⟨rfl, rfl, spared, filled.1.2 (Option.some_ne_none 0)⟩

/-- A name can be reserved without owner, and then no body is taken, not even from nobody. -/
theorem unowned_reservation_not_filled :
    ¬ ∀ (earlier later : List Change) (name : String) (owner : Option TypeId) (body : TypeDef) (reserved : Definitions),
        (empty.changed earlier).contains name = false → (empty.changed earlier).reserve name owner = .ok reserved →
          Spares name reserved later →
            ∃ filled, (reserved.changed later).insert name body owner = .ok filled ∧ filled.get? name = some body := by
  intro fillable
  obtain ⟨filled, inserted, -⟩ := fillable [] [] "Node" none (.primitive .string) _ rfl rfl trivial
  cases inserted

end SchemaRpc.Definitions
