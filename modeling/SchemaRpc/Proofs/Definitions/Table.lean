import SchemaRpc.Proofs.Keyed
import SchemaRpc.Definitions

/-!
# What the operations on the table do

Reserving a name and storing a body either leave the table as it is or change one entry of it. The bodies that are
listed are those that are found, as long as the entries are in order.
-/

namespace SchemaRpc.Definitions

variable {defs defs' : Definitions} {name other : String} {entry : Entry} {owner : TypeId} {body : TypeDef}

theorem entry?_add_self : entry? (defs.add name entry) name = some entry :=
  Entries.find?_insert_self name entry defs.entries

theorem entry?_add_of_ne (different : other ≠ name) : entry? (defs.add name entry) other = defs.entry? other :=
  Entries.find?_insert_of_ne different entry defs.entries

theorem nameOf?_add_owner (body : Option TypeDef) : (defs.add name ⟨body, some owner⟩).nameOf? owner = some name := by
  simp [add, nameOf?]

theorem nameOf?_add_of_ne {id : TypeId} (different : id ≠ owner) (body : Option TypeDef) :
    (defs.add name ⟨body, some owner⟩).nameOf? id = defs.nameOf? id := by
  simp [add, nameOf?, List.lookup_cons, beq_false_of_ne different]

theorem nameOf?_add_of_some {id : TypeId} (fresh : defs.nameOf? owner = none) (named : defs.nameOf? id = some other)
    (body : Option TypeDef) : (defs.add name ⟨body, some owner⟩).nameOf? id = some other := by
  have different : id ≠ owner := by
    rintro rfl
    rw [fresh] at named
    cases named
  rw [nameOf?_add_of_ne different]
  exact named

/-- Puts the body of a name that is already there. -/
def fill (defs : Definitions) (name : String) (entry : Entry) : Definitions :=
  { defs with entries := defs.entries.insert name entry }

theorem entry?_fill_self : entry? (defs.fill name entry) name = some entry :=
  Entries.find?_insert_self name entry defs.entries

theorem entry?_fill_of_ne (different : other ≠ name) : entry? (defs.fill name entry) other = defs.entry? other :=
  Entries.find?_insert_of_ne different entry defs.entries

theorem entry?_of_add {found : Entry} (present : entry? (defs.add name entry) other = some found) :
    other = name ∧ found = entry ∨ defs.entry? other = some found :=
  Entries.find?_of_insert present

theorem entry?_of_fill {found : Entry} (present : entry? (defs.fill name entry) other = some found) :
    other = name ∧ found = entry ∨ defs.entry? other = some found :=
  Entries.find?_of_insert present

/-- A type with a name owns the entry there. -/
def NamesOwned (defs : Definitions) : Prop :=
  ∀ id name, defs.nameOf? id = some name → ∃ body, defs.entry? name = some ⟨body, some id⟩

theorem NamesOwned.add (owned : defs.NamesOwned) (free : defs.entry? name = none) (body : Option TypeDef) :
    (defs.add name ⟨body, some owner⟩).NamesOwned := by
  intro id other named
  by_cases same : id = owner
  · subst same
    rw [nameOf?_add_owner] at named
    cases named
    exact ⟨body, entry?_add_self⟩
  · rw [nameOf?_add_of_ne same] at named
    obtain ⟨body', found⟩ := owned id other named
    have different : other ≠ name := by
      rintro rfl
      rw [free] at found
      cases found
    exact ⟨body', (entry?_add_of_ne different).trans found⟩

theorem NamesOwned.fill {reserved : Option TypeDef} (owned : defs.NamesOwned)
    (present : defs.entry? name = some ⟨reserved, some owner⟩) (body : Option TypeDef) :
    (defs.fill name ⟨body, some owner⟩).NamesOwned := by
  intro id other named
  obtain ⟨body', found⟩ := owned id other named
  by_cases same : other = name
  · subst same
    rw [present] at found
    cases found
    exact ⟨body, entry?_fill_self⟩
  · exact ⟨body', (entry?_fill_of_ne same).trans found⟩

theorem belongsTo_eq_true_iff {owner : Option TypeId} :
    entry.belongsTo owner = true ↔ entry.owner = owner ∧ owner ≠ none := by
  unfold Entry.belongsTo
  rw [Bool.and_eq_true, beq_iff_eq, and_comm, Option.isSome_iff_ne_none]

theorem belongsTo_iff : entry.belongsTo (some owner) = true ↔ entry.owner = some owner :=
  belongsTo_eq_true_iff.trans (and_iff_left (Option.some_ne_none owner))

/-- An owner's reservation stands already, or makes a new entry. -/
theorem reserve_eq_ok_iff :
    defs.reserve name (some owner) = .ok defs' ↔
      (∃ entry, defs.entry? name = some entry ∧ entry.owner = some owner ∧ defs' = defs) ∨
        (defs.entry? name = none ∧ defs' = defs.add name ⟨none, some owner⟩) := by
  unfold reserve
  cases found : defs.entry? name with
  | none =>
      simp [eq_comm]
  | some entry =>
      by_cases belongs : entry.owner = some owner
      · simp [belongsTo_iff.2 belongs, belongs, eq_comm]
      · have foreign : entry.belongsTo (some owner) = false := by
          rw [Bool.eq_false_iff, ne_eq, belongsTo_iff]
          exact belongs
        simp [foreign, belongs]

/-- An owner's body makes a new entry, fills a reservation, or is there already. -/
theorem insert_eq_ok_iff :
    defs.insert name body (some owner) = .ok defs' ↔
      (defs.entry? name = none ∧ defs' = defs.add name ⟨some body, some owner⟩) ∨
        (defs.entry? name = some ⟨none, some owner⟩ ∧ defs' = defs.fill name ⟨some body, some owner⟩) ∨
        ∃ stored, defs.entry? name = some ⟨some stored, some owner⟩ ∧ defs' = defs := by
  unfold insert
  cases found : defs.entry? name with
  | none =>
      simp [eq_comm]
  | some entry =>
      obtain ⟨stored, owner'⟩ := entry
      by_cases belongs : owner' = some owner
      · subst belongs
        cases stored with
        | none =>
            simp [Entry.belongsTo, fill, eq_comm]
        | some stored =>
            simp [Entry.belongsTo, eq_comm]
      · have foreign : Entry.belongsTo ⟨stored, owner'⟩ (some owner) = false := by
          rw [Bool.eq_false_iff, ne_eq, belongsTo_iff]
          exact belongs
        cases stored <;> simp [foreign, belongs]

/-! ## Bodies -/

theorem mem_completed {name : String} {body : TypeDef} :
    (name, body) ∈ defs.completed ↔ ∃ entry, (name, entry) ∈ defs.entries ∧ entry.body = some body := by
  unfold completed
  rw [List.mem_filterMap]
  constructor
  · rintro ⟨⟨name', entry⟩, member, mapped⟩
    cases stored : entry.body with
    | none =>
        simp [stored] at mapped
    | some body' =>
        simp only [stored, Option.map_some, Option.some.injEq, Prod.mk.injEq] at mapped
        obtain ⟨rfl, rfl⟩ := mapped
        exact ⟨entry, member, stored⟩
  · rintro ⟨entry, member, stored⟩
    exact ⟨(name, entry), member, by simp [stored]⟩

theorem mem_completed_of_get? (found : defs.get? name = some body) : (name, body) ∈ defs.completed := by
  obtain ⟨entry, present, stored⟩ := Option.bind_eq_some_iff.1 found
  exact mem_completed.2 ⟨entry, Entries.mem_of_find? present, stored⟩

theorem get?_of_mem_completed (ascending : Entries.Ascending defs.entries) (listed : (name, body) ∈ defs.completed) :
    defs.get? name = some body := by
  obtain ⟨entry, member, stored⟩ := mem_completed.1 listed
  have present : defs.entry? name = some entry := Entries.find?_of_mem ascending member
  rw [get?, present]
  exact stored

theorem lookup_completed (ascending : Entries.Ascending defs.entries) :
    defs.completed.lookup name = defs.get? name := by
  cases listed : defs.completed.lookup name with
  | some body =>
      exact (get?_of_mem_completed ascending (mem_of_lookup listed)).symm
  | none =>
      cases found : defs.get? name with
      | none =>
          rfl
      | some body =>
          have different := List.lookup_eq_none_iff.1 listed _ (mem_completed_of_get? found)
          exact absurd rfl (bne_iff_ne.1 different)

end SchemaRpc.Definitions
