import SchemaRpc.Proofs.Introspection.Correct

/-!
# What a walk leaves behind

The other theorems about introspection are about walks that succeed, over one catalog. Here the walk may be refused, and
the calls before may have been over other catalogs, and refused as well. `Definitions.Sound` is what holds of the table
all the same, and `Extends` is all that a walk can do to it: entries are kept as they are, and entries are added for types
that are reached and were not in the table.
-/

namespace SchemaRpc

/-- What a name of the table stands for once it has a body: a record or a union, never nullable. -/
structure TypeDef.IsBody (t : TypeDef) : Prop where
  nullable : t.nullable = false
  form : (∃ properties, t.form = .object properties) ∨ ∃ key mapping, t.form = .union key mapping

theorem TypeDef.IsBody.refName?_eq_none {t : TypeDef} (isBody : t.IsBody) : t.refName? = none := by
  unfold refName?
  rcases isBody.form with ⟨properties, form⟩ | ⟨key, mapping, form⟩ <;> rw [form]

/-- What holds of every table that introspection makes, with names that are reserved only. -/
structure Definitions.Sound (defs : Definitions) : Prop where
  ascending : Entries.Ascending defs.entries
  owned : ∀ name entry, defs.entry? name = some entry → ∃ id, entry.owner = some id ∧ defs.nameOf? id = some name
  named : ∀ id name, defs.nameOf? id = some name → ∃ body, defs.entry? name = some ⟨body, some id⟩
  bodies : ∀ name body, defs.get? name = some body → body.IsBody

theorem Definitions.sound_empty : Definitions.empty.Sound where
  ascending := .nil
  owned _ _ found := nomatch found
  named _ _ found := nomatch found
  bodies _ _ found := nomatch found

/-- All that a walk may do to the table if it enters no types but the given ones. Where all of them have names already, it
does nothing. -/
structure Definitions.Extends (entered : TypeId → Prop) (defs defs' : Definitions) : Prop where
  entries : ∀ name entry, defs.entry? name = some entry → defs'.entry? name = some entry
  names : ∀ id name, defs.nameOf? id = some name → defs'.nameOf? id = some name
  added : ∀ name entry, defs'.entry? name = some entry → defs.entry? name = none →
    ∃ id, entered id ∧ entry.owner = some id ∧ defs.nameOf? id = none
  same : (∀ id, entered id → defs.nameOf? id ≠ none) → defs' = defs

namespace Definitions.Extends

variable {entered entered' : TypeId → Prop} {defs between defs' : Definitions}

theorem refl : Extends entered defs defs where
  entries _ _ found := found
  names _ _ named := named
  added name entry found missing := by
    rw [missing] at found
    cases found
  same _ := rfl

theorem mono (extension : Extends entered defs defs') (wider : ∀ id, entered id → entered' id) :
    Extends entered' defs defs' where
  entries := extension.entries
  names := extension.names
  added name entry found missing := by
    obtain ⟨id, here, rest⟩ := extension.added name entry found missing
    exact ⟨id, wider id here, rest⟩
  same named := extension.same fun id here => named id (wider id here)

theorem trans (first : Extends entered defs between) (second : Extends entered between defs') :
    Extends entered defs defs' where
  entries name entry found := second.entries name entry (first.entries name entry found)
  names id name named := second.names id name (first.names id name named)
  added name entry found missing := by
    cases foundBetween : between.entry? name with
    | none =>
        obtain ⟨id, here, owned, unnamed⟩ := second.added name entry found foundBetween
        exact ⟨id, here, owned, Introspection.NamesKept.nameOf?_eq_none first.names unnamed⟩
    | some entry' =>
        have kept := second.entries name entry' foundBetween
        rw [found] at kept
        cases kept
        exact first.added name entry foundBetween missing
  same named := by
    have unchanged := first.same named
    subst unchanged
    exact second.same named

theorem contains (extension : Extends entered defs defs') {name : String} (present : defs.contains name = true) :
    defs'.contains name = true := by
  obtain ⟨entry, found⟩ := Option.isSome_iff_exists.1 present
  exact Option.isSome_iff_exists.2 ⟨entry, extension.entries name entry found⟩

theorem get? (extension : Extends entered defs defs') {name : String} {body : TypeDef}
    (found : defs.get? name = some body) : defs'.get? name = some body := by
  obtain ⟨entry, present, stored⟩ := Option.bind_eq_some_iff.1 found
  exact Option.bind_eq_some_iff.2 ⟨entry, extension.entries name entry present, stored⟩

end Definitions.Extends

namespace Introspection

open Catalog Definitions

variable {n : Nat} {catalog : Catalog n} {defs between defs' : Definitions} {reached reached' : Fin n → Prop}

/-- The identities of the records and unions among the types that are reached. -/
def Enters (catalog : Catalog n) (reached : Fin n → Prop) (id : TypeId) : Prop :=
  ∃ slot, reached slot ∧ catalog.IsEntered slot ∧ catalog.id slot = id

theorem Enters.mono {id : TypeId} (enters : Enters catalog reached id) (wider : ∀ slot, reached slot → reached' slot) :
    Enters catalog reached' id := by
  obtain ⟨slot, reachedSlot, rest⟩ := enters
  exact ⟨slot, wider slot reachedSlot, rest⟩

/-! ## Walks that may be refused -/

variable {α β : Type} {walk : Walk α} {given : α → Definitions → Prop}

theorem run_bind_ok {next : α → Walk β} {a : α} (ran : walk.run.run defs = (.ok a, between)) :
    (walk >>= next).run.run defs = (next a).run.run between := by
  rw [run_bind, ran]

theorem run_bind_error {next : α → Walk β} {error : RegistrationError}
    (ran : walk.run.run defs = (.error error, between)) :
    (walk >>= next).run.run defs = (.error error, between) := by
  rw [run_bind, ran]

/-- From one table a walk leads to a sound one that extends it, and its result, if there is one, is as stated. -/
structure Moves (catalog : Catalog n) (reached : Fin n → Prop) (walk : Walk α) (given : α → Definitions → Prop)
    (defs : Definitions) : Prop where
  sound : (walk.run.run defs).2.Sound
  extension : Extends (Enters catalog reached) defs (walk.run.run defs).2
  given : ∀ a defs', Runs walk defs a defs' → given a defs'

namespace Moves

theorem pure {a : α} (sound : defs.Sound) (holds : given a defs) :
    Moves catalog reached (Pure.pure a) given defs := by
  refine ⟨sound, .refl, fun b defs' ran => ?_⟩
  obtain ⟨rfl, rfl⟩ := runs_pure.1 ran
  exact holds

theorem of_ok {a : α} (ran : Runs walk defs a defs') (sound : defs'.Sound)
    (extension : Extends (Enters catalog reached) defs defs') (holds : given a defs') :
    Moves catalog reached walk given defs := by
  refine ⟨?_, ?_, fun b after ran' => ?_⟩
  · rw [ran]
    exact sound
  · rw [ran]
    exact extension
  · rw [Runs, ran] at ran'
    cases ran'
    exact holds

theorem of_error {error : RegistrationError} (ran : walk.run.run defs = (.error error, defs')) (sound : defs'.Sound)
    (extension : Extends (Enters catalog reached) defs defs') : Moves catalog reached walk given defs := by
  refine ⟨?_, ?_, fun b after ran' => ?_⟩
  · rw [ran]
    exact sound
  · rw [ran]
    exact extension
  · rw [Runs, ran] at ran'
    cases ran'

theorem of_run_eq {walk' : Walk α} (moves : Moves catalog reached walk given defs)
    (same : walk'.run.run defs = walk.run.run defs) : Moves catalog reached walk' given defs := by
  refine ⟨?_, ?_, fun a after ran => moves.given a after (same.symm.trans ran)⟩
  · rw [same]
    exact moves.sound
  · rw [same]
    exact moves.extension

theorem get (sound : defs.Sound) : Moves catalog reached (MonadState.get : Walk Definitions) (fun _ _ => True) defs :=
  of_ok rfl sound .refl trivial

theorem throw {error : RegistrationError} (sound : defs.Sound) :
    Moves catalog reached (MonadExcept.throw error : Walk α) given defs :=
  ⟨sound, .refl, fun _ _ ran => absurd ran not_runs_throw⟩

theorem lift {result : Except ModelError α} (sound : defs.Sound) (holds : ∀ a, result = .ok a → given a defs) :
    Moves catalog reached (Introspection.lift result) given defs := by
  cases result with
  | ok a =>
      exact pure sound (holds a rfl)
  | error error =>
      exact throw sound

theorem bind {next : α → Walk β} {after : β → Definitions → Prop} (first : Moves catalog reached walk given defs)
    (rest : ∀ a between, between.Sound → Extends (Enters catalog reached) defs between → given a between →
      Moves catalog reached (next a) after between) :
    Moves catalog reached (walk >>= next) after defs := by
  have sound := first.sound
  have extended := first.extension
  cases ran : walk.run.run defs with
  | mk result between =>
    rw [ran] at sound extended
    cases result with
    | error error =>
        exact of_error (run_bind_error ran) sound extended
    | ok a =>
        have moves := rest a between sound extended (first.given a between ran)
        have same : (walk >>= next).run.run defs = (next a).run.run between := run_bind_ok ran
        refine ⟨?_, ?_, fun b defs' ranBoth => moves.given b defs' (same.symm.trans ranBoth)⟩
        · rw [same]
          exact moves.sound
        · rw [same]
          exact extended.trans moves.extension

theorem widen (moves : Moves catalog reached walk given defs) (wider : ∀ slot, reached slot → reached' slot) :
    Moves catalog reached' walk given defs :=
  ⟨moves.sound, moves.extension.mono fun _ enters => enters.mono wider, moves.given⟩

theorem weaken {given' : α → Definitions → Prop} (moves : Moves catalog reached walk given defs)
    (weaker : ∀ a defs', given a defs' → given' a defs') : Moves catalog reached walk given' defs :=
  ⟨moves.sound, moves.extension, fun a defs' ran => weaker a defs' (moves.given a defs' ran)⟩

end Moves

/-! ## Walks over shapes and fields -/

/-- What a use of a declared type gives: the name of a record or union stands in the table afterwards. -/
def Names (catalog : Catalog n) (slot : Fin n) (t : TypeDef) (defs : Definitions) : Prop :=
  catalog.IsEntered slot → ∃ name, t = .ref name ∧ defs.contains name = true

/-- Every use of a declared type moves from every sound table. -/
def Expands (catalog : Catalog n) (expand : Expansion n) : Prop :=
  ∀ slot path defs, defs.Sound →
    Moves catalog (Reaches catalog (.declared slot)) (expand slot path) (Names catalog slot) defs

section Walks

variable {expand : Expansion n} (expands : Expands catalog expand)

include expands

theorem moves_walkShape (sound : defs.Sound) (path : List String) (shape : Shape n) :
    Moves catalog (Reaches catalog shape) (walkShape expand path shape) (fun _ _ => True) defs := by
  induction shape with
  | primitive | any =>
      exact .pure sound trivial
  | optional | unit | unsupported =>
      exact .throw sound
  | declared slot =>
      exact (expands slot path defs sound).weaken fun _ _ _ => trivial
  | array item inductionHypothesis | map item inductionHypothesis | nullable item inductionHypothesis =>
      rw [walkShape]
      refine (inductionHypothesis.widen ?_).bind fun _ _ sound _ _ => .pure sound trivial
      exact fun _ reaches => reaches.of_slots rfl

theorem moves_walkFields (sound : defs.Sound) (path : List String) (fields : List (FieldDecl (Shape n))) :
    Moves catalog (fun slot => ∃ type ∈ fields.map FieldDecl.type, Reaches catalog type slot)
      (walkFields expand path fields) (fun _ _ => True) defs := by
  induction fields generalizing defs with
  | nil =>
      exact .pure sound trivial
  | cons field rest inductionHypothesis =>
      rw [walkFields_cons]
      have type := moves_walkShape expands sound (path ++ [field.name]) (splitOptional field.type).1
      refine (type.widen ?_).bind fun t between sound _ _ => ?_
      · intro slot reaches
        exact ⟨field.type, List.mem_cons_self, reaches.of_slots (slots_splitOptional field.type)⟩
      refine ((inductionHypothesis sound).widen ?_).bind fun _ _ sound _ _ => .pure sound trivial
      rintro slot ⟨type, member, reaches⟩
      exact ⟨type, List.mem_cons_of_mem _ member, reaches⟩

theorem moves_walkObject (sound : defs.Sound) (path : List String) (fields : List (FieldDecl (Shape n))) :
    Moves catalog (fun slot => ∃ type ∈ fields.map FieldDecl.type, Reaches catalog type slot)
      (walkObject expand path fields) (fun _ _ => True) defs :=
  (moves_walkFields expands sound path fields).bind fun _ _ sound _ _ => .lift sound fun _ _ => trivial

theorem moves_walkVariants (sound : defs.Sound) (path : List String) (variants : List (VariantDecl (Shape n))) :
    Moves catalog
      (fun slot => ∃ type ∈ variants.flatMap (fun variant => variant.fields.map FieldDecl.type),
        Reaches catalog type slot)
      (walkVariants expand path variants) (fun _ _ => True) defs := by
  induction variants generalizing defs with
  | nil =>
      exact .pure sound trivial
  | cons variant rest inductionHypothesis =>
      rw [walkVariants]
      have fields := moves_walkObject expands sound (path ++ [variant.tag]) variant.fields
      refine (fields.widen ?_).bind fun t between sound _ _ => ?_
      · rintro slot ⟨type, member, reaches⟩
        exact ⟨type, List.mem_append_left _ member, reaches⟩
      refine ((inductionHypothesis sound).widen ?_).bind fun _ _ sound _ _ => .pure sound trivial
      rintro slot ⟨type, member, reaches⟩
      exact ⟨type, List.mem_append_right _ member, reaches⟩

theorem moves_walkMembers (sound : defs.Sound) (path : List String) {members : Members (Shape n)}
    (isEntered : members.isEnumeration = false) :
    Moves catalog (fun slot => ∃ type ∈ members.types, Reaches catalog type slot) (walkMembers expand path members)
      (fun t _ => t.IsBody) defs := by
  cases members with
  | record fields =>
      refine (moves_walkObject expands sound path fields).bind fun properties _ sound _ _ => .pure sound ?_
      exact ⟨rfl, .inl ⟨properties, rfl⟩⟩
  | union key variants =>
      refine (moves_walkVariants expands sound path variants).bind fun mapping _ sound _ _ => .lift sound fun t made => ?_
      obtain ⟨rfl, _⟩ := TypeDef.unionOf_eq_ok made
      exact ⟨rfl, .inr ⟨key, mapping, rfl⟩⟩
  | enumeration listed =>
      cases isEntered

end Walks

/-! ## Entering a type -/

section Enter

variable {name : String} {owner : TypeId}

theorem get?_eq_some_iff {body : TypeDef} :
    defs.get? name = some body ↔ ∃ owner?, defs.entry? name = some ⟨some body, owner?⟩ := by
  rw [Definitions.get?, Option.bind_eq_some_iff]
  constructor
  · rintro ⟨⟨_, owner?⟩, found, rfl⟩
    exact ⟨owner?, found⟩
  · rintro ⟨owner?, found⟩
    exact ⟨_, found, rfl⟩

theorem sound_add (sound : defs.Sound) (fresh : defs.nameOf? owner = none) (free : defs.entry? name = none) :
    (defs.add name ⟨none, some owner⟩).Sound := by
  constructor
  case ascending =>
    exact Entries.ascending_insert _ _ sound.ascending
  case owned =>
    intro other entry found
    rcases Definitions.entry?_of_add found with ⟨rfl, rfl⟩ | before
    · exact ⟨owner, rfl, Definitions.nameOf?_add_owner none⟩
    · obtain ⟨id, owned, named⟩ := sound.owned other entry before
      exact ⟨id, owned, Definitions.nameOf?_add_of_some fresh named none⟩
  case named =>
    exact Definitions.NamesOwned.add sound.named free none
  case bodies =>
    intro other body stored
    obtain ⟨owner?, found⟩ := get?_eq_some_iff.1 stored
    rcases Definitions.entry?_of_add found with ⟨-, reserved⟩ | before
    · cases reserved
    · exact sound.bodies other body (get?_eq_some_iff.2 ⟨owner?, before⟩)

theorem sound_fill {body : TypeDef} (sound : defs.Sound) (reserved : defs.entry? name = some ⟨none, some owner⟩)
    (isBody : body.IsBody) : (defs.fill name ⟨some body, some owner⟩).Sound := by
  constructor
  case ascending =>
    exact Entries.ascending_insert _ _ sound.ascending
  case owned =>
    intro other entry found
    rcases Definitions.entry?_of_fill found with ⟨rfl, rfl⟩ | before
    · exact sound.owned other ⟨none, some owner⟩ reserved
    · exact sound.owned other entry before
  case named =>
    exact Definitions.NamesOwned.fill sound.named reserved (some body)
  case bodies =>
    intro other body' stored
    obtain ⟨owner?, found⟩ := get?_eq_some_iff.1 stored
    rcases Definitions.entry?_of_fill found with ⟨-, same⟩ | before
    · cases same
      exact isBody
    · exact sound.bodies other body' (get?_eq_some_iff.2 ⟨owner?, before⟩)

/-- A walk from a fresh reservation extends the table from before the reservation, whether the reservation has got a body
since or not. -/
theorem extends_of_add {entered entered' : TypeId → Prop} {entry : Definitions.Entry}
    (fresh : defs.nameOf? owner = none) (free : defs.entry? name = none)
    (extension : Extends entered (defs.add name ⟨none, some owner⟩) between)
    (wider : ∀ id, entered id → entered' id) (here : entered' owner)
    (others : ∀ other, other ≠ name → defs'.entry? other = between.entry? other)
    (own : defs'.entry? name = some entry) (owned : entry.owner = some owner) (names : NamesKept between defs') :
    Extends entered' defs defs' := by
  have opened : NamesKept defs (defs.add name ⟨none, some owner⟩) := fun _ _ named =>
    Definitions.nameOf?_add_of_some fresh named none
  constructor
  case entries =>
    intro other entry' found
    have different : other ≠ name := by
      rintro rfl
      rw [free] at found
      cases found
    rw [others other different]
    exact extension.entries other entry' ((Definitions.entry?_add_of_ne different).trans found)
  case names =>
    exact fun id other named => names id other (extension.names id other (opened id other named))
  case added =>
    intro other entry' found missing
    by_cases same : other = name
    · subst same
      rw [own] at found
      cases found
      exact ⟨owner, here, owned, fresh⟩
    · rw [others other same] at found
      have missingOpened : Definitions.entry? (defs.add name ⟨none, some owner⟩) other = none :=
        (Definitions.entry?_add_of_ne same).trans missing
      obtain ⟨id, enteredId, owned', unnamed⟩ := extension.added other entry' found missingOpened
      exact ⟨id, wider id enteredId, owned', opened.nameOf?_eq_none unnamed⟩
  case same =>
    exact fun named => absurd fresh (named owner here)

end Enter

variable {w : Introspection n} {expand : Expansion n}

/-- Without a name for its type a reservation is refused, or it opens a new entry. -/
theorem run_reserve (name : String) {owner : TypeId} (sound : defs.Sound) (fresh : defs.nameOf? owner = none) :
    (∃ error, (onTable fun defs => defs.reserve name (some owner)).run.run defs = (.error error, defs)) ∨
      defs.entry? name = none ∧
        (onTable fun defs => defs.reserve name (some owner)).run.run defs = (.ok (), defs.add name ⟨none, some owner⟩) := by
  rw [run_onTable]
  cases reserved : defs.reserve name (some owner) with
  | error error =>
      exact .inl ⟨_, rfl⟩
  | ok opened =>
      rcases Definitions.reserve_eq_ok_iff.1 reserved with ⟨entry, found, owned, _⟩ | ⟨free, rfl⟩
      · obtain ⟨id, owned', named⟩ := sound.owned name entry found
        rw [owned] at owned'
        cases owned'
        rw [fresh] at named
        cases named
      · exact .inr ⟨free, rfl⟩

/-- The body of a reserved name is stored. -/
theorem run_insert {name : String} {owner : TypeId} (body : TypeDef)
    (reserved : defs.entry? name = some ⟨none, some owner⟩) :
    (onTable fun defs => defs.insert name body (some owner)).run.run defs =
      (.ok (), defs.fill name ⟨some body, some owner⟩) := by
  have inserted : defs.insert name body (some owner) = .ok (defs.fill name ⟨some body, some owner⟩) :=
    Definitions.insert_eq_ok_iff.2 (.inr (.inl ⟨reserved, rfl⟩))
  rw [run_onTable, inserted]

/-- Entering a type moves, wherever it is refused. -/
theorem moves_enter (expands : Expands w.catalog expand) (sound : defs.Sound) (path : List String) {slot : Fin n}
    (isEntered : w.catalog.IsEntered slot) (fresh : defs.nameOf? (w.catalog.id slot) = none) :
    Moves w.catalog (Reaches w.catalog (.declared slot))
      (w.enter expand path (w.catalog.get slot).info (w.catalog.get slot).members) (Names w.catalog slot) defs := by
  unfold enter
  generalize w.nameFor (w.catalog.get slot).info path = name
  have here : Enters w.catalog (Reaches w.catalog (.declared slot)) (w.catalog.id slot) :=
    ⟨slot, .mentioned List.mem_cons_self, isEntered, rfl⟩
  have fromMembers : ∀ id,
      Enters w.catalog (fun other => ∃ type ∈ (w.catalog.get slot).members.types, Reaches w.catalog type other) id →
        Enters w.catalog (Reaches w.catalog (.declared slot)) id := by
    rintro id ⟨other, ⟨type, declared, reaches⟩, rest⟩
    exact ⟨other, reaches.of_type declared, rest⟩
  rcases run_reserve name sound fresh with ⟨error, refused⟩ | ⟨free, reserved⟩
  · exact .of_error (run_bind_error refused) sound .refl
  have moves := moves_walkMembers expands (sound_add sound fresh free) path isEntered
  have soundBetween := moves.sound
  have extension := moves.extension
  cases ran : (walkMembers expand path (w.catalog.get slot).members).run.run
      (defs.add name ⟨none, some (w.catalog.id slot)⟩) with
  | mk result between =>
    rw [ran] at soundBetween extension
    have reservedBetween : between.entry? name = some ⟨none, some (w.catalog.id slot)⟩ :=
      extension.entries name _ Definitions.entry?_add_self
    cases result with
    | error error =>
        refine .of_error ((run_bind_ok reserved).trans (run_bind_error ran)) soundBetween ?_
        exact extends_of_add fresh free extension fromMembers here (fun _ _ => rfl) reservedBetween rfl
          fun _ _ named => named
    | ok body =>
        have isBody : body.IsBody := moves.given body between ran
        have stored := run_insert (body.withMetadata (metadataOf (w.catalog.get slot).info (some name))) reservedBetween
        refine .of_ok ((run_bind_ok reserved).trans ((run_bind_ok ran).trans (run_bind_ok stored)))
          (sound_fill soundBetween reservedBetween ⟨isBody.nullable, isBody.form⟩) ?_ fun _ => ⟨name, rfl, ?_⟩
        · exact extends_of_add fresh free extension fromMembers here
            (fun _ different => Definitions.entry?_fill_of_ne different) Definitions.entry?_fill_self rfl
            fun _ _ named => named
        · exact Option.isSome_iff_exists.2 ⟨_, Definitions.entry?_fill_self⟩

theorem expands_visit (expands : Expands w.catalog expand) : Expands w.catalog (w.visit expand) := by
  intro slot path defs sound
  cases isEnum : (w.catalog.get slot).members.isEnumeration with
  | true =>
      obtain ⟨listed, members⟩ := Members.eq_enumeration isEnum
      rw [visit_enumeration members]
      have notEntered : ¬ w.catalog.IsEntered slot := by
        rw [IsEntered, isEnum]
        exact Bool.noConfusion
      have lifted : Moves w.catalog (Reaches w.catalog (.declared slot)) (lift (TypeDef.enumeration listed))
          (fun _ _ => True) defs := .lift sound fun _ _ => trivial
      exact lifted.bind fun _ _ sound _ _ => .pure sound fun isEntered => absurd isEntered notEntered
  | false =>
      cases named : defs.nameOf? (w.catalog.id slot) with
      | some name =>
          obtain ⟨body, found⟩ := sound.named _ name named
          exact .of_ok (run_visit_named isEnum named) sound .refl fun _ =>
            ⟨name, rfl, Option.isSome_iff_exists.2 ⟨_, found⟩⟩
      | none =>
          exact (moves_enter expands sound path isEnum named).of_run_eq (run_visit_fresh isEnum named)

theorem expands_expand (fuel : Nat) : Expands w.catalog (w.expand fuel) := by
  induction fuel with
  | zero =>
      exact fun slot path defs sound => .throw sound
  | succ fuel inductionHypothesis =>
      exact expands_visit inductionHypothesis

/-- A name that is given stands in the table. -/
def Stands (result : Option String) (defs : Definitions) : Prop :=
  ∀ name, result = some name → defs.contains name = true

theorem moves_root (w : Introspection n) (sound : defs.Sound) (shape : Shape n) :
    Moves w.catalog (Reaches w.catalog shape) (w.root shape) Stands defs := by
  unfold root rootBy
  split
  · exact .pure sound fun _ given => nomatch given
  · next slot =>
    split
    next info members declared =>
    split
    · exact .throw sound
    · next notEnum =>
      refine (Moves.get sound).bind fun _ _ sound _ _ => ?_
      split
      · exact .of_error (run_bind_error rfl) sound .refl
      · have isEntered : w.catalog.IsEntered slot := by
          unfold IsEntered
          rw [declared]
          cases members with
          | record | union =>
              rfl
          | enumeration listed =>
              exact absurd rfl (notEnum listed)
        refine (expands_expand _ slot [] _ sound).bind fun t after sound _ names => .pure sound fun name given => ?_
        obtain ⟨itsName, rfl, present⟩ := names isEntered
        cases given
        exact present
  · exact .throw sound

end Introspection

end SchemaRpc
