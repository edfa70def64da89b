import Mathlib.Data.List.Induction
import Mathlib.Data.List.Nodup
import SchemaRpc.Notes.Service
import SchemaRpc.Proofs.Decimal.Digits
import SchemaRpc.Proofs.Notes.Events

/-!
# Runs of the note store

Calls are made one after the other, from a new store on, and a log keeps what each caller was told (`NoteHistory`). The log
accounts for all that there is (`NoteHistory.Faithful`): the ids that were given out, what every note has become since its
creation, and the events, one for every call that has changed something. This is the invariant of the runs, for as long as
the counters of ids and of revisions cannot wrap.
-/

namespace SchemaRpc

inductive NoteCall where
  | change (operation : NoteOperation)
  | get (id : String)
  | list (tag : Option String)
  deriving DecidableEq

namespace NoteOperation

/-- The note that has to be there for an operation to succeed. -/
def target? : NoteOperation → Option String
  | create _ => none
  | update change => some change.id
  | delete id => some id

end NoteOperation

/-- A call, the time at which it was made, and what its caller was told. -/
structure AnsweredCall where
  now : Timestamp
  call : NoteCall
  answer : NoteAnswer
  deriving DecidableEq

namespace AnsweredCall

/-- The note that a call has created, as its caller was told. -/
def created? : AnsweredCall → Option Note
  | ⟨_, .change (.create _), .note (some note)⟩ => some note
  | _ => none

/-- The change of a note that a call has made. -/
def changed? : AnsweredCall → Option NoteChange
  | ⟨_, .change (.update change), .note (some _)⟩ => some change
  | _ => none

/-- The event that is due for a call: one if it has created, changed or taken out a note. -/
def event? : AnsweredCall → Option NoteEvent
  | ⟨_, .change (.create _), .note (some note)⟩ => some (.created note)
  | ⟨_, .change (.update _), .note (some note)⟩ => some (.updated note)
  | ⟨_, .change (.delete id), .removed true⟩ => some (.deleted id)
  | _ => none

end AnsweredCall

/-! ## What a log tells -/

section Logs

variable {log : List AnsweredCall} {entry : AnsweredCall}

theorem filterMap_append_singleton {α β : Type} (f : α → Option β) (items : List α) (item : α) :
    (items ++ [item]).filterMap f = items.filterMap f ++ (f item).toList := by
  rw [List.filterMap_append]
  cases given : f item <;> simp [given]

/-- The ids that were given out, in order. -/
def createdIds (log : List AnsweredCall) : List String :=
  (log.filterMap AnsweredCall.created?).map Note.id

/-- The changes that were made to a note, in order. -/
def changesOf (id : String) (log : List AnsweredCall) : List NoteChange :=
  (log.filterMap AnsweredCall.changed?).filter fun change => change.id = id

theorem createdIds_append :
    createdIds (log ++ [entry]) = createdIds log ++ entry.created?.toList.map Note.id := by
  rw [createdIds, filterMap_append_singleton, List.map_append]
  rfl

theorem changesOf_append (id : String) :
    changesOf id (log ++ [entry]) =
      changesOf id log ++ entry.changed?.toList.filter fun change => change.id = id := by
  rw [changesOf, filterMap_append_singleton, List.filter_append]
  rfl

theorem createdIds_append_of_none (noneCreated : entry.created? = none) : createdIds (log ++ [entry]) = createdIds log := by
  rw [createdIds_append, noneCreated]
  exact List.append_nil _

theorem changesOf_append_of_none (noneChanged : entry.changed? = none) (id : String) :
    changesOf id (log ++ [entry]) = changesOf id log := by
  rw [changesOf_append, noneChanged]
  exact List.append_nil _

theorem length_changesOf_le (id : String) : (changesOf id log).length ≤ log.length :=
  Nat.le_trans (List.length_filter_le _ _) (List.length_filterMap_le _ _)

theorem length_createdIds_le : (createdIds log).length ≤ log.length := by
  rw [createdIds, List.length_map]
  exact List.length_filterMap_le _ _

end Logs

namespace Edit

/-- What an edit sets, if it does not leave things as they are. -/
def put? {α : Type} : Edit α → Option (Option α)
  | keep => none
  | clear => some none
  | put value => some (some value)

theorem apply_eq {α : Type} (old : Option α) (edit : Edit α) : edit.apply old = edit.put?.getD old := by
  cases edit <;> rfl

end Edit

/-- What the last change says of a part that it sets. -/
def lastPut? {α : Type} (part? : NoteChange → Option α) (changes : List NoteChange) : Option α :=
  (changes.filterMap part?).getLast?

theorem lastPut?_append {α : Type} (part? : NoteChange → Option α) (changes : List NoteChange) (change : NoteChange) :
    lastPut? part? (changes ++ [change]) = (part? change).or (lastPut? part? changes) := by
  rw [lastPut?, filterMap_append_singleton, List.getLast?_append]
  cases part? change <;> rfl

/-- A note is what a creation at some time and changes after it have made. -/
structure MadeBy (now : Timestamp) (draft : NoteDraft) (changes : List NoteChange) (note : Note) : Prop where
  title : note.title = (lastPut? NoteChange.title changes).getD draft.title
  body : note.body = (lastPut? (fun change => change.body.put?) changes).getD draft.body
  tags : note.tags = (lastPut? NoteChange.tags changes).getD draft.tags
  createdAt : note.createdAt = now
  revision : note.revision.toNat = 1 + changes.length

namespace MadeBy

variable {now : Timestamp} {draft : NoteDraft} {changes : List NoteChange} {note : Note}

theorem created (store : NoteStore) (draft : NoteDraft) (now : Timestamp) :
    MadeBy now draft [] (store.draftNote draft now) where
  title := rfl
  body := rfl
  tags := rfl
  createdAt := rfl
  revision := rfl

theorem changed (madeBy : MadeBy now draft changes note) (change : NoteChange) (later : Timestamp)
    (fits : changes.length + 2 < 2 ^ 64) : MadeBy now draft (changes ++ [change]) (change.apply later note) where
  title := by
    rw [lastPut?_append, Option.getD_or, ← madeBy.title]
    rfl
  body := by
    rw [lastPut?_append, Option.getD_or, ← madeBy.body, ← Edit.apply_eq]
    rfl
  tags := by
    rw [lastPut?_append, Option.getD_or, ← madeBy.tags]
    rfl
  createdAt := madeBy.createdAt
  revision := by
    show (note.revision + 1).toNat = 1 + (changes ++ [change]).length
    rw [UInt64.toNat_add, madeBy.revision, List.length_append, List.length_singleton]
    exact Nat.mod_eq_of_lt (by rw [UInt64.toNat_one]; omega)

end MadeBy

/-! ## The invariant of the store -/

/-- A log accounts for the notes of a store. -/
structure Accounts (log : List AnsweredCall) (store : NoteStore) : Prop where
  next : store.nextId.toNat = (createdIds log).length + 1
  /-- Ids are numbers, counted up from one. -/
  ids : createdIds log = (List.range (createdIds log).length).map fun index => "n" ++ toString (index + 1)
  known : ∀ id, changesOf id log ≠ [] → id ∈ createdIds log
  stored : ∀ id note, store.get? id = some note →
    ∃ now draft first, ⟨now, .change (.create draft), .note (some first)⟩ ∈ log ∧ first.id = id ∧
      MadeBy now draft (changesOf id log) note

namespace Accounts

variable {log : List AnsweredCall} {store store' : NoteStore} {entry : AnsweredCall} {now : Timestamp}

theorem new : Accounts [] {} where
  next := rfl
  ids := rfl
  known _ changed := absurd rfl changed
  stored _ _ found := nomatch found

theorem mem_createdIds_of_stored (accounts : Accounts log store) {id : String} {note : Note}
    (found : store.get? id = some note) : id ∈ createdIds log := by
  obtain ⟨_, _, first, logged, rfl, _⟩ := accounts.stored id note found
  exact List.mem_map_of_mem (List.mem_filterMap.2 ⟨_, logged, rfl⟩)

/-- The digits of a number tell which number it is. -/
theorem eq_of_repr_eq {m n : Nat} (same : m.repr = n.repr) : m = n := by
  have read := (Decimal.readInt?_natural m).symm.trans
    ((congrArg Decimal.readInt? same).trans (Decimal.readInt?_natural n))
  exact Int.ofNat.inj (Option.some.inj read)

theorem nodup (accounts : Accounts log store) : (createdIds log).Nodup := by
  rw [accounts.ids]
  refine List.nodup_range.map fun first second same => ?_
  exact Nat.succ.inj (eq_of_repr_eq ((String.append_right_inj _).1 same))

/-- The next id is none of those that were given out. -/
theorem fresh (accounts : Accounts log store) : NoteStore.idOf store.nextId ∉ createdIds log := by
  rw [accounts.ids, List.mem_map]
  rintro ⟨index, inRange, same⟩
  have number : index + 1 = store.nextId.toNat := eq_of_repr_eq ((String.append_right_inj _).1 same)
  have below := List.mem_range.1 inRange
  have next := accounts.next
  omega

/-- Calls that create no note and change none need nothing new to be said of the notes that stay. -/
theorem quiet (accounts : Accounts log store) (noneCreated : entry.created? = none) (noneChanged : entry.changed? = none)
    (sameNext : store'.nextId = store.nextId)
    (stays : ∀ id note, store'.get? id = some note → store.get? id = some note) : Accounts (log ++ [entry]) store' := by
  have sameIds : createdIds (log ++ [entry]) = createdIds log := createdIds_append_of_none noneCreated
  have sameChanges : ∀ id, changesOf id (log ++ [entry]) = changesOf id log := changesOf_append_of_none noneChanged
  constructor
  case next =>
    rw [sameNext, sameIds]
    exact accounts.next
  case ids =>
    rw [sameIds]
    exact accounts.ids
  case known =>
    intro id changed
    rw [sameChanges] at changed
    rw [sameIds]
    exact accounts.known id changed
  case stored =>
    intro id note found
    obtain ⟨time, draft, first, logged, sameId, madeBy⟩ := accounts.stored id note (stays id note found)
    rw [sameChanges]
    exact ⟨time, draft, first, List.mem_append_left _ logged, sameId, madeBy⟩

theorem created (accounts : Accounts log store) (draft : NoteDraft) (fits : log.length + 2 < 2 ^ 64) :
    Accounts (log ++ [⟨now, .change (.create draft), .note (some (store.draftNote draft now))⟩])
      ⟨store.notes.insert (NoteStore.idOf store.nextId) (store.draftNote draft now), store.nextId + 1⟩ := by
  generalize isEntry : AnsweredCall.mk now (.change (.create draft)) (.note (some (store.draftNote draft now))) = entry
  have oneMore : createdIds (log ++ [entry]) = createdIds log ++ [NoteStore.idOf store.nextId] := by
    rw [createdIds_append, ← isEntry]
    rfl
  have sameChanges : ∀ id, changesOf id (log ++ [entry]) = changesOf id log :=
    changesOf_append_of_none (isEntry ▸ rfl)
  have number : (store.nextId + 1).toNat = store.nextId.toNat + 1 := by
    have bound : (createdIds log).length ≤ log.length := length_createdIds_le
    rw [UInt64.toNat_add, accounts.next]
    exact Nat.mod_eq_of_lt (by rw [UInt64.toNat_one]; omega)
  constructor
  case next =>
    rw [number, accounts.next, oneMore, List.length_append]
    rfl
  case ids =>
    rw [oneMore, List.length_append, List.length_singleton, List.range_succ, List.map_append, ← accounts.ids]
    refine congrArg (createdIds log ++ [·]) ?_
    show "n" ++ toString store.nextId.toNat = _
    rw [accounts.next]
  case known =>
    intro id changed
    rw [sameChanges] at changed
    rw [oneMore]
    exact List.mem_append_left _ (accounts.known id changed)
  case stored =>
    intro id note found
    rw [sameChanges]
    by_cases isNew : id = NoteStore.idOf store.nextId
    · subst isNew
      cases (Entries.find?_insert_self _ _ _).symm.trans found
      -- no change was made to it: its id was given to no note before
      have unchanged : changesOf (NoteStore.idOf store.nextId) log = [] :=
        Decidable.byContradiction fun changed => accounts.fresh (accounts.known _ changed)
      rw [unchanged]
      exact ⟨now, draft, _, List.mem_append_right _ (List.mem_singleton.2 isEntry), rfl, .created store draft now⟩
    · rw [NoteStore.get?, Entries.find?_insert_of_ne isNew] at found
      obtain ⟨time, before, first, logged, sameId, madeBy⟩ := accounts.stored id note found
      exact ⟨time, before, first, List.mem_append_left _ logged, sameId, madeBy⟩

theorem updated (accounts : Accounts log store) {change : NoteChange} {note : Note}
    (found : store.get? change.id = some note) (fits : log.length + 2 < 2 ^ 64) :
    Accounts (log ++ [⟨now, .change (.update change), .note (some (change.apply now note))⟩])
      { store with notes := store.notes.insert change.id (change.apply now note) } := by
  generalize isEntry : AnsweredCall.mk now (.change (.update change)) (.note (some (change.apply now note))) = entry
  have sameIds : createdIds (log ++ [entry]) = createdIds log := createdIds_append_of_none (isEntry ▸ rfl)
  have oneMore : changesOf change.id (log ++ [entry]) = changesOf change.id log ++ [change] := by
    rw [changesOf_append, ← isEntry]
    simp [AnsweredCall.changed?]
  have sameChanges {id : String} (other : id ≠ change.id) : changesOf id (log ++ [entry]) = changesOf id log := by
    rw [changesOf_append, ← isEntry]
    simp [AnsweredCall.changed?, Ne.symm other]
  constructor
  case next =>
    rw [sameIds]
    exact accounts.next
  case ids =>
    rw [sameIds]
    exact accounts.ids
  case known =>
    intro id changed
    rw [sameIds]
    by_cases same : id = change.id
    · rw [same]
      exact accounts.mem_createdIds_of_stored found
    · rw [sameChanges same] at changed
      exact accounts.known id changed
  case stored =>
    intro id stored isStored
    by_cases same : id = change.id
    · subst same
      cases (Entries.find?_insert_self _ _ _).symm.trans isStored
      obtain ⟨time, draft, first, logged, sameId, madeBy⟩ := accounts.stored change.id note found
      have bound : (changesOf change.id log).length ≤ log.length := length_changesOf_le change.id
      rw [oneMore]
      exact ⟨time, draft, first, List.mem_append_left _ logged, sameId, madeBy.changed change now (by omega)⟩
    · rw [NoteStore.get?, Entries.find?_insert_of_ne same] at isStored
      obtain ⟨time, draft, first, logged, sameId, madeBy⟩ := accounts.stored id stored isStored
      rw [sameChanges same]
      exact ⟨time, draft, first, List.mem_append_left _ logged, sameId, madeBy⟩

/-- Whatever an operation does, the log accounts for it. -/
theorem does {operation : NoteOperation} {answer : NoteAnswer} {event? : Option NoteEvent} (accounts : Accounts log store)
    (filed : store.Filed) (fits : log.length + 2 < 2 ^ 64)
    (does : store.Does now operation answer event? store') :
    Accounts (log ++ [⟨now, .change operation, answer⟩]) store' := by
  cases does with
  | created draft =>
      exact accounts.created draft fits
  | updated found =>
      exact accounts.updated found fits
  | @deleted id _ found =>
      refine accounts.quiet rfl rfl rfl fun other note stays => ?_
      by_cases same : other = id
      · rw [same, NoteStore.get?, Entries.find?_erase_self _ filed.ascending] at stays
        cases stays
      · rw [NoteStore.get?, Entries.find?_erase_of_ne same] at stays
        exact stays
  | noneToUpdate | noneToDelete =>
      exact accounts.quiet rfl rfl rfl fun _ _ stays => stays

end Accounts

/-- The event of an operation is the one that is due for what its caller is told. -/
theorem NoteStore.Does.event? {store store' : NoteStore} {now : Timestamp} {operation : NoteOperation}
    {answer : NoteAnswer} {published : Option NoteEvent} (does : store.Does now operation answer published store') :
    AnsweredCall.event? ⟨now, .change operation, answer⟩ = published := by
  cases does <;> rfl

/-! ## Runs -/

namespace NoteCall

/-- What the caller is told, and the state after the call. -/
def answer (state : NotesState) : NoteCall → NoteAnswer × NotesState
  | change operation => (state.store.answer state.now operation, (Notes.carryOut state operation).2)
  | get id => (.note (state.store.get? id), state)
  | list tag => (.notes (state.store.list tag), state)

end NoteCall

/-- A state of the service and the calls that have led there. -/
structure NoteHistory where
  state : NotesState
  log : List AnsweredCall := []

namespace NoteHistory

/-- One more call, at some time. -/
def call (history : NoteHistory) (now : Timestamp) (call : NoteCall) : NoteHistory :=
  let (answer, state) := call.answer { history.state with now }
  ⟨state, history.log ++ [⟨now, call, answer⟩]⟩

/-- Calls one after the other. -/
def calls (history : NoteHistory) (made : List (Timestamp × NoteCall)) : NoteHistory :=
  made.foldl (fun history (now, call) => history.call now call) history

/-- Nothing was ever called. -/
def new (now : Timestamp) : NoteHistory :=
  { state := { now } }

theorem calls_append (history : NoteHistory) (made : List (Timestamp × NoteCall)) (now : Timestamp) (call : NoteCall) :
    history.calls (made ++ [(now, call)]) = (history.calls made).call now call :=
  List.foldl_append

theorem length_log_calls (history : NoteHistory) (made : List (Timestamp × NoteCall)) :
    (history.calls made).log.length = history.log.length + made.length := by
  induction made using List.reverseRecOn with
  | nil =>
      rfl
  | append_singleton made last inductionHypothesis =>
      rw [calls_append, call, List.length_append, inductionHypothesis, List.length_append]
      rfl

structure Sound (history : NoteHistory) : Prop where
  filed : history.state.store.Filed
  accounts : Accounts history.log history.state.store
  published : history.state.published = history.log.filterMap AnsweredCall.event?
  replayed : NoteEvent.replay [] history.state.published = history.state.store.notes

theorem sound_new (now : Timestamp) : (new now).Sound where
  filed := NoteStore.filed_new
  accounts := .new
  published := rfl
  replayed := rfl

variable {history : NoteHistory}

/-- A call that only looks leaves all as it is. -/
theorem Sound.looked (sound : history.Sound) {now : Timestamp} {call : NoteCall} {answer : NoteAnswer}
    (noneCreated : AnsweredCall.created? ⟨now, call, answer⟩ = none)
    (noneChanged : AnsweredCall.changed? ⟨now, call, answer⟩ = none)
    (noEvent : AnsweredCall.event? ⟨now, call, answer⟩ = none) :
    Sound ⟨{ history.state with now }, history.log ++ [⟨now, call, answer⟩]⟩ where
  filed := sound.filed
  accounts := sound.accounts.quiet noneCreated noneChanged rfl fun _ _ stays => stays
  published := by
    rw [filterMap_append_singleton, ← sound.published, noEvent]
    exact (List.append_nil _).symm
  replayed := sound.replayed

theorem Sound.call (sound : history.Sound) (now : Timestamp) (call : NoteCall) (fits : history.log.length + 2 < 2 ^ 64) :
    (history.call now call).Sound := by
  cases call with
  | get id =>
      exact sound.looked rfl rfl rfl
  | list tag =>
      exact sound.looked rfl rfl rfl
  | change operation =>
      have does := history.state.store.does now operation
      have performs := history.state.store.performs sound.filed now operation
      constructor
      case filed =>
        exact performs.filed sound.filed
      case accounts =>
        exact sound.accounts.does sound.filed fits does
      case published =>
        show history.state.published ++ (history.state.store.perform now operation).1.toList = _
        rw [sound.published, ← does.event?]
        exact (filterMap_append_singleton _ _ _).symm
      case replayed =>
        show NoteEvent.replay [] (history.state.published ++ (history.state.store.perform now operation).1.toList) = _
        rw [NoteEvent.replay_append, sound.replayed]
        exact performs.notes.symm

theorem sound_calls (now : Timestamp) (made : List (Timestamp × NoteCall)) (short : made.length < 2 ^ 64 - 1) :
    ((new now).calls made).Sound := by
  induction made using List.reverseRecOn with
  | nil =>
      exact sound_new now
  | append_singleton made last inductionHypothesis =>
      rw [List.length_append, List.length_singleton] at short
      rw [calls_append]
      refine (inductionHypothesis (by omega)).call _ _ ?_
      rw [length_log_calls]
      show 0 + made.length + 2 < 2 ^ 64
      omega

/-- The log tells all there is to tell of the notes and of the events. -/
structure Faithful (history : NoteHistory) : Prop where
  /-- No id is given out twice, whatever has become of its note. -/
  distinct : (createdIds history.log).Nodup
  filed : ∀ entry ∈ history.state.store.notes, entry.2.id = entry.1
  /-- A note is what its creation and all later changes of it have made. -/
  stored : ∀ id note, history.state.store.get? id = some note →
    ∃ now draft first, ⟨now, .change (.create draft), .note (some first)⟩ ∈ history.log ∧ first.id = id ∧
      MadeBy now draft (changesOf id history.log) note
  /-- What is asked of a note that is not there comes to nothing. -/
  unknown : ∀ now operation id, operation.target? = some id → history.state.store.get? id = none →
    (history.call now (.change operation)).state = { history.state with now }
  published : history.state.published = history.log.filterMap AnsweredCall.event?
  replayed : NoteEvent.replay [] history.state.published = history.state.store.notes

/-- An operation on a note that is not there changes nothing and publishes nothing. -/
theorem state_call_of_unknown (history : NoteHistory) (now : Timestamp) {operation : NoteOperation} {id : String}
    (target : operation.target? = some id) (unknown : history.state.store.get? id = none) :
    (history.call now (.change operation)).state = { history.state with now } := by
  have does := history.state.store.does now operation
  have nothing : history.state.store.perform now operation = (none, history.state.store) := by
    generalize history.state.store.answer now operation = answer,
      history.state.store.perform now operation = performed at does
    obtain ⟨event?, store'⟩ := performed
    dsimp only at does
    cases does with
    | created draft =>
        cases target
    | updated found | deleted found =>
        cases target
        cases unknown.symm.trans found
    | noneToUpdate | noneToDelete =>
        rfl
  show { history.state with
    now
    store := (history.state.store.perform now operation).2
    published := history.state.published ++ (history.state.store.perform now operation).1.toList } = _
  rw [nothing]
  exact congrArg (NotesState.mk history.state.store now) (List.append_nil _)

/-- Runs of the note store are faithful, as long as its counters cannot wrap. -/
theorem faithful_calls (now : Timestamp) (made : List (Timestamp × NoteCall)) (short : made.length < 2 ^ 64 - 1) :
    ((new now).calls made).Faithful := by
  have sound := sound_calls now made short
  exact {
    distinct := sound.accounts.nodup
    filed := sound.filed.ids
    stored := sound.accounts.stored
    unknown := fun now _ _ target unknown => state_call_of_unknown _ now target unknown
    published := sound.published
    replayed := sound.replayed }

section Example

/-- A note is made, loses its body and is taken out; its update is refused then, and another note takes its place. -/
def shortLife : List (Timestamp × NoteCall) :=
  [(⟨0, 0⟩, .change (.create ⟨"milk", some "two", ["home"]⟩)),
    (⟨1, 0⟩, .change (.update { id := "n1", body := .clear })),
    (⟨2, 0⟩, .get "n1"),
    (⟨3, 0⟩, .change (.delete "n1")),
    (⟨4, 0⟩, .change (.update { id := "n1", title := some "bread" })),
    (⟨5, 0⟩, .change (.create ⟨"bread", none, []⟩)),
    (⟨6, 0⟩, .change (.update { id := "n2", tags := some ["home"] })),
    (⟨7, 0⟩, .list (some "home"))]

theorem faithful_shortLife :
    shortLife.length < 2 ^ 64 - 1 ∧
      createdIds ((new ⟨0, 0⟩).calls shortLife).log = ["n1", "n2"] ∧
      ((new ⟨0, 0⟩).calls shortLife).state.published.length = 5 ∧
      ((new ⟨0, 0⟩).calls shortLife).Faithful := by
  have short : shortLife.length < 2 ^ 64 - 1 := by decide
  exact ⟨short, by decide, by decide, faithful_calls ⟨0, 0⟩ shortLife short⟩

end Example

end NoteHistory

end SchemaRpc
