import SchemaRpc.Notes.Basic

/-!
# The note store

Notes by id. Each change of the store comes with the event that is to be published for it; a change that fails has
none and changes nothing.
-/

namespace SchemaRpc

/-- Notes in id order and the number of the next one. -/
structure NoteStore where
  notes : Entries Note := []
  nextId : UInt64 := 1
  deriving DecidableEq, Inhabited

namespace NoteStore

def idOf (number : UInt64) : String :=
  "n" ++ toString number.toNat

def draftNote (store : NoteStore) (draft : NoteDraft) (now : Timestamp) : Note :=
  { id := idOf store.nextId
    title := draft.title
    body := draft.body
    tags := draft.tags
    createdAt := now
    updatedAt := now
    revision := 1 }

/-- Stores a new note under an id that was never used before. -/
def create (store : NoteStore) (draft : NoteDraft) (now : Timestamp) : Note × NoteStore :=
  let note := store.draftNote draft now
  (note, ⟨store.notes.insert note.id note, store.nextId + 1⟩)

def get? (store : NoteStore) (id : String) : Option Note :=
  store.notes.find? id

def list (store : NoteStore) (tag : Option String) : List Note :=
  (List.map Prod.snd store.notes).filter (Note.matchesTag tag)

def update? (store : NoteStore) (change : NoteChange) (now : Timestamp) : Option (Note × NoteStore) :=
  (store.get? change.id).map fun note =>
    let note := change.apply now note
    (note, { store with notes := store.notes.insert change.id note })

def delete? (store : NoteStore) (id : String) : Option NoteStore :=
  if store.notes.contains id then some { store with notes := store.notes.erase id } else none

end NoteStore

inductive NoteOperation where
  | create (draft : NoteDraft)
  | update (change : NoteChange)
  | delete (id : String)
  deriving DecidableEq, Inhabited

namespace NoteStore

/-- Carries out an operation: the event to publish, if it succeeds, and the store after it. -/
def perform (store : NoteStore) (now : Timestamp) : NoteOperation → Option NoteEvent × NoteStore
  | .create draft =>
    let (note, store) := store.create draft now
    (some (.created note), store)
  | .update change =>
    match store.update? change now with
    | some (note, store) => (some (.updated note), store)
    | none => (none, store)
  | .delete id =>
    match store.delete? id with
    | some store => (some (.deleted id), store)
    | none => (none, store)

end NoteStore

end SchemaRpc
