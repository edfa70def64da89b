import SchemaRpc.Notes.Store

/-!
# What operations do to the notes

An operation on the notes ends in one of five ways (`NoteStore.Does`): a note is created, changed or taken out, or there
is no note under the id. Each of them goes with what the caller is told, the event that is published, and the store
afterwards.
-/

namespace SchemaRpc

/-- What a caller is told: a note if there is one, whether there was one to take out, or the notes. -/
inductive NoteAnswer where
  | note (note? : Option Note)
  | removed (done : Bool)
  | notes (listed : List Note)
  deriving DecidableEq

namespace NoteStore

/-- What the caller of an operation is told. -/
def answer (store : NoteStore) (now : Timestamp) : NoteOperation → NoteAnswer
  | .create draft => .note (some (store.create draft now).1)
  | .update change => .note ((store.update? change now).map Prod.fst)
  | .delete id => .removed (store.delete? id).isSome

/-- How an operation can end: with an answer, with an event unless it fails, and with a store. -/
inductive Does (store : NoteStore) (now : Timestamp) :
    NoteOperation → NoteAnswer → Option NoteEvent → NoteStore → Prop
  | created (draft : NoteDraft) :
      Does store now (.create draft) (.note (some (store.draftNote draft now)))
        (some (.created (store.draftNote draft now)))
        ⟨store.notes.insert (idOf store.nextId) (store.draftNote draft now), store.nextId + 1⟩
  | updated {change : NoteChange} {note : Note} :
      store.get? change.id = some note →
      Does store now (.update change) (.note (some (change.apply now note))) (some (.updated (change.apply now note)))
        { store with notes := store.notes.insert change.id (change.apply now note) }
  | noneToUpdate {change : NoteChange} :
      store.get? change.id = none →
      Does store now (.update change) (.note none) none store
  | deleted {id : String} {note : Note} :
      store.get? id = some note →
      Does store now (.delete id) (.removed true) (some (.deleted id)) { store with notes := store.notes.erase id }
  | noneToDelete {id : String} :
      store.get? id = none →
      Does store now (.delete id) (.removed false) none store

theorem does (store : NoteStore) (now : Timestamp) (operation : NoteOperation) :
    store.Does now operation (store.answer now operation) (store.perform now operation).1
      (store.perform now operation).2 := by
  cases operation with
  | create draft =>
      exact .created draft
  | update change =>
      cases found : store.get? change.id with
      | none =>
          have refused : store.update? change now = none := by
            rw [update?, found, Option.map_none]
          rw [answer, perform, refused]
          exact .noneToUpdate found
      | some note =>
          have done : store.update? change now = some (change.apply now note,
              { store with notes := store.notes.insert change.id (change.apply now note) }) := by
            rw [update?, found, Option.map_some]
          rw [answer, perform, done]
          exact .updated found
  | delete id =>
      cases found : store.get? id with
      | none =>
          have refused : store.delete? id = none := by
            rw [delete?, Entries.contains, ← get?, found]
            rfl
          rw [answer, perform, refused]
          exact .noneToDelete found
      | some note =>
          have done : store.delete? id = some { store with notes := store.notes.erase id } := by
            rw [delete?, Entries.contains, ← get?, found]
            rfl
          rw [answer, perform, done]
          exact .deleted found

end NoteStore

end SchemaRpc
