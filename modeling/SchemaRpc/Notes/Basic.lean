import SchemaRpc.Entries
import SchemaRpc.Timestamp.Basic

/-!
# Notes

Notes, the changes that clients ask for, and the events that tell watchers about them.
-/

namespace SchemaRpc

structure Note where
  id : String
  title : String
  body : Option String
  tags : List String
  createdAt : Timestamp
  updatedAt : Timestamp
  /-- One more with every update. -/
  revision : UInt64
  deriving DecidableEq, Inhabited

structure NoteDraft where
  title : String
  body : Option String
  tags : List String
  deriving DecidableEq, Inhabited

/-- What becomes of a part that may be missing. -/
inductive Edit (α : Type) where
  | keep
  | clear
  | put (value : α)
  deriving DecidableEq, Inhabited

namespace Edit

def apply {α : Type} (old : Option α) : Edit α → Option α
  | keep => old
  | clear => none
  | put value => some value

end Edit

structure NoteChange where
  id : String
  title : Option String := none
  body : Edit String := .keep
  tags : Option (List String) := none
  deriving DecidableEq, Inhabited

namespace NoteChange

def apply (change : NoteChange) (now : Timestamp) (note : Note) : Note :=
  { note with
    title := change.title.getD note.title
    body := change.body.apply note.body
    tags := change.tags.getD note.tags
    updatedAt := now
    revision := note.revision + 1 }

end NoteChange

namespace Note

/-- A note has a tag; every note has the tag that is none. -/
def matchesTag (tag : Option String) (note : Note) : Bool :=
  tag.all note.tags.contains

end Note

inductive NoteEvent where
  | snapshot (notes : List Note)
  | created (note : Note)
  | updated (note : Note)
  | deleted (id : String)
  deriving DecidableEq, Inhabited

namespace NoteEvent

def apply (notes : Entries Note) : NoteEvent → Entries Note
  | snapshot all => Entries.ofPairs (all.map fun note => (note.id, note))
  | created note => notes.insert note.id note
  | updated note => notes.insert note.id note
  | deleted id => notes.erase id

def replay (notes : Entries Note) (events : List NoteEvent) : Entries Note :=
  events.foldl apply notes

/-- Whether a watcher with a tag is told of an event. A deletion has no tags left to look at. -/
def concerns (tag : Option String) : NoteEvent → Bool
  | snapshot _ => false
  | created note => note.matchesTag tag
  | updated note => note.matchesTag tag
  | deleted _ => true

theorem replay_append (notes : Entries Note) (first second : List NoteEvent) :
    replay notes (first ++ second) = replay (replay notes first) second :=
  List.foldl_append

end NoteEvent

end SchemaRpc
