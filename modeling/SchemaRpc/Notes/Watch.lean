import SchemaRpc.EventStream.Session.Basic
import SchemaRpc.Notes.Store
import SchemaRpc.Notes.Types

/-!
# Watching notes

The handler of a watch pushes the contents once and then every event that concerns its tag, until the stream is
closed. Events wait in a mailbox that keeps the newest.
-/

namespace SchemaRpc

/-- How many events wait for a watcher; of more the oldest are lost. -/
def feedCapacity : Nat := 256

/-- A watch on notes with a tag, or on all. -/
structure Watch where
  tag : Option String
  notes : List Note
  deriving DecidableEq, Inhabited

namespace Watch

def on (store : NoteStore) (tag : Option String) : Watch :=
  ⟨tag, store.list tag⟩

def push (event : NoteEvent) : Move :=
  .push (Notes.eventDatum event).toValue

/-- What the watch does after a reply. A failed push ends it with the failure. -/
def move (watch : Watch) : Reply NoteEvent → Move
  | .entered => push (.snapshot watch.notes)
  | .pushed (.error error) => .finish (.failed error.toRpcError)
  | .done => .finish (.returned ())
  | .received event => if event.concerns watch.tag then push event else .receive true
  | _ => .receive true

def next (watch : Watch) (reply : Reply NoteEvent) : Watch × Move :=
  (watch, watch.move reply)

end Watch

end SchemaRpc
