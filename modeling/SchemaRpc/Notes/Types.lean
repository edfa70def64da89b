import SchemaRpc.Notes.Basic
import SchemaRpc.Typed.Reading
import SchemaRpc.Typed.Source

/-!
# The types of the notes service

What the procedures of the service take and give, as declared types, and the data of these types.
-/

namespace SchemaRpc.Notes

abbrev typeCount : Nat := 10

abbrev NotesTy := Ty typeCount

def noteTy : NotesTy := .declared 0

def eventTy : NotesTy := .declared 1

def sayHelloParamsTy : NotesTy := .declared 2

def sayHelloResponseTy : NotesTy := .declared 3

def createNoteParamsTy : NotesTy := .declared 4

def noteParamsTy : NotesTy := .declared 5

def listNotesParamsTy : NotesTy := .declared 6

def noteListTy : NotesTy := .declared 7

def updateNoteParamsTy : NotesTy := .declared 8

def watchNotesParamsTy : NotesTy := .declared 9

def plainField (ident : String) (type : NotesTy) : FieldSource typeCount :=
  { ident, type }

def sources : Vector (TypeSource typeCount) typeCount := #v[
  { ident := "Note"
    comment := [" A stored note."]
    body := .fields
      [plainField "id" .string, plainField "title" .string, plainField "body" (.option .string),
        { ident := "tags", type := .list .string, comment := [" Free-form labels."] },
        plainField "created_at" .timestamp, plainField "updated_at" .timestamp,
        { ident := "revision", type := .int .uint64, comment := [" Incremented on every update."] }] },
  { ident := "NoteEvent"
    renameAll := some .screamingSnake
    comment := [" Change notification emitted by `notes.watchNotes`."]
    body := .variants
      [{ ident := "Snapshot"
         fields := some [plainField "notes" (.list noteTy)]
         comment := [" Current contents, sent once when the stream opens."] },
        { ident := "Created", fields := some [plainField "note" noteTy] },
        { ident := "Updated", fields := some [plainField "note" noteTy] },
        { ident := "Deleted", fields := some [plainField "id" .string] }] },
  { ident := "SayHelloParams", body := .fields [plainField "name" .string] },
  { ident := "SayHelloResponse", body := .fields [plainField "message" .string] },
  { ident := "CreateNoteParams"
    body := .fields
      [plainField "title" .string, plainField "body" (.optional .string),
        plainField "tags" (.optional (.list .string))] },
  { ident := "NoteParams", body := .fields [plainField "id" .string] },
  { ident := "ListNotesParams"
    body := .fields
      [plainField "tag" (.optional .string), plainField "offset" (.optional (.int .uint32)),
        plainField "limit" (.optional (.int .uint32))] },
  { ident := "NoteList"
    body := .fields [plainField "items" (.list noteTy), plainField "total" (.int .uint32)] },
  { ident := "UpdateNoteParams"
    comment := [" Absent fields are left untouched; `body: null` clears the body."]
    body := .fields
      [plainField "id" .string, plainField "title" (.optional .string), plainField "body" (.field .string),
        plainField "tags" (.optional (.list .string))] },
  { ident := "WatchNotesParams"
    body := .fields
      [{ ident := "tag", type := .optional .string
         comment := [" Only forward changes to notes carrying this tag."] }] }]

def types : TypeCatalog typeCount :=
  sources.mapFinIdx fun i source _ => source.declaration i

/-! ## Data that is given -/

def optionDatum : Option String → Datum
  | none => .null
  | some s => .present (.string s)

def noteDatum (note : Note) : Datum :=
  .record
    [("id", .string note.id), ("title", .string note.title), ("body", optionDatum note.body),
      ("tags", .list (note.tags.map .string)), ("created_at", .timestamp note.createdAt),
      ("updated_at", .timestamp note.updatedAt), ("revision", .unsigned note.revision)]

def eventDatum : NoteEvent → Datum
  | .snapshot notes => .variant "SNAPSHOT" [("notes", .list (notes.map noteDatum))]
  | .created note => .variant "CREATED" [("note", noteDatum note)]
  | .updated note => .variant "UPDATED" [("note", noteDatum note)]
  | .deleted id => .variant "DELETED" [("id", .string id)]

def pageDatum (items : List Note) (total : Nat) : Datum :=
  .record [("items", .list (items.map noteDatum)), ("total", .unsigned (UInt64.ofNat total))]

/-! ## Data that is taken -/

def fieldOf (name : String) : Datum → Datum
  | .record fields => (fields.lookup name).getD .absent
  | _ => .absent

def textOf : Datum → String
  | .string s => s
  | _ => ""

def textsOf : Datum → List String
  | .list items => items.map textOf
  | _ => []

def numberOf : Datum → Nat
  | .unsigned n => n.toNat
  | _ => 0

def inner? : Datum → Option Datum
  | .present d => some d
  | _ => none

def draftOf (d : Datum) : NoteDraft where
  title := textOf (fieldOf "title" d)
  body := (inner? (fieldOf "body" d)).map textOf
  tags := ((inner? (fieldOf "tags" d)).map textsOf).getD []

def editOf : Datum → Edit String
  | .null => .clear
  | .present d => .put (textOf d)
  | _ => .keep

def changeOf (d : Datum) : NoteChange where
  id := textOf (fieldOf "id" d)
  title := (inner? (fieldOf "title" d)).map textOf
  body := editOf (fieldOf "body" d)
  tags := (inner? (fieldOf "tags" d)).map textsOf

end SchemaRpc.Notes
