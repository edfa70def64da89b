import SchemaRpc.App.Router
import SchemaRpc.Notes.Watch

/-!
# The notes service

The procedures of the service, and its guard: a request to a procedure of the notes must bear the token, if there is
one, and is refused before its params are looked at otherwise.
-/

namespace SchemaRpc

structure NotesContext where
  caller : Option String
  authorized : Bool
  deriving DecidableEq, Inhabited

structure NotesState where
  store : NoteStore := {}
  now : Timestamp
  /-- Events that are published and not yet delivered, oldest first. -/
  published : List NoteEvent := []

namespace Notes

abbrev NotesEndpoint := Endpoint NotesContext NotesState Watch

abbrev NotesApp := App NotesContext NotesState Watch

/-! ## Handlers -/

def noteNotFound (id : String) : RpcError :=
  ⟨404, "Note '" ++ id ++ "' not found", some (.obj [("id", .str id)])⟩

def blankTitle : RpcError :=
  { RpcError.badRequest "Title must not be empty" with data := some (.obj [("path", .str "/title")]) }

def carryOut (state : NotesState) (operation : NoteOperation) : Option NoteEvent × NotesState :=
  let (event, store) := state.store.perform state.now operation
  (event, { state with store, published := state.published ++ event.toList })

def noteResult (id : String) : Option NoteEvent → Ending Value
  | some (.created note) => .returned (noteDatum note).toValue
  | some (.updated note) => .returned (noteDatum note).toValue
  | _ => .failed (noteNotFound id)

def handle (type : NotesTy) (run : Datum → NotesState → Ending Value × NotesState) : NotesEndpoint :=
  .unary fun params _ state =>
    match Datum.ofValue types params type with
    | .error error => (.refused error, state)
    | .ok d =>
      let (ending, state) := run d state
      (.entered ending, state)

def sayHello : NotesEndpoint :=
  handle sayHelloParamsTy fun d state =>
    (.returned (Datum.record [("message", .string ("Hello " ++ textOf (fieldOf "name" d)))]).toValue, state)

def createNote : NotesEndpoint :=
  handle createNoteParamsTy fun d state =>
    let draft := draftOf d
    if Text.allBlank draft.title then (.failed blankTitle, state)
    else
      let (event, state) := carryOut state (.create draft)
      (noteResult "" event, state)

def getNote : NotesEndpoint :=
  handle noteParamsTy fun d state =>
    let id := textOf (fieldOf "id" d)
    match state.store.get? id with
    | some note => (.returned (noteDatum note).toValue, state)
    | none => (.failed (noteNotFound id), state)

def defaultPage : Nat := 50

def listNotes : NotesEndpoint :=
  handle listNotesParamsTy fun d state =>
    let notes := state.store.list ((inner? (fieldOf "tag" d)).map textOf)
    let offset := ((inner? (fieldOf "offset" d)).map numberOf).getD 0
    let limit := ((inner? (fieldOf "limit" d)).map numberOf).getD defaultPage
    (.returned (pageDatum ((notes.drop offset).take limit) (min notes.length (2 ^ 32 - 1))).toValue, state)

def updateNote : NotesEndpoint :=
  handle updateNoteParamsTy fun d state =>
    let change := changeOf d
    let (event, state) := carryOut state (.update change)
    (noteResult change.id event, state)

def deleteNote : NotesEndpoint :=
  handle noteParamsTy fun d state =>
    let id := textOf (fieldOf "id" d)
    match carryOut state (.delete id) with
    | (some _, state) => (.returned .absent, state)
    | (none, state) => (.failed (noteNotFound id), state)

def watchNotes : NotesEndpoint :=
  .stream fun params _ state =>
    match Datum.ofValue types params watchNotesParamsTy with
    | .error error => (.refused error, state)
    | .ok d => (.entered (Watch.on state.store ((inner? (fieldOf "tag" d)).map textOf)), state)

/-! ## The guard -/

def bearsToken (token : Option String) (request : Http.Request) : Bool :=
  token.all fun token => request.header? "authorization" == some ("Bearer " ++ token)

/-- Refuses requests to procedures of the notes from senders who are not authorized. -/
def guard : ContextHook NotesContext := fun _ name context =>
  if name.startsWith "notes." && !context.authorized then
    (.error (.unauthorized "Missing or invalid bearer token"), context)
  else (.ok (), context)

def hooks (token : Option String) : Hooks NotesContext where
  createContext request _ := .ok ⟨request.header? "x-caller", bearsToken token request⟩
  middleware := [guard]

/-! ## The application -/

structure Offer where
  name : String
  options : ProcedureOptions
  params : NotesTy
  response : NotesTy
  endpoint : NotesEndpoint

def offers : List Offer :=
  [{ name := "utils.sayHello"
     options := { method := some .get, description := some "Greet someone by name" }
     params := sayHelloParamsTy, response := sayHelloResponseTy, endpoint := sayHello },
    { name := "notes.createNote"
      options := { method := some .post }
      params := createNoteParamsTy, response := noteTy, endpoint := createNote },
    { name := "notes.getNote"
      options := { method := some .get }
      params := noteParamsTy, response := noteTy, endpoint := getNote },
    { name := "notes.listNotes"
      options := { method := some .get, description := some "Page through notes, optionally filtered by tag" }
      params := listNotesParamsTy, response := noteListTy, endpoint := listNotes },
    { name := "notes.updateNote"
      options := {}
      params := updateNoteParamsTy, response := noteTy, endpoint := updateNote },
    { name := "notes.deleteNote"
      options := { method := some .delete }
      params := noteParamsTy, response := .unit, endpoint := deleteNote },
    { name := "notes.watchNotes"
      options := { description := some "Snapshot followed by live changes" }
      params := watchNotesParamsTy, response := eventTy, endpoint := watchNotes }]

/-- Registers procedures up to the first that is refused. -/
def registerAll (app : NotesApp) : List Offer → Except RegistrationError NotesApp
  | [] => .ok app
  | offer :: rest =>
    match app.register types.shapes offer.name offer.options offer.params.shape offer.response.shape
      offer.endpoint with
    | (.ok _, app) => registerAll app rest
    | (.error error, _) => .error error

def build (options : AppOptions) (token : Option String) : Except RegistrationError NotesApp :=
  registerAll { options, hooks := hooks token } offers

end Notes

end SchemaRpc
