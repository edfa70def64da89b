import SchemaRpc.EventStream.Basic
import SchemaRpc.Proofs.Json.Written

/-!
# Reading an event stream back

How a client reads the body of an event stream by the rules of server-sent events (`EventReader.read?`): lines are ended
by LF, CR or CRLF, an empty line ends an event, `event` gives its name and `data` a line of its data. Frames whose texts
have no line break are read back one by one (`Frame.read?_body`).
-/

namespace SchemaRpc

namespace EventReader

/-- What a client is told: the name of an event and its data. -/
structure Event where
  name : String
  data : String
  deriving DecidableEq

/-- The fields of an event that has not ended yet. -/
structure Draft where
  name : List Char := []
  data : List (List Char) := []

/-- The lines that are ended, the first of them begun by `line`. What follows the last end of a line is not read. -/
def lines (line : List Char) : List Char → List (List Char)
  | [] => []
  | '\r' :: '\n' :: rest => line :: lines [] rest
  | '\r' :: rest => line :: lines [] rest
  | '\n' :: rest => line :: lines [] rest
  | c :: rest => lines (line ++ [c]) rest

/-- The value of a field without the blank that may follow the colon. -/
def trimBlank : List Char → List Char
  | ' ' :: value => value
  | value => value

/-- The name of the field in a line and its value. A comment is a field without a name. -/
def field (line : List Char) : List Char × List Char :=
  (line.takeWhile (· ≠ ':'), trimBlank ((line.dropWhile (· ≠ ':')).drop 1))

namespace Draft

/-- Adds the field in a line. Fields other than name and data change nothing that is told. -/
def add (draft : Draft) (line : List Char) : Draft :=
  let (name, value) := field line
  if name = "event".toList then { draft with name := value }
  else if name = "data".toList then { draft with data := draft.data ++ [value] }
  else draft

/-- The event, unless it has no data at all. -/
def events (draft : Draft) : List Event :=
  if draft.data.isEmpty then []
  else [⟨if draft.name.isEmpty then "message" else .ofList draft.name, .ofList (['\n'].intercalate draft.data)⟩]

end Draft

/-- The events in lines. One that no empty line ends is not told. -/
def events (draft : Draft) : List (List Char) → List Event
  | [] => []
  | line :: rest => if line.isEmpty then draft.events ++ events {} rest else events (draft.add line) rest

/-- A text may start with a byte order mark. -/
def trimMark : List Char → List Char
  | '\uFEFF' :: text => text
  | text => text

/-- The events in a body, which is UTF-8. -/
def read? (body : ByteArray) : Option (List Event) :=
  (String.fromUTF8? body).map fun text => events {} (lines [] (trimMark text.toList))

/-- A text without a line break. -/
def OnOneLine (text : List Char) : Prop :=
  '\n' ∉ text ∧ '\r' ∉ text

theorem lines_ended {line : List Char} (whole : OnOneLine line) (begun rest : List Char) :
    lines begun (line ++ '\n' :: rest) = (begun ++ line) :: lines [] rest := by
  induction line generalizing begun with
  | nil =>
      simp [lines]
  | cons c line inductionHypothesis =>
      obtain ⟨lineFeed, carriageReturn⟩ := whole
      rw [List.mem_cons, not_or] at lineFeed carriageReturn
      have step : lines begun (c :: (line ++ '\n' :: rest)) = lines (begun ++ [c]) (line ++ '\n' :: rest) := by
        apply lines.eq_5
        · exact fun rest' same _ => carriageReturn.1 same.symm
        · exact fun same => carriageReturn.1 same.symm
        · exact fun same => lineFeed.1 same.symm
      rw [List.cons_append, step, inductionHypothesis ⟨lineFeed.2, carriageReturn.2⟩, List.append_assoc,
        List.singleton_append]

end EventReader

namespace Frame

open EventReader

/-- What a frame tells the client. -/
def event : Frame → Event
  | message json => ⟨"message", json⟩
  | ping => ⟨"ping", ""⟩
  | done => ⟨"done", "done"⟩

theorem event_injective {frame other : Frame} (same : frame.event = other.event) : frame = other := by
  cases frame <;> cases other <;> simp_all [event]

/-- The body that frames make, one after the other. -/
def body (frames : List Frame) : ByteArray :=
  frames.foldl (fun bytes frame => bytes ++ frame.text.toUTF8) ByteArray.empty

/-- The event of a frame fits into one line of data. -/
def IsWhole : Frame → Prop
  | message json => OnOneLine json.toList
  | _ => True

theorem foldl_toUTF8 (begun : String) (frames : List Frame) :
    frames.foldl (fun bytes frame => bytes ++ frame.text.toUTF8) begun.toUTF8 =
      (begun ++ String.join (frames.map text)).toUTF8 := by
  induction frames generalizing begun with
  | nil =>
      simp
  | cons frame frames inductionHypothesis =>
      have step : begun.toUTF8 ++ frame.text.toUTF8 = (begun ++ frame.text).toUTF8 := String.toByteArray_append.symm
      rw [List.foldl_cons, step, inductionHypothesis, List.map_cons, String.join_cons, String.append_assoc]

theorem fromUTF8?_toUTF8 (text : String) : String.fromUTF8? text.toUTF8 = some text := by
  have valid : text.toUTF8.IsValidUTF8 := text.isValidUTF8
  rw [String.fromUTF8?, dif_pos valid]
  rfl

theorem fromUTF8?_body (frames : List Frame) : String.fromUTF8? (body frames) = some (.join (frames.map text)) := by
  have joined : body frames = ("" ++ String.join (frames.map text)).toUTF8 := foldl_toUTF8 "" frames
  rw [joined, String.empty_append, fromUTF8?_toUTF8]

/-- The line with the name of the event. -/
def nameLine (frame : Frame) : List Char :=
  "event: ".toList ++ frame.event.name.toList

/-- The line with its data. -/
def dataLine : Frame → List Char
  | message json => "data: ".toList ++ json.toList
  | ping => "data:".toList
  | done => "data: done".toList

theorem toList_text (frame : Frame) :
    frame.text.toList = frame.nameLine ++ '\n' :: (frame.dataLine ++ ['\n', '\n']) := by
  unfold text nameLine dataLine event
  cases frame <;> simp

theorem onOneLine_nameLine (frame : Frame) : OnOneLine frame.nameLine := by
  unfold OnOneLine nameLine event
  cases frame <;> simp

theorem onOneLine_dataLine {frame : Frame} (whole : frame.IsWhole) : OnOneLine frame.dataLine := by
  unfold OnOneLine dataLine
  cases frame with
  | message json =>
      obtain ⟨lineFeed, carriageReturn⟩ := whole
      simp [lineFeed, carriageReturn]
  | ping | done =>
      simp

theorem lines_text {frame : Frame} (whole : frame.IsWhole) (rest : List Char) :
    lines [] (frame.text.toList ++ rest) = frame.nameLine :: frame.dataLine :: [] :: lines [] rest := by
  have regrouped : frame.text.toList ++ rest =
      frame.nameLine ++ '\n' :: (frame.dataLine ++ '\n' :: ([] ++ '\n' :: rest)) := by
    simp [toList_text]
  have blank : OnOneLine [] := ⟨List.not_mem_nil, List.not_mem_nil⟩
  rw [regrouped, lines_ended frame.onOneLine_nameLine, lines_ended (onOneLine_dataLine whole), lines_ended blank]
  rfl

/-- The frame is the next event, whatever follows it. -/
theorem events_text {frame : Frame} (whole : frame.IsWhole) (rest : List Char) :
    events {} (lines [] (frame.text.toList ++ rest)) = frame.event :: events {} (lines [] rest) := by
  rw [lines_text whole]
  unfold nameLine dataLine event
  cases frame <;> simp [EventReader.events, Draft.events, Draft.add, field, trimBlank]

theorem events_join {frames : List Frame} (whole : ∀ frame ∈ frames, frame.IsWhole) :
    events {} (lines [] (String.join (frames.map text)).toList) = frames.map event := by
  induction frames with
  | nil =>
      rfl
  | cons frame frames inductionHypothesis =>
      obtain ⟨head, tail⟩ := List.forall_mem_cons.mp whole
      rw [List.map_cons, String.join_cons, String.toList_append, events_text head, inductionHypothesis tail,
        List.map_cons]

theorem trimMark_join (frames : List Frame) :
    trimMark (String.join (frames.map text)).toList = (String.join (frames.map text)).toList := by
  cases frames with
  | nil =>
      rfl
  | cons frame frames =>
      rw [List.map_cons, String.join_cons, String.toList_append, toList_text]
      unfold nameLine
      simp [trimMark]

/-- Frames that fit on their lines are read back as they were written, each as one event. -/
theorem read?_body {frames : List Frame} (whole : ∀ frame ∈ frames, frame.IsWhole) :
    read? (body frames) = some (frames.map event) := by
  rw [read?, fromUTF8?_body, Option.map_some, trimMark_join, events_join whole]

/-- Different frames make different bodies. -/
theorem body_injective {frames others : List Frame} (whole : ∀ frame ∈ frames, frame.IsWhole)
    (wholeToo : ∀ frame ∈ others, frame.IsWhole) (same : body frames = body others) : frames = others := by
  have read : some (frames.map event) = some (others.map event) := by
    rw [← read?_body whole, same, read?_body wholeToo]
  exact (List.map_inj_right fun _ _ => event_injective).mp (Option.some.inj read)

end Frame

end SchemaRpc
