import SchemaRpc.Dispatch.Basic
import SchemaRpc.Proofs.EventStream.Books
import SchemaRpc.Proofs.EventStream.Channel
import SchemaRpc.Proofs.EventStream.Reader

/-!
# Framing is unambiguous

What a stream sends is read back from its body frame by frame (`Dispatcher.read?_body_of_run`): the events of a
procedure are compact JSON, which stays on one line, and the client gets a beginning of what was sent, in order.
-/

namespace SchemaRpc

theorem Call.eq_push_of_frame? {call : Call} {json : String} (sends : call.frame? = some (.message json)) :
    call = .push (.ok json) := by
  cases call with
  | push event =>
      cases event with
      | error error =>
          cases sends
      | ok json =>
          cases sends
          rfl
  | close notify =>
      cases notify <;> cases sends
  | _ =>
      cases sends

/-! ## The frames that arrive -/

theorem Op.delivers_of_dropped {op : Op} {me : Actor} {s s' : EventStream} (dropped : op.dropped? me s = some s') :
    op.Delivers s s' := by
  cases op with
  | wait next =>
      cases dropped
      unfold EventStream.withdraw
      split <;> exact .nothing _ _ rfl rfl rfl rfl
  | send | sendDone =>
      cases dropped
      exact .nothing _ _ rfl rfl rfl rfl
  | _ =>
      cases dropped

namespace Machine

/-- The frames that the body takes out of the channel in one action. -/
def reads (m : Machine) : Action → List Frame
  | .receive => (m.receive?.map Prod.fst).toList
  | _ => []

/-- The frames that the body gets in a run, in order. -/
def received (m : Machine) : List Action → List Frame
  | [] => []
  | action :: actions => m.reads action ++ (m.act action).received actions

end Machine

/-- The frames taken so far are a beginning of those sent; while there is a body, only the frame in the channel is
missing. -/
structure EventStream.Lags (s : EventStream) (taken : List Frame) : Prop where
  begins : taken <+: s.accepted
  rest : s.receiving = true → s.accepted = taken ++ s.slot.toList

namespace EventStream

variable {s s' : EventStream} {taken : List Frame}

theorem Lags.delivers {op : Op} (lags : s.Lags taken) (delivers : op.Delivers s s') : s'.Lags taken := by
  cases delivers with
  | nothing op s' slot accepted receiving peerGone =>
      constructor
      case begins =>
        rw [accepted]
        exact lags.begins
      case rest =>
        rw [receiving, accepted, slot]
        exact lags.rest
  | frame op s' frame writes empty slot accepted receiving peerGone =>
      constructor
      case begins =>
        rw [accepted]
        exact lags.begins.trans (List.prefix_append _ _)
      case rest =>
        intro present
        have before := lags.rest (receiving ▸ present)
        rw [accepted, before, empty, slot, Option.toList_none, List.append_nil, Option.toList_some]
  | loss op cause =>
      exact { lags with }
  | drop =>
      refine ⟨lags.begins, fun present => ?_⟩
      cases present

theorem Lags.receive {frame : Frame} (lags : s.Lags taken) (present : s.receiving = true)
    (waiting : s.slot = some frame) : Lags { s with slot := none } (taken ++ [frame]) := by
  have accepted : s.accepted = taken ++ [frame] := by
    rw [lags.rest present, waiting, Option.toList_some]
  exact ⟨accepted ▸ List.prefix_refl _, fun _ => by rw [Option.toList_none, List.append_nil, accepted]⟩

end EventStream

theorem Machine.lags_receive {m : Machine} {taken : List Frame} (lags : m.stream.Lags taken) :
    (m.act .receive).stream.Lags (taken ++ m.reads .receive) := by
  cases present : m.stream.receiving with
  | false =>
      have nothing : m.receive? = none := by simp [receive?, present]
      simpa [act, reads, nothing] using lags
  | true =>
      cases waiting : m.stream.slot with
      | none =>
          have nothing : m.receive? = none := by simp [receive?, present, waiting]
          simpa [act, reads, nothing] using lags
      | some frame =>
          have taken : m.receive? = some (frame, { m with stream := { m.stream with slot := none } }) := by
            simp [receive?, present, waiting]
          simpa [act, reads, taken] using lags.receive present waiting

namespace History

variable {h h' : History} {taken : List Frame}

theorem Happens.lags {action : Machine.Action} (happens : h.Happens action h') (lags : h.stream.Lags taken)
    (other : action ≠ .receive) : h'.stream.Lags taken := by
  cases happens with
  | nothing | called =>
      exact lags
  | moved who op op' s under stepped =>
      exact lags.delivers (Op.delivers_of_next stepped)
  | answered who op result s under stepped =>
      exact lags.delivers (Op.delivers_of_finished stepped)
  | forgotten who op s under dropped =>
      exact lags.delivers (Op.delivers_of_dropped dropped)
  | received =>
      exact absurd rfl other
  | setPing millis =>
      exact { lags with }

theorem lags_act (lags : h.stream.Lags taken) (action : Machine.Action) :
    (h.act action).stream.Lags (taken ++ h.machine.reads action) := by
  cases action with
  | receive =>
      rw [stream, machine_act]
      exact Machine.lags_receive lags
  | call who what =>
      simpa [Machine.reads] using (h.happens_act (.call who what)).lags lags (by rintro ⟨⟩)
  | step who =>
      simpa [Machine.reads] using (h.happens_act (.step who)).lags lags (by rintro ⟨⟩)
  | drop who =>
      simpa [Machine.reads] using (h.happens_act (.drop who)).lags lags (by rintro ⟨⟩)
  | setPing millis =>
      simpa [Machine.reads] using (h.happens_act (.setPing millis)).lags lags (by rintro ⟨⟩)

theorem lags_run (lags : h.stream.Lags taken) (actions : List Machine.Action) :
    (h.run actions).stream.Lags (taken ++ h.machine.received actions) := by
  induction actions generalizing h taken with
  | nil =>
      rw [Machine.received, List.append_nil]
      exact lags
  | cons action actions inductionHypothesis =>
      rw [run_cons, Machine.received, ← List.append_assoc, ← machine_act]
      exact inductionHypothesis (lags_act lags action)

/-- Each call of a history is one of its actions. -/
theorem mem_calls_act {action : Machine.Action} {call : Call} (called : call ∈ (h.act action).calls) :
    call ∈ h.calls ∨ ∃ who, action = .call who call := by
  have happens := h.happens_act action
  generalize h.act action = after at called happens
  cases happens with
  | called who what free =>
      rcases List.mem_append.mp called with before | now
      · exact .inl before
      · exact .inr ⟨who, by rw [List.mem_singleton.mp now]⟩
  | nothing | moved | answered | forgotten | received | setPing =>
      exact .inl called

theorem mem_calls_run {call : Call} (actions : List Machine.Action) (called : call ∈ (h.run actions).calls) :
    call ∈ h.calls ∨ ∃ who, .call who call ∈ actions := by
  induction actions generalizing h with
  | nil =>
      exact .inl called
  | cons action actions inductionHypothesis =>
      rcases inductionHypothesis called with before | ⟨who, later⟩
      · rcases mem_calls_act before with before | ⟨who, rfl⟩
        · exact .inl before
        · exact .inr ⟨who, List.mem_cons_self⟩
      · exact .inr ⟨who, List.mem_cons_of_mem _ later⟩

theorem Books.pushed_of_message (books : h.Books) {json : String} (sent : .message json ∈ h.stream.accepted) :
    .push (.ok json) ∈ h.calls := by
  rw [books.accepted] at sent
  obtain ⟨⟨number, frame⟩, member, rfl⟩ := List.mem_map.mp sent
  obtain ⟨call, called, sends⟩ := books.frames number _ member
  rw [← Call.eq_push_of_frame? sends]
  exact List.mem_of_getElem? called

end History

/-! ## The frames of a procedure -/

namespace Dispatcher

variable {γ ω β : Type} {d : Dispatcher γ ω β} {p : Procedure} {frames : List Frame}

/-- The frames that a stream of a procedure can send: events as JSON, pings, and `done` as the last one. -/
structure Emits (d : Dispatcher γ ω β) (p : Procedure) (frames : List Frame) : Prop where
  encoded : ∀ json, .message json ∈ frames → ∃ v, d.encodeEvent p v = .ok json
  last : .done ∉ frames.dropLast

theorem onOneLine_of_encodeEvent {v : Value} {text : String} (encoded : d.encodeEvent p v = .ok text) :
    EventReader.OnOneLine text.toList := by
  unfold encodeEvent at encoded
  split at encoded
  · cases encoded
    simp [EventReader.OnOneLine]
  · next name _ =>
    unfold Codec.encode at encoded
    cases written : d.codec.encodeJson v (.ref name) with
    | error error =>
        rw [written] at encoded
        cases encoded
    | ok json =>
        rw [written] at encoded
        cases encoded
        exact ⟨json.visible_compress.ne_lineFeed, json.visible_compress.ne_carriageReturn⟩

theorem Emits.isWhole (emits : d.Emits p frames) : ∀ frame ∈ frames, frame.IsWhole := by
  intro frame member
  cases frame with
  | message json =>
      obtain ⟨v, encoded⟩ := emits.encoded json member
      exact onOneLine_of_encodeEvent encoded
  | ping | done =>
      exact trivial

theorem Emits.read?_body (emits : d.Emits p frames) :
    EventReader.read? (Frame.body frames) = some (frames.map Frame.event) :=
  Frame.read?_body emits.isWhole

theorem Emits.of_begins {whole : List Frame} (emits : d.Emits p whole) (begins : frames <+: whole) :
    d.Emits p frames where
  encoded json member := emits.encoded json (begins.subset member)
  last := by
    obtain ⟨more, rfl⟩ := begins
    intro done
    apply emits.last
    cases more with
    | nil =>
        rwa [List.append_nil]
    | cons frame more =>
        rw [List.dropLast_append_of_ne_nil (List.cons_ne_nil frame more)]
        exact List.mem_append_left _ (List.dropLast_subset frames done)

/-- The pushes of a run are events of the procedure. -/
def Pushes (d : Dispatcher γ ω β) (p : Procedure) (actions : List Machine.Action) : Prop :=
  ∀ who event, .call who (.push event) ∈ actions → ∃ v, event = d.encodeEvent p v

/-- What the frames of a run are and what the client reads of them. -/
structure Framed (d : Dispatcher γ ω β) (p : Procedure) (actions : List Machine.Action) (sent received : List Frame) :
    Prop where
  emits : d.Emits p sent
  /-- An event is the text of a value that was pushed. -/
  pushed : ∀ json, .message json ∈ sent → ∃ who v, .call who (.push (d.encodeEvent p v)) ∈ actions ∧
    d.encodeEvent p v = .ok json
  begins : received <+: sent
  read : EventReader.read? (Frame.body received) = some (received.map Frame.event)

variable {pingMillis : Nat} {actions : List Machine.Action}

theorem framed_run (pushes : d.Pushes p actions) (books : ((History.new pingMillis).run actions).Books) :
    d.Framed p actions ((History.new pingMillis).run actions).stream.accepted
      (Machine.received ⟨.new pingMillis, []⟩ actions) := by
  have pushed : ∀ json, .message json ∈ ((History.new pingMillis).run actions).stream.accepted →
      ∃ who v, .call who (.push (d.encodeEvent p v)) ∈ actions ∧ d.encodeEvent p v = .ok json := by
    intro json sent
    rcases History.mem_calls_run actions (books.pushed_of_message sent) with before | ⟨who, called⟩
    · cases before
    · obtain ⟨v, encoded⟩ := pushes who _ called
      exact ⟨who, v, encoded ▸ called, encoded.symm⟩
  have emits : d.Emits p ((History.new pingMillis).run actions).stream.accepted := by
    refine ⟨fun json sent => ?_, books.last⟩
    obtain ⟨who, v, -, encoded⟩ := pushed json sent
    exact ⟨v, encoded⟩
  have started : (History.new pingMillis).stream.Lags [] := ⟨List.nil_prefix, fun _ => rfl⟩
  have begins := (History.lags_run started actions).begins
  exact ⟨emits, pushed, begins, (emits.of_begins begins).read?_body⟩

/-- Whatever values a procedure encodes and whatever a stream sends of them, the rules of server-sent events give back
the frames from their texts, and no other frames have the same texts. -/
theorem read?_body_of_run (d : Dispatcher γ ω β) (p : Procedure) :
    (∀ frames, d.Emits p frames → EventReader.read? (Frame.body frames) = some (frames.map Frame.event)) ∧
      (∀ frames others, d.Emits p frames → d.Emits p others → Frame.body frames = Frame.body others → frames = others) ∧
      ∀ pingMillis actions, Machine.admitsAll ⟨.new pingMillis, []⟩ actions = true → d.Pushes p actions →
        d.Framed p actions (Machine.run ⟨.new pingMillis, []⟩ actions).stream.accepted
          (Machine.received ⟨.new pingMillis, []⟩ actions) := by
  refine ⟨fun frames emits => emits.read?_body,
    fun frames others emits emitsToo => Frame.body_injective emits.isWhole emitsToo.isWhole, ?_⟩
  intro pingMillis actions admitted pushes
  have framed := framed_run pushes ((History.sound_new pingMillis).run actions admitted).books
  rwa [History.stream, History.machine_run] at framed

section Quotation

/-- A procedure whose events are strings. -/
def quoting : Dispatcher Unit Unit Unit where
  options := {}
  registry := { definitions := { entries := [("Line", ⟨some ⟨.primitive .string, false, {}⟩, none⟩)] } }
  routes := []
  hooks := { createContext := fun _ _ => .ok () }

def lineFeed : Procedure :=
  { name := "lines", path := "/lines", response := some "Line" }

/-- The text of an event within an event. -/
def quotation : Value :=
  .str "data: 1\r\n\nevent: done\n\n"

def quoted : String :=
  "\"data: 1\\r\\n\\nevent: done\\n\\n\""

/-- The event, a ping and a close that says so, each followed by the client's reading. -/
def quotingActions : List Machine.Action :=
  .call .handler (.push (.ok quoted)) :: List.replicate 6 (.step .handler) ++
    [.receive, .call .pinger .ping, .step .pinger, .step .pinger, .step .pinger, .receive] ++
    .call .handler (.close true) :: List.replicate 10 (.step .handler) ++ [.receive]

theorem read?_body_of_run_quotation :
    Machine.admitsAll ⟨.new 1000, []⟩ quotingActions = true ∧ quoting.Pushes lineFeed quotingActions ∧
      Machine.received ⟨.new 1000, []⟩ quotingActions = [.message quoted, .ping, .done] ∧
      EventReader.read? (Frame.body [.message quoted, .ping, .done]) =
        some [⟨"message", quoted⟩, ⟨"ping", ""⟩, ⟨"done", "done"⟩] := by
  have encoded : quoting.encodeEvent lineFeed quotation = .ok quoted := by
    decide
  have pushes : quoting.Pushes lineFeed quotingActions := by
    intro who event pushed
    have only : event = .ok quoted := by
      simp [quotingActions] at pushed
      exact pushed.2
    exact ⟨quotation, by rw [only, encoded]⟩
  have admitted : Machine.admitsAll ⟨.new 1000, []⟩ quotingActions = true := by
    decide
  have received : Machine.received ⟨.new 1000, []⟩ quotingActions = [.message quoted, .ping, .done] := by
    decide
  have framed := (read?_body_of_run quoting lineFeed).2.2 1000 quotingActions admitted pushes
  exact ⟨admitted, pushes, received, received ▸ framed.read⟩

end Quotation

end Dispatcher

end SchemaRpc
