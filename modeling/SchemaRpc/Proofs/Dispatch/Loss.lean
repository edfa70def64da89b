import SchemaRpc.Proofs.Dispatch.Stream
import SchemaRpc.Proofs.Session.Loss

/-!
# Errors after a close

A handler that has closed its stream can still fail, and the hooks hear of it unless the client counts as gone. For a client
that reads to the end this happens by the mistake of its body only (`Dispatcher.reports_of_close`), and it does happen: in
`Dispatcher.curt_unreported` the body comes to its end between two steps of the close, and the error is never reported.
-/

namespace SchemaRpc.Dispatcher

variable {γ ω β μ : Type} {d : Dispatcher γ ω β} {request : Http.Request} {state : ω} {opening : Opening γ β}
variable {source : EventSource β μ} {turns : List Turn} {v : Viewing β μ}

theorem counts_view_iff (ran : (d.view opening).run? source turns = some v) (undropped : v.dropped = false) :
    v.machine.Counts ↔ (d.view opening).Mistaken source turns := by
  refine (Viewing.reading_start (begins_view d opening)).counts_iff ?_ ran undropped
  rintro (impossible | ⟨loser, impossible⟩) <;> nomatch impossible

/-- Once the handler has closed the stream and ended, nobody is at work when all are at rest. -/
theorem free_of_close (ran : (d.view opening).run? source turns = some v) (rest : v.AtRest source)
    {ending : Ending Unit} (ended : v.handler = .ended ending) {notify : Bool} (closed : .close notify ∈ v.moves) :
    ¬v.IsJammed ∧ ∀ who, v.machine.op? who = none := by
  have begun : (d.view opening : Viewing β μ).Kept := Viewing.kept_start (begins_view d opening)
  have kept := kept_of_run ran
  have shuts : v.Shuts := Viewing.Shuts.run (fun _ made => absurd made List.not_mem_nil) begun ran
  have isClosed : v.stream.phase = .closed := by
    refine (shuts notify closed).resolve_right ?_
    rintro ⟨state, closing⟩
    rw [ended] at closing
    nomatch closing
  have quiet := rest.not_isJammed_of_closed kept isClosed
  exact ⟨quiet, rest.free kept quiet⟩

/-- For a client that reads to the end: it counts as gone, now or with the next step of its body, exactly in the runs that
come to the moment of a mistake. In all others the error of a handler that has closed its stream is reported. -/
theorem reports_of_close (d : Dispatcher γ ω β) (request : Http.Request) (state : ω) (opening : Opening γ β)
    (answered : (d.dispatch request state).answer = .stream opening) (next : β → Reply μ → β × Move) (turns : List Turn)
    (v : Viewing β μ) (ran : (d.view opening).run? (d.source opening next) turns = some v)
    (undropped : v.dropped = false) :
    (v.machine.Counts ↔ (d.view opening).Mistaken (d.source opening next) turns) ∧
      ∀ error notify, v.Fails error → .close notify ∈ v.moves → v.AtRest (d.source opening next) →
        (v.stream.peerGone = true ↔ (d.view opening).Mistaken (d.source opening next) turns) ∧
          (¬(d.view opening).Mistaken (d.source opening next) turns →
            d.reports request state opening v.toSession = [d.reportOf request opening (.error error)]) := by
  have counts := counts_view_iff ran undropped
  refine ⟨counts, ?_⟩
  rintro error notify ⟨ending, ended, failed⟩ closed rest
  obtain ⟨quiet, free⟩ := free_of_close ran rest ended closed
  have gone_iff : v.stream.peerGone = true ↔ (d.view opening).Mistaken (d.source opening next) turns := by
    rw [← counts]
    refine ⟨.inl, fun counted => counted.resolve_right ?_⟩
    rintro ⟨loser, noting⟩
    rw [free] at noting
    nomatch noting
  refine ⟨gone_iff, fun unmistaken => ?_⟩
  obtain ⟨ending', ended', -, ends⟩ :=
    streamEnd_of_rest ran (opened_dispatch answered) rest quiet (HandlerState.not_waits_of_ended ended)
  obtain rfl : ending = ending' := HandlerState.ended.inj (ended.symm.trans ended')
  rw [failed] at ends
  cases ends with
  | refused error' _ early response tells nothing told =>
      exact told
  | streamed started head isEventStream whole told =>
      refine told.resolve_right ?_
      rintro ⟨-, gone, -⟩
      exact unmistaken (gone_iff.mp gone)

section Curt

/-- The handler closes its stream and fails. -/
def curtScript : Script where
  rest := [.close false, .fail (.forbidden "no")]

def curt : Dispatcher Unit Unit Script where
  options := {}
  registry := {}
  routes := [("/a", ⟨{ name := "a", path := "/a" }, .stream fun _ _ state => (.entered curtScript, state)⟩)]
  hooks := { createContext := fun _ _ => .ok () }

def curtOpening : Opening Unit Script :=
  ⟨{ name := "a", path := "/a" }, (), .http11, .ok curtScript⟩

def curtSource : EventSource Script Unit :=
  curt.source curtOpening Script.next

/-- The close is done before the body comes to its end. -/
def orderlyTurns : List Turn :=
  List.replicate 12 (.step .handler) ++
    [.step .dispatcher, .step .watcher, .step .watcher, .read, .step .body, .step .body, .step .pinger, .step .pinger]

/-- The body comes to its end after the close has dropped the sender and before it sets the phase. -/
def hastyTurns : List Turn :=
  List.replicate 8 (.step .handler) ++ [.step .dispatcher, .read] ++ List.replicate 6 (.step .body) ++
    List.replicate 4 (.step .handler) ++ [.step .watcher, .step .watcher, .step .pinger, .step .pinger]

/-- What becomes of the request in the given turns. -/
def curtView (turns : List Turn) : Viewing Script Unit :=
  ((curt.view curtOpening).run? curtSource turns).getD (curt.view curtOpening)

theorem reports_of_close_curt :
    (curt.dispatch { path := "/a" } ()).answer = .stream curtOpening ∧
      (curt.view curtOpening).run? curtSource orderlyTurns = some (curtView orderlyTurns) ∧
      (curtView orderlyTurns).dropped = false ∧ (curtView orderlyTurns).Fails (.forbidden "no") ∧
      .close false ∈ (curtView orderlyTurns).moves ∧ (curtView orderlyTurns).AtRest curtSource ∧
      ¬(curt.view curtOpening).Mistaken curtSource orderlyTurns ∧
      curt.reports { path := "/a" } () curtOpening (curtView orderlyTurns).toSession =
        [curt.reportOf { path := "/a" } curtOpening (.error (.forbidden "no"))] := by
  have answered : (curt.dispatch { path := "/a" } ()).answer = .stream curtOpening := rfl
  have ran : (curt.view curtOpening).run? curtSource orderlyTurns = some (curtView orderlyTurns) := rfl
  have undropped : (curtView orderlyTurns).dropped = false := rfl
  have fails : (curtView orderlyTurns).Fails (.forbidden "no") := ⟨_, rfl, rfl⟩
  have closed : .close false ∈ (curtView orderlyTurns).moves := List.mem_cons_self
  have rest : (curtView orderlyTurns).AtRest curtSource :=
    Viewing.atRest_of_stuck (fun who => by cases who <;> rfl) rfl rfl
  have present : (curtView orderlyTurns).stream.peerGone = false := rfl
  obtain ⟨-, reported⟩ :=
    reports_of_close curt { path := "/a" } () curtOpening answered Script.next orderlyTurns _ ran undropped
  obtain ⟨gone_iff, told⟩ := reported _ false fails closed rest
  have unmistaken : ¬(curt.view curtOpening).Mistaken curtSource orderlyTurns := by
    intro mistaken
    rw [gone_iff.mpr mistaken] at present
    nomatch present
  exact ⟨answered, ran, undropped, fails, closed, rest, unmistaken, told unmistaken⟩

/-- The client has read to the end, the handler has closed its stream and failed, all are at rest: the client counts as gone
and the hooks are told nothing. -/
theorem curt_unreported :
    (curt.dispatch { path := "/a" } ()).answer = .stream curtOpening ∧
      (curt.view curtOpening).run? curtSource hastyTurns = some (curtView hastyTurns) ∧
      (curtView hastyTurns).dropped = false ∧ (curtView hastyTurns).Fails (.forbidden "no") ∧
      .close false ∈ (curtView hastyTurns).moves ∧ (curtView hastyTurns).AtRest curtSource ∧
      (curtView hastyTurns).stream.peerGone = true ∧
      curt.reports { path := "/a" } () curtOpening (curtView hastyTurns).toSession = [] := by
  have rest : (curtView hastyTurns).AtRest curtSource :=
    Viewing.atRest_of_stuck (fun who => by cases who <;> rfl) rfl rfl
  exact ⟨rfl, rfl, rfl, ⟨_, rfl, rfl⟩, List.mem_cons_self, rest, rfl, rfl⟩

end Curt

end SchemaRpc.Dispatcher
