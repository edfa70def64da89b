import SchemaRpc.Proofs.Session.Length
import SchemaRpc.Proofs.Session.Rest

/-!
# Outcomes of a session

Which response a run comes to. A run fails early (`Viewing.FailsEarly`) when the handler is over with an error at a moment
at which the stream is still idle; this is decided then, whoever goes on next (`Viewing.failsEarly_iff`). Every run comes to
rest when time does not pass (`Viewing.exists_rest`).
-/

namespace SchemaRpc

namespace Move

/-- The handler waits for something other than the stream. -/
def waits : Move → Bool
  | sleep _ | awaitDone | receive _ => true
  | push _ | close _ | setPing _ | observe | finish _ => false

end Move

namespace EventSource

variable {β μ : Type}

/-- The code of a handler that does nothing but end. -/
def quitting (source : EventSource β μ) : EventSource β μ :=
  { source with next := fun state _ => (state, .finish .panicked) }

theorem ends_quitting (source : EventSource β μ) : source.quitting.Ends fun _ => 0 :=
  fun _ _ _ _ next => .inr ⟨.panicked, (congrArg Prod.snd next).symm⟩

end EventSource

namespace Viewing

variable {β μ : Type} {source : EventSource β μ} {rank : β → Nat} {v v' : Viewing β μ} {error : RpcError}

theorem run?_append (source : EventSource β μ) (v : Viewing β μ) (first rest : List Turn) :
    v.run? source (first ++ rest) = (v.run? source first).bind fun v => v.run? source rest := by
  induction first generalizing v with
  | nil =>
      rfl
  | cons turn first inductionHypothesis =>
      rw [List.cons_append, run?, run?]
      cases v.act? source turn with
      | none =>
          rfl
      | some next =>
          exact inductionHypothesis next

/-! ## Early failures -/

/-- The handler is over with an error. -/
def Fails (v : Viewing β μ) (error : RpcError) : Prop :=
  ∃ ending, v.handler = .ended ending ∧ ending.result = .error error

/-- At some moment of the run the handler is over with an error and the stream is idle, so that it has never left this
phase. -/
def FailsEarly (source : EventSource β μ) (v : Viewing β μ) (turns : List Turn) (error : RpcError) : Prop :=
  ∃ early late w, turns = early ++ late ∧ v.run? source early = some w ∧ w.Fails error ∧ w.stream.phase = .idle

/-- The failure has not been taken up yet, or the response is an error. -/
def Refuses (v : Viewing β μ) (error : RpcError) : Prop :=
  v.Fails error ∧ (v.dispatcher = .waiting ∧ v.stream.phase = .idle ∨ v.IsRefusing)

theorem Kept.refuses_of_idle (kept : v.Kept) (fails : v.Fails error) (idle : v.stream.phase = .idle) :
    v.Refuses error := by
  obtain ⟨ending, handler, failed⟩ := fails
  refine ⟨⟨ending, handler, failed⟩, ?_⟩
  cases kept.stage with
  | waiting dispatcher =>
      exact .inl ⟨dispatcher, idle⟩
  | abandoning ending error dispatcher =>
      exact .inr ⟨error, .inl dispatcher⟩
  | refused ending error dispatcher =>
      exact .inr ⟨error, .inr dispatcher⟩
  | closing ending' dispatcher =>
      exact absurd idle (kept.closing dispatcher ending error handler failed)
  | answered ending dispatcher | watched dispatcher | reporting ending dispatcher | finished ending dispatcher =>
      exact absurd idle (kept.streaming dispatcher)

/-- A handler that is over stays so. -/
theorem Happens.ended (happens : v.Happens source v') {ending : Ending Unit} (ended : v.handler = .ended ending) :
    v'.handler = .ended ending := by
  cases happens with
  | pushes _ _ _ _ _ moving | closes _ _ _ _ _ moving | sleeps _ _ _ _ moving | awaits _ _ _ _ _ moving
  | finishes _ _ _ _ moving | setsPing _ _ _ _ moving | passes _ _ _ _ _ moving =>
      rw [ended] at moving
      nomatch moving
  | replied state reply op result s waits =>
      rw [ended] at waits
      rcases waits with impossible | impossible <;> nomatch impossible
  | wakes state reply mailbox waits =>
      rw [ended] at waits
      rcases waits with impossible | impossible | ⟨untilDone, impossible⟩ <;> nomatch impossible
  | _ =>
      exact ended

theorem Fails.turn (fails : v.Fails error) (happens : v.Happens source v') : v'.Fails error := by
  obtain ⟨ending, ended, failed⟩ := fails
  exact ⟨ending, happens.ended ended, failed⟩

theorem Fails.unique {error' : RpcError} (fails : v.Fails error) (again : v.Fails error') : error = error' := by
  obtain ⟨ending, ended, failed⟩ := fails
  obtain ⟨ending', ended', failed'⟩ := again
  obtain rfl : ending = ending' := HandlerState.ended.inj (ended.symm.trans ended')
  exact Except.error.inj (failed.symm.trans failed')

theorem Fails.run (fails : v.Fails error) (kept : v.Kept) {turns : List Turn} (ran : v.run? source turns = some v') :
    v'.Fails error :=
  (kept.holds_run ran (·.Fails error) fails (fun _ _ _ fails happens => fails.turn happens) fun _ _ => id).2

/-- Between an early failure and the dispatcher's decision nobody is at work. -/
theorem Kept.free_of_idle (kept : v.Kept) (fails : v.Fails error) (waits : v.dispatcher = .waiting)
    (idle : v.stream.phase = .idle) (who : Actor) : v.machine.op? who = none := by
  obtain ⟨ending, ended, -⟩ := fails
  obtain ⟨watcher, body, -⟩ := kept.stage.of_waiting waits
  have pinger : v.pinger = .absent := by
    by_contra present
    exact kept.backed.ne_idle (kept.pinged present) idle
  apply kept.manned.free
  intro call asks
  cases who <;> simp_all [Session.Asks]

theorem Refuses.turn (refuses : v.Refuses error) (happens : v.Happens source v') (kept : v.Kept) : v'.Refuses error := by
  obtain ⟨fails, ⟨waits, idle⟩ | refusing⟩ := refuses
  case inr =>
    exact ⟨fails.turn happens, .inr (happens.isRefusing refusing)⟩
  have failsAfter := fails.turn happens
  have phase : v'.stream.phase = .idle := by
    rcases happens.touches with ⟨same, -⟩ | ⟨who, op, s, under, -⟩
    · exact same.trans idle
    · rw [kept.free_of_idle fails waits idle who] at under
      nomatch under
  cases happens with
  | streams _ announced =>
      exact absurd idle (kept.backed.ne_idle announced)
  | abandons ending error' =>
      exact ⟨failsAfter, .inr ⟨error', .inl rfl⟩⟩
  | settles ending free _ ended started =>
      obtain ⟨ending', ended', failed⟩ := fails
      obtain rfl : ending = ending' := HandlerState.ended.inj (ended.symm.trans ended')
      exact absurd idle (started error failed)
  | refuses error' op result s isWaiting | answers op result s isWaiting =>
      rw [waits] at isWaiting
      nomatch isWaiting
  | _ =>
      exact ⟨failsAfter, .inl ⟨waits, phase⟩⟩

theorem Refuses.run (refuses : v.Refuses error) (kept : v.Kept) {turns : List Turn}
    (ran : v.run? source turns = some v') : v'.Refuses error :=
  (kept.holds_run ran (·.Refuses error) refuses (fun _ _ kept refuses happens => refuses.turn happens kept)
    fun _ _ => id).2

/-- A response that is an error comes from an early failure. -/
theorem Happens.refusing_before (happens : v.Happens source v') (refuses : v'.IsRefusing) :
    v.IsRefusing ∨ ∃ error, v.Fails error ∧ v.stream.phase = .idle := by
  cases happens with
  | abandons ending error free waits ended failed idle =>
      exact .inr ⟨error, ⟨ending, ended, failed⟩, idle⟩
  | refuses error op result s abandoning =>
      exact .inl ⟨error, .inl abandoning⟩
  | streams | settles | answers =>
      obtain ⟨error, impossible | impossible⟩ := refuses <;> nomatch impossible
  | _ =>
      exact .inl refuses

theorem failsEarly_of_refusing (kept : v.Kept) (fresh : ¬v.IsRefusing) {turns : List Turn}
    (ran : v.run? source turns = some v') (refusing : v'.IsRefusing) (fails : v'.Fails error) :
    v.FailsEarly source turns error := by
  induction turns generalizing v with
  | nil =>
      cases ran
      exact absurd refusing fresh
  | cons turn turns inductionHypothesis =>
      obtain ⟨next, taken, ranOn⟩ := Option.bind_eq_some_iff.mp ran
      by_cases already : next.IsRefusing
      · rcases happens_of_act? kept.manned taken with happens | ⟨millis, -, rfl⟩
        · rcases happens.refusing_before already with before | ⟨error', failed, idle⟩
          · exact absurd before fresh
          · obtain rfl : error' = error := (failed.run kept ran).unique fails
            exact ⟨[], turn :: turns, v, rfl, rfl, failed, idle⟩
        · exact absurd already fresh
      · obtain ⟨early, late, w, rfl, reached, failed, idle⟩ := inductionHypothesis (kept.act taken) already ranOn
        refine ⟨turn :: early, late, w, rfl, ?_, failed, idle⟩
        rw [run?, taken]
        exact reached

/-- The run fails early exactly when the response is going to be the error of the handler. -/
theorem failsEarly_iff (kept : v.Kept) (fresh : ¬v.IsRefusing) {turns : List Turn} (ran : v.run? source turns = some v') :
    v.FailsEarly source turns error ↔ v'.Refuses error := by
  constructor
  · rintro ⟨early, late, w, rfl, reached, fails, idle⟩
    rw [run?_append, reached] at ran
    have keptThere := kept.run reached
    exact (keptThere.refuses_of_idle fails idle).run keptThere ran
  · rintro ⟨fails, ⟨-, idle⟩ | refusing⟩
    · exact ⟨turns, [], v', (List.append_nil _).symm, ran, fails, idle⟩
    · exact failsEarly_of_refusing kept fresh ran refusing fails

/-! ## Handlers that wait -/

/-- A handler that waits has made a move to wait. -/
def Waited (v : Viewing β μ) : Prop :=
  v.handler.Waits → ∃ move ∈ v.moves, move.waits = true

theorem waited_start {pingMillis : Nat} {handler : HandlerState β μ} (begins : Begins handler) :
    (start pingMillis handler).Waited := by
  rintro ⟨state, waits⟩
  change handler = .sleeping state ∨ handler = .awaiting state ∨ ∃ untilDone, handler = .receiving state untilDone at waits
  rcases begins with ⟨state', reply, rfl⟩ | ⟨ending, rfl⟩ <;>
    rcases waits with impossible | impossible | ⟨untilDone, impossible⟩ <;> nomatch impossible

theorem Waited.turn (waited : v.Waited) (happens : v.Happens source v') : v'.Waited := by
  intro waiting
  cases happens with
  | sleeps state state' reply millis =>
      exact ⟨.sleep millis, List.mem_append_right _ (List.mem_singleton_self _), rfl⟩
  | awaits state state' reply move handler moving next waits =>
      refine ⟨move, List.mem_append_right _ (List.mem_singleton_self _), ?_⟩
      rcases waits with ⟨-, rfl⟩ | ⟨untilDone, -, rfl⟩ <;> rfl
  | pushes | closes | setsPing | passes | finishes | replied | wakes =>
      obtain ⟨state, impossible | impossible | ⟨untilDone, impossible⟩⟩ := waiting <;> nomatch impossible
  | _ =>
      exact waited waiting

theorem Waited.run (waited : v.Waited) (kept : v.Kept) {turns : List Turn} (ran : v.run? source turns = some v') :
    v'.Waited :=
  (kept.holds_run ran Waited waited (fun _ _ _ waited happens => waited.turn happens) fun _ _ => id).2

/-! ## Coming to rest -/

/-- Every run comes to rest when time does not pass. -/
theorem exists_rest (ends : source.Ends rank) (v : Viewing β μ) (kept : v.Kept) :
    ∃ turns w, v.run? source turns = some w ∧ turns.countP Turn.isPass = 0 ∧ w.AtRest source := by
  by_cases rest : v.AtRest source
  · exact ⟨[], v, rfl, rfl, rest⟩
  · unfold AtRest at rest
    push Not at rest
    obtain ⟨turn, notFree, possible⟩ := rest
    obtain ⟨next, taken⟩ := Option.ne_none_iff_exists'.mp possible
    have falls : next.weight rank < v.weight rank := by
      rcases happens_of_act? kept.manned taken with happens | ⟨millis, rfl, -⟩
      · exact happens.weight kept.manned ends
      · nomatch notFree
    obtain ⟨turns, w, ran, noPass, rest⟩ := exists_rest ends next (kept.act taken)
    refine ⟨turn :: turns, w, ?_, ?_, rest⟩
    · rw [run?, taken]
      exact ran
    · rw [List.countP_cons, noPass]
      cases turn <;> first | rfl | nomatch notFree
termination_by v.weight rank

/-! ## Handlers that have ended -/

section Ended

variable {source' : EventSource β μ} {ending : Ending Unit}

/-- What the code of the handler would have done next plays no part. -/
theorem act?_of_ended (ended : v.handler = .ended ending) (turn : Turn) : v.act? source turn = v.act? source' turn := by
  cases turn with
  | step who =>
      cases who with
      | handler =>
          have stuck (source : EventSource β μ) : v.step source .handler = none := by
            rw [Session.step, Session.handlerStep, ended]
          rw [act?, act?, stuck, stuck]
          rfl
      | _ =>
          rfl
  | _ =>
      rfl

theorem run?_of_ended (kept : v.Kept) (ended : v.handler = .ended ending) (turns : List Turn) :
    v.run? source turns = v.run? source' turns := by
  induction turns generalizing v with
  | nil =>
      rfl
  | cons turn turns inductionHypothesis =>
      rw [run?, run?, act?_of_ended ended turn]
      cases taken : v.act? source' turn with
      | none =>
          rfl
      | some next =>
          refine inductionHypothesis (kept.act taken) ?_
          rcases happens_of_act? kept.manned taken with happens | ⟨millis, -, rfl⟩
          · exact happens.ended ended
          · exact ended

theorem ended_of_run (kept : v.Kept) (ended : v.handler = .ended ending) {turns : List Turn}
    (ran : v.run? source turns = some v') : v'.handler = .ended ending :=
  (kept.holds_run ran (·.handler = .ended ending) ended (fun _ _ _ ended happens => happens.ended ended)
    fun _ _ => id).2

/-- What a handler leaves behind comes to rest, also where its code would have gone on for ever. -/
theorem rest_of_ended (source : EventSource β μ) (kept : v.Kept) (ended : v.handler = .ended ending) :
    (∃ more w, v.run? source more = some w ∧ more.countP Turn.isPass = 0 ∧ w.AtRest source) ∧
      ∀ more w, v.run? source more = some w →
        more.length ≤ v.weight (fun _ => 0) + 12 * more.countP Turn.isPass := by
  have same (turns : List Turn) : v.run? source turns = v.run? source.quitting turns := run?_of_ended kept ended turns
  refine ⟨?_, fun more w ran => ?_⟩
  · obtain ⟨more, w, ran, noPass, rest⟩ := exists_rest source.ends_quitting v kept
    refine ⟨more, w, (same more).trans ran, noPass, fun turn notFree => ?_⟩
    rw [act?_of_ended (ended_of_run kept ended ran) turn]
    exact rest turn notFree
  · rw [same] at ran
    exact Nat.le_trans (Nat.le_add_right _ _) (length_run kept source.ends_quitting ran)

end Ended

end Viewing

end SchemaRpc
