import SchemaRpc.Proofs.Session.Seen

/-!
# Viewings at rest

A viewing is at rest when no party can go on and the client has read what there is (`Viewing.AtRest`). At rest no operation
is under way (`Viewing.AtRest.free`): nobody waits for the writer in vain, unless a ping was begun while the dispatcher
closes the stream and there is nobody to read it (`Session.IsJammed`). So once the handler has ended, the response is there,
the stream is closed and the body is at its end (`Viewing.AtRest.isOver`). A jam at rest is for good (`Viewing.Stuck.run`).
-/

namespace SchemaRpc

namespace Turn

/-- Time passes of itself, and the client may go away at any time. -/
def isFree : Turn → Bool
  | pass _ | drop => true
  | step _ | join | read => false

end Turn

/-- The handler waits for the time, for the end of the stream or for a message. -/
def HandlerState.Waits {β μ : Type} (handler : HandlerState β μ) : Prop :=
  ∃ state, handler = .sleeping state ∨ handler = .awaiting state ∨ ∃ untilDone, handler = .receiving state untilDone

theorem HandlerState.not_waits_of_ended {β μ : Type} {handler : HandlerState β μ} {ending : Ending Unit}
    (ended : handler = .ended ending) : ¬handler.Waits := by
  rintro ⟨state, waits⟩
  rw [ended] at waits
  rcases waits with impossible | impossible | ⟨untilDone, impossible⟩ <;> nomatch impossible

/-- A ping is under way while the dispatcher closes the stream: it may wait for a reader that comes only after this. -/
def Session.IsJammed {β μ : Type} (s : Session β μ) : Prop :=
  s.dispatcher = .closing ∧ s.pinger = .writing

namespace Viewing

variable {β μ : Type} {source : EventSource β μ} {v v' : Viewing β μ}

def AtRest (source : EventSource β μ) (v : Viewing β μ) : Prop :=
  ∀ turn : Turn, turn.isFree = false → v.act? source turn = none

theorem atRest_of_stuck (parties : ∀ who, v.step source who = none) (joins : v.join? = none)
    (reads : v.act? source .read = none) : v.AtRest source := by
  intro turn notFree
  cases turn with
  | step who =>
      rw [act?, parties who]
      rfl
  | join =>
      rw [act?, joins]
      rfl
  | read =>
      exact reads
  | pass | drop =>
      nomatch notFree

theorem AtRest.step (rest : v.AtRest source) (who : Actor) : v.step source who = none :=
  Option.map_eq_none_iff.mp (rest (.step who) rfl)

theorem blocked_of_advance {s : Session β μ} {who : Actor} {op : Op}
    {after : Except StreamError Unit → Session β μ → Session β μ} (stuck : s.advance who after = none)
    (under : s.machine.op? who = some op) : op.step who s.stream = .blocked := by
  unfold Session.advance Machine.advance at stuck
  have sameStream : s.machine.stream = s.stream := rfl
  rw [under] at stuck
  dsimp only at stuck
  rw [sameStream] at stuck
  cases stepped : op.step who s.stream with
  | blocked =>
      rfl
  | next | finished =>
      rw [stepped] at stuck
      cases stuck

section Rest

variable (kept : v.Kept) (rest : v.AtRest source)

include kept rest

theorem AtRest.blocked {who : Actor} {op : Op} (under : v.machine.op? who = some op) :
    op.step who v.stream = .blocked := by
  obtain ⟨call, asks, -⟩ := kept.manned.serves who op under
  have stuck := rest.step who
  cases who with
  | handler =>
      rw [Session.step, Session.handlerStep] at stuck
      rcases asks with ⟨⟨state, pushing⟩, -⟩ | ⟨⟨state, closing⟩, -⟩
      · rw [pushing] at stuck
        exact blocked_of_advance stuck under
      · rw [closing] at stuck
        exact blocked_of_advance stuck under
  | dispatcher =>
      rw [Session.step, Session.dispatcherStep] at stuck
      rcases asks with ⟨⟨error, abandoning⟩, -⟩ | ⟨closing, -⟩
      · rw [abandoning] at stuck
        exact blocked_of_advance stuck under
      · rw [closing] at stuck
        exact blocked_of_advance stuck under
  | watcher =>
      rw [Session.step, Session.watcherStep, asks.1] at stuck
      exact blocked_of_advance stuck under
  | pinger =>
      rw [Session.step, Session.pingerStep, asks.1] at stuck
      exact blocked_of_advance stuck under
  | body =>
      rw [Session.step, Session.bodyStep, asks.1] at stuck
      exact blocked_of_advance stuck under
  | other number =>
      exact asks.elim

/-- Where the dispatcher still waits for the first write, nobody is about to write. -/
theorem AtRest.not_committed {who : Actor} {op : Op} (waits : v.dispatcher = .waiting)
    (under : v.machine.op? who = some op) : ¬op.IsCommitted := by
  intro committed
  have unannounced : v.stream.announced = false := by
    have stuck := rest.step .dispatcher
    rw [Session.step, Session.dispatcherStep, waits] at stuck
    dsimp only at stuck
    split at stuck
    · nomatch stuck
    · simpa using ‹¬v.stream.announced = true›
  rcases kept.unannounced waits unannounced with idle | ⟨next, announcing⟩
  · exact (kept.backed.trace under).1 committed idle
  · have blocked := rest.blocked kept announcing
    nomatch blocked

/-- A client that has read what there is comes to the end as soon as nobody can send. -/
theorem AtRest.not_gone (body : v.body = .present) (streaming : v.dispatcher = .streaming) :
    v.stream.sender ≠ .gone := by
  intro gone
  have receiving : v.machine.stream.receiving = true := by
    cases receiving : v.machine.stream.receiving with
    | true =>
        rfl
    | false =>
        rcases kept.receiving.mp receiving with impossible | ⟨error, impossible⟩
        · rw [body] at impossible
          cases impossible
        · rw [streaming] at impossible
          cases impossible
  have unread := rest .read rfl
  unfold act? at unread
  dsimp only at unread
  rw [body, Session.read, body] at unread
  dsimp only at unread
  rw [Machine.receive?, receiving] at unread
  cases slot : v.machine.stream.slot with
  | some frame =>
      rw [slot] at unread
      cases unread
  | none =>
      have ended : v.stream.ended = true := by
        change (v.machine.stream.slot.isNone && v.stream.sender = .gone) = true
        rw [slot, gone]
        rfl
      rw [slot, ended] at unread
      cases unread

/-- While the dispatcher closes the stream, who holds the writer and cannot go on is the pinger with a ping. -/
theorem AtRest.pings_of_closing (closing : v.dispatcher = .closing) {first : Actor} {op : Op}
    (held : v.stream.holder = some first) (under : v.machine.op? first = some op) :
    v.pinger = .writing ∧ v.stream.sender = .present := by
  obtain ⟨call, asks, serves⟩ := kept.manned.serves first op under
  have blocked := Op.blocked_iff.mp (rest.blocked kept under)
  cases kept.stage with
  | closing ending dispatcher watcher body handler =>
      cases first with
      | dispatcher =>
          -- Its own close has no frame to wait with.
          rcases asks with ⟨⟨error, abandoning⟩, -⟩ | ⟨-, rfl⟩
          · rw [dispatcher] at abandoning
            cases abandoning
          · rcases blocked with ⟨next, rfl, notHeld⟩ | ⟨⟨frame, rfl, -⟩ | rfl, -⟩
            · exact absurd held notHeld
            · exact serves.1.elim
            · cases serves
      | pinger =>
          obtain ⟨writing, rfl⟩ := asks
          rcases blocked with ⟨next, rfl, notHeld⟩ | ⟨⟨frame, rfl, present⟩ | rfl, -⟩
          · exact absurd held notHeld
          · exact ⟨writing, present⟩
          · cases serves
      | handler | watcher | body | other =>
          simp_all [Session.Asks]
  | _ =>
      simp_all

variable (quiet : ¬v.IsJammed)

include quiet

/-- No operation is under way. -/
theorem AtRest.free (who : Actor) : v.machine.op? who = none := by
  by_contra busy
  obtain ⟨op, under⟩ := Option.ne_none_iff_exists'.mp busy
  obtain ⟨receiving, full, first, op', held, underFirst, committed⟩ :=
    kept.orderly.stuck under fun other op' underOther => rest.blocked kept underOther
  have notGone : v.stream.receiving ≠ false := by
    change v.machine.stream.receiving ≠ false
    rw [receiving]
    exact Bool.noConfusion
  cases body : v.body with
  | present =>
      -- There is a frame that the client has not read.
      obtain ⟨frame, slot⟩ := Option.isSome_iff_exists.mp full
      have unread := rest .read rfl
      unfold act? at unread
      dsimp only at unread
      rw [body, Session.read, body] at unread
      dsimp only at unread
      rw [Machine.receive?, receiving, slot] at unread
      cases unread
  | gone =>
      exact notGone (kept.receiving.mpr (.inl body))
  | leaving =>
      -- The body's operation never has to wait.
      obtain ⟨op'', leaving⟩ := kept.manned.busy .body .leave ⟨body, rfl⟩
      obtain ⟨call, ⟨-, rfl⟩, serves⟩ := kept.manned.serves .body op'' leaving
      rcases Op.blocked_iff.mp (rest.blocked kept leaving) with ⟨next, rfl, -⟩ | ⟨⟨frame, rfl, -⟩ | rfl, -⟩
      · cases next with
        | send =>
            exact serves.1
        | take =>
            cases serves
      · exact serves.1
      · cases serves
  | absent =>
      cases kept.stage with
      | waiting dispatcher =>
          exact rest.not_committed kept dispatcher underFirst committed
      | abandoning ending error dispatcher =>
          obtain ⟨-, abandons⟩ := kept.only_dispatcher ⟨error, .inl dispatcher⟩ underFirst
          rcases Op.blocked_iff.mp (rest.blocked kept underFirst) with ⟨next, rfl, notHeld⟩ | ⟨⟨frame, rfl, -⟩ | rfl, -⟩
          · exact notHeld held
          · exact abandons.1
          · cases abandons
      | refused ending error dispatcher =>
          exact notGone (kept.receiving.mpr (.inr ⟨error, dispatcher⟩))
      | closing ending dispatcher =>
          exact quiet ⟨dispatcher, (rest.pings_of_closing kept dispatcher held underFirst).1⟩
      | answered ending dispatcher watcher present | watched dispatcher watcher present
      | reporting ending dispatcher watcher present | finished ending dispatcher watcher present =>
          exact present body

theorem AtRest.not_asks (who : Actor) (call : Call) : ¬v.Asks who call := by
  intro asks
  obtain ⟨op, under⟩ := kept.manned.busy who call asks
  rw [rest.free kept quiet who] at under
  nomatch under

/-- The handler has ended or waits for something other than the stream. -/
theorem AtRest.handler : (∃ ending, v.handler = .ended ending) ∨ v.handler.Waits := by
  have stuck := rest.step .handler
  rw [Session.step, Session.handlerStep] at stuck
  cases handler : v.handler with
  | moving state reply =>
      rw [handler] at stuck
      nomatch stuck
  | pushing state =>
      exact absurd (.inl ⟨⟨state, handler⟩, ⟨.ok "", rfl⟩⟩) (rest.not_asks kept quiet .handler (.push (.ok "")))
  | closing state =>
      exact absurd (.inr ⟨⟨state, handler⟩, ⟨true, rfl⟩⟩) (rest.not_asks kept quiet .handler (.close true))
  | sleeping state =>
      exact .inr ⟨state, .inl rfl⟩
  | awaiting state =>
      exact .inr ⟨state, .inr (.inl rfl)⟩
  | receiving state untilDone =>
      exact .inr ⟨state, .inr (.inr ⟨untilDone, rfl⟩)⟩
  | ended ending =>
      exact .inl ⟨ending, rfl⟩

/-- Once the handler has ended, the response is there, the stream is closed and the body is at its end. -/
theorem AtRest.isOver {ending : Ending Unit} (ended : v.handler = .ended ending) :
    v.IsOver ∧ v.stream.phase = .closed ∧ (v.IsRefusing ∨ v.body = .gone) := by
  have isOver : v.IsOver := by
    cases kept.stage with
    | waiting dispatcher =>
        have joined := Option.map_eq_none_iff.mp (rest .join rfl)
        rw [Session.join?, dispatcher, ended] at joined
        cases joined
    | abandoning ending error dispatcher =>
        exact absurd (.inl ⟨⟨error, dispatcher⟩, rfl⟩) (rest.not_asks kept quiet .dispatcher .abandon)
    | refused ending error dispatcher =>
        exact .inl ⟨error, dispatcher⟩
    | closing ending dispatcher =>
        exact absurd (.inr ⟨dispatcher, rfl⟩) (rest.not_asks kept quiet .dispatcher (.close false))
    | answered ending dispatcher watcher =>
        exact .inr ⟨dispatcher, .inl watcher⟩
    | watched dispatcher watcher =>
        have stuck := rest.step .watcher
        rw [Session.step, Session.watcherStep, watcher, ended] at stuck
        cases stuck
    | reporting ending dispatcher watcher =>
        exact absurd ⟨watcher, rfl⟩ (rest.not_asks kept quiet .watcher (.close false))
    | finished ending dispatcher watcher =>
        exact .inr ⟨dispatcher, .inr watcher⟩
  have closed := kept.settled isOver
  refine ⟨isOver, closed, ?_⟩
  rcases isOver with ⟨error, refused⟩ | ⟨streaming, -⟩
  · exact .inl ⟨error, .inr refused⟩
  · cases body : v.body with
    | absent =>
        exact absurd body (kept.stage.body_of_streaming streaming)
    | present =>
        have gone : v.stream.sender = .gone := by
          rcases kept.ended closed with gone | isLeft | ⟨error, refusing⟩
          · exact gone
          · rw [Session.IsLeft, body] at isLeft
            rcases isLeft with impossible | impossible <;> cases impossible
          · rw [streaming] at refusing
            rcases refusing with impossible | impossible <;> cases impossible
        exact absurd gone (rest.not_gone kept body streaming)
    | leaving =>
        exact absurd ⟨body, rfl⟩ (rest.not_asks kept quiet .body .leave)
    | gone =>
        exact .inr rfl

end Rest

/-! ## Jams -/

/-- The dispatcher waits for a writer that is not given back: the response comes after this, and with it the reader. -/
structure Stuck (v : Viewing β μ) : Prop where
  closing : v.dispatcher = .closing
  unwatched : v.watcher = .absent
  unread : v.body = .absent
  ended : ∃ ending, v.handler = .ended ending
  writing : v.pinger = .writing
  blocked : ∀ who, v.machine.advance who = .stuck
  unclosed : v.stream.phase ≠ .closed

theorem AtRest.phase_ne_closed (kept : v.Kept) (rest : v.AtRest source) (jammed : v.IsJammed) :
    v.stream.phase ≠ .closed := by
  intro closed
  obtain ⟨op, under⟩ := kept.manned.busy .dispatcher (.close false) (.inr ⟨jammed.1, rfl⟩)
  obtain ⟨-, -, first, op', held, underFirst, -⟩ :=
    kept.orderly.stuck under fun other op' underOther => rest.blocked kept underOther
  have gone : v.stream.sender = .gone := by
    rcases kept.ended closed with gone | isLeft | ⟨error, refusing⟩
    · exact gone
    · exact absurd isLeft (Session.not_isLeft_of_absent (kept.stage.of_closing jammed.1).1)
    · rw [jammed.1] at refusing
      rcases refusing with impossible | impossible <;> nomatch impossible
  have present := (rest.pings_of_closing kept jammed.1 held underFirst).2
  rw [gone] at present
  nomatch present

theorem AtRest.stuck (kept : v.Kept) (rest : v.AtRest source) (jammed : v.IsJammed) : v.Stuck where
  closing := jammed.1
  unwatched := by
    cases kept.stage with
    | closing ending dispatcher watcher =>
        exact watcher
    | _ =>
        simp_all [Session.IsJammed]
  unread := (kept.stage.of_closing jammed.1).1
  ended := (kept.stage.of_closing jammed.1).2
  writing := jammed.2
  blocked := by
    intro who
    unfold Machine.advance
    cases under : v.machine.op? who with
    | none =>
        rfl
    | some op =>
        have blocked : op.step who v.machine.stream = .blocked := rest.blocked kept under
        dsimp only
        rw [blocked]
  unclosed := rest.phase_ne_closed kept jammed

theorem Stuck.advance_eq_none (stuck : v.Stuck) (who : Actor)
    (after : Except StreamError Unit → Session β μ → Session β μ) : v.advance who after = none := by
  rw [Session.advance, stuck.blocked who]

theorem Stuck.step_eq_none (stuck : v.Stuck) (who : Actor) : v.step source who = none := by
  cases who with
  | handler =>
      obtain ⟨ending, ended⟩ := stuck.ended
      rw [Session.step, Session.handlerStep, ended]
  | dispatcher =>
      rw [Session.step, Session.dispatcherStep, stuck.closing]
      exact stuck.advance_eq_none .dispatcher _
  | watcher =>
      rw [Session.step, Session.watcherStep, stuck.unwatched]
  | pinger =>
      rw [Session.step, Session.pingerStep, stuck.writing]
      exact stuck.advance_eq_none .pinger _
  | body =>
      rw [Session.step, Session.bodyStep, stuck.unread]
  | other number =>
      rw [Session.step]
      exact stuck.advance_eq_none (.other number) _

/-- All that still happens is that time passes. -/
theorem Stuck.act (stuck : v.Stuck) {turn : Turn} (taken : v.act? source turn = some v') : v'.Stuck := by
  cases turn with
  | step who =>
      rw [act?, stuck.step_eq_none] at taken
      nomatch taken
  | join =>
      rw [act?, Session.join?, stuck.closing] at taken
      nomatch taken
  | pass millis =>
      cases taken
      exact ⟨stuck.closing, stuck.unwatched, stuck.unread, stuck.ended, stuck.writing, stuck.blocked, stuck.unclosed⟩
  | read | drop =>
      rw [act?, stuck.unread] at taken
      nomatch taken

theorem Stuck.run (stuck : v.Stuck) {turns : List Turn} (ran : v.run? source turns = some v') : v'.Stuck := by
  induction turns generalizing v with
  | nil =>
      cases ran
      exact stuck
  | cons turn turns inductionHypothesis =>
      obtain ⟨next, taken, ran⟩ := Option.bind_eq_some_iff.mp ran
      exact inductionHypothesis (stuck.act taken) ran

theorem pinger_of_advance {s s' : Session β μ} {who : Actor}
    {after : Except StreamError Unit → Session β μ → Session β μ} (advanced : s.advance who after = some s')
    (keeps : ∀ result t, (after result t).pinger = t.pinger) : s'.pinger = s.pinger := by
  obtain ⟨op, -, ⟨op', stream, -, rfl⟩ | ⟨result, stream, -, rfl⟩⟩ := advance_eq_some advanced
  · rfl
  · exact keeps result _

theorem pinger_perform (s : Session β μ) (state : β) (move : Move) : (s.perform source state move).pinger = s.pinger := by
  cases move with
  | sleep millis =>
      cases millis <;> rfl
  | _ =>
      rfl

theorem pinger_report (s : Session β μ) (error : RpcError) : (s.report error).pinger = s.pinger := by
  unfold Session.report
  split <;> rfl

theorem pinger_settleEarly (s : Session β μ) (ending : Ending Unit) : (s.settleEarly ending).pinger = s.pinger := by
  unfold Session.settleEarly
  cases ending.result with
  | ok value =>
      rfl
  | error error =>
      dsimp only
      split
      · rfl
      · exact pinger_report s error

theorem pinger_read (s : Session β μ) : s.read.2.pinger = s.pinger := by
  unfold Session.read
  split
  · split
    · rfl
    · split <;> rfl
  · rfl

theorem pinger_of_step {s s' : Session β μ} {who : Actor} (stepped : s.step source who = some s')
    (other : who ≠ .pinger) : s'.pinger = s.pinger := by
  cases who with
  | pinger =>
      exact absurd rfl other
  | handler =>
      change s.handlerStep source = some s' at stepped
      unfold Session.handlerStep at stepped
      split at stepped
      case h_1 state reply moving =>
        cases stepped
        exact pinger_perform s _ _
      case h_2 | h_3 =>
        exact pinger_of_advance stepped fun _ _ => rfl
      all_goals (repeat' split at stepped) <;> cases stepped <;> rfl
  | dispatcher =>
      change s.dispatcherStep = some s' at stepped
      unfold Session.dispatcherStep at stepped
      split at stepped
      case h_1 =>
        split at stepped
        · cases stepped
          rfl
        · split at stepped <;> cases stepped
          exact pinger_settleEarly s _
      case h_2 | h_3 | h_4 =>
        exact pinger_of_advance stepped fun _ _ => rfl
      all_goals nomatch stepped
  | watcher =>
      change s.watcherStep = some s' at stepped
      unfold Session.watcherStep at stepped
      split at stepped
      case h_1 ending waiting ended =>
        cases stepped
        cases ending.result with
        | ok value =>
            rfl
        | error error =>
            exact pinger_report s error
      case h_2 =>
        exact pinger_of_advance stepped fun _ _ => rfl
      case h_3 =>
        nomatch stepped
  | body =>
      change s.bodyStep = some s' at stepped
      unfold Session.bodyStep at stepped
      split at stepped
      · exact pinger_of_advance stepped fun _ _ => rfl
      · nomatch stepped
  | other number =>
      unfold Session.step at stepped
      exact pinger_of_advance stepped fun _ _ => rfl

/-- Only the pinger itself goes on to write. -/
theorem pinger_of_act {turn : Turn} (taken : v.act? source turn = some v') (other : turn ≠ .step .pinger) :
    v'.pinger = v.pinger := by
  cases turn with
  | step who =>
      obtain ⟨s, stepped, rfl⟩ := Option.map_eq_some_iff.mp taken
      exact pinger_of_step stepped fun same => other (congrArg Turn.step same)
  | join =>
      obtain ⟨s, joined, rfl⟩ := Option.map_eq_some_iff.mp taken
      unfold Session.join? at joined
      split at joined <;> cases joined
      exact pinger_settleEarly v.toSession _
  | pass millis =>
      cases taken
      rfl
  | read =>
      unfold act? at taken
      dsimp only at taken
      split at taken
      · next frame s present read =>
        cases taken
        exact (congrArg (fun reading => reading.2.pinger) read).symm.trans (pinger_read v.toSession)
      · next s present read =>
        cases taken
        exact (congrArg (fun reading => reading.2.pinger) read).symm.trans (pinger_read v.toSession)
      · nomatch taken
  | drop =>
      unfold act? at taken
      dsimp only at taken
      split at taken
      · next present =>
        cases taken
        change v.dropBody.pinger = v.pinger
        rw [Session.dropBody, present]
        rfl
      · nomatch taken

/-- Without a turn of the pinger there are no jams. -/
theorem step_pinger_mem_of_isJammed (absent : v.pinger = .absent) {turns : List Turn}
    (ran : v.run? source turns = some v') (jammed : v'.IsJammed) : .step .pinger ∈ turns := by
  induction turns generalizing v with
  | nil =>
      cases ran
      rw [Session.IsJammed, absent] at jammed
      nomatch jammed.2
  | cons turn turns inductionHypothesis =>
      obtain ⟨next, taken, ran⟩ := Option.bind_eq_some_iff.mp ran
      by_cases same : turn = .step .pinger
      · exact List.mem_cons.mpr (.inl same.symm)
      · exact List.mem_cons_of_mem _ (inductionHypothesis ((pinger_of_act taken same).trans absent) ran)

/-- The pinger does not write, and sleeps until its deadline. -/
structure Unpinged (v : Viewing β μ) : Prop where
  silent : v.pinger ≠ .writing
  asleep : v.pinger = .sleeping → v.isAsleep .pinger = true

theorem Unpinged.turn (unpinged : v.Unpinged) (happens : v.Happens source v') : v'.Unpinged := by
  cases happens with
  | rests absent announced =>
      refine ⟨nofun, fun _ => ?_⟩
      rw [Session.isAsleep, List.any_append, List.any_cons]
      simp
  | stops =>
      exact ⟨nofun, nofun⟩
  | pings free sleeping awake =>
      rw [unpinged.asleep sleeping] at awake
      nomatch awake
  | pinged op s writing | quits op error s writing =>
      exact absurd writing unpinged.silent
  | sleeps =>
      refine ⟨unpinged.silent, fun sleeping => ?_⟩
      rw [Session.isAsleep, List.any_append]
      exact Bool.or_eq_true_iff.mpr (.inl (unpinged.asleep sleeping))
  | _ =>
      exact ⟨unpinged.silent, unpinged.asleep⟩

/-- While no time passes there are no jams. -/
theorem pass_mem_of_isJammed (kept : v.Kept) (unpinged : v.Unpinged) {turns : List Turn}
    (ran : v.run? source turns = some v') (jammed : v'.IsJammed) : ∃ millis, .pass millis ∈ turns := by
  induction turns generalizing v with
  | nil =>
      cases ran
      exact absurd jammed.2 unpinged.silent
  | cons turn turns inductionHypothesis =>
      obtain ⟨next, taken, ran⟩ := Option.bind_eq_some_iff.mp ran
      rcases happens_of_act? kept.manned taken with happens | ⟨millis, rfl, -⟩
      · obtain ⟨millis, later⟩ := inductionHypothesis (kept.act taken) (unpinged.turn happens) ran
        exact ⟨millis, List.mem_cons_of_mem _ later⟩
      · exact ⟨millis, List.mem_cons_self⟩

end Viewing

end SchemaRpc
