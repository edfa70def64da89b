import Mathlib.Logic.Relation
import SchemaRpc.Proofs.Session.Stage

/-!
# What every turn keeps

The invariant of a viewing (`Viewing.Kept`): how far the parties of its session have come, which operations they are in, and
what that says about the stream. Each part is shown for one turn by the rules of `Viewing.Happens` (`Viewing.Kept.turn`),
and the whole for a run by induction (`Viewing.Kept.run`).
-/

namespace SchemaRpc

namespace Viewing

variable {β μ : Type} {source : EventSource β μ} {v v' : Viewing β μ}

/-- The calls that the handler's moves account for. -/
def Allows (v : Viewing β μ) (call : Call) : Prop :=
  call = .close true → .close true ∈ v.moves

/-- What holds of a viewing after every turn. -/
structure Kept (v : Viewing β μ) : Prop where
  backed : v.machine.Backed v.Allows
  orderly : v.machine.Orderly
  manned : v.Manned
  stage : v.Stage
  pinged : v.pinger ≠ .absent → v.stream.announced = true
  /-- Before the first write is announced the handler is about to announce it, or there is none. -/
  unannounced : v.dispatcher = .waiting → v.stream.announced = false →
    v.stream.phase = .idle ∨ ∃ next, v.machine.op? .handler = some (.announce next)
  receiving : v.stream.receiving = false ↔ v.body = .gone ∨ ∃ error, v.dispatcher = .refused error
  peer : v.stream.peerGone = true → v.IsLeft
  refusing : v.IsRefusing → v.stream.accepted = [] ∧ v.stream.announced = false
  settled : v.IsOver → v.stream.phase = .closed
  /-- A stream that is closed ends, unless there is nobody left to receive it. -/
  ended : v.stream.phase = .closed → v.stream.sender = .gone ∨ v.IsLeft ∨ v.IsRefusing
  streaming : v.dispatcher = .streaming → v.stream.phase ≠ .idle
  closing : v.dispatcher = .closing → ∀ ending error, v.handler = .ended ending → ending.result = .error error →
    v.stream.phase ≠ .idle

theorem Happens.manned (happens : v.Happens source v') (manned : v.Manned) (stage : v.Stage) : v'.Manned := by
  cases happens with
  | works who op op' s under stepped =>
      exact manned.works under stepped
  | pushes | closes | abandons | settles | reports | pings | leaves =>
      refine manned.calls rfl (by simp [Session.Asks]) fun other different call => ?_
      cases other <;> first | exact absurd rfl different | exact Iff.rfl
  | replied | refuses | watched | pinged | quits | left =>
      refine manned.returns (fun _ => rfl) (by simp [Session.Asks]) fun other different call => ?_
      cases other <;> first | exact absurd rfl different | exact Iff.rfl
  | answers op result s closing under stepped =>
      refine manned.returns (fun _ => rfl) (by simp [Session.Asks]) fun other different call => ?_
      cases stage <;> cases other <;> simp_all [Session.Asks]
  | streams waits announced =>
      refine manned.same rfl fun other call => ?_
      cases stage <;> cases other <;> simp_all [Session.Asks]
  | setsPing _ _ _ _ moving | sleeps _ _ _ _ moving | passes _ _ _ _ _ moving | finishes _ _ _ _ moving =>
      refine manned.same rfl fun other call => ?_
      cases other <;> simp [Session.Asks, moving]
  | awaits state state' reply move waiting moving next waits =>
      refine manned.same rfl fun other call => ?_
      rcases waits with ⟨rfl, -⟩ | ⟨untilDone, rfl, -⟩ <;> cases other <;> simp [Session.Asks, moving]
  | wakes state reply mailbox waits =>
      refine manned.same rfl fun other call => ?_
      rcases waits with asleep | awaiting | ⟨untilDone, receiving⟩ <;> cases other <;> simp [Session.Asks, *]
  | rests idle | stops idle =>
      refine manned.same rfl fun other call => ?_
      cases other <;> simp [Session.Asks, idle]
  | receives =>
      refine manned.same rfl fun other call => ?_
      cases other <;> exact Iff.rfl

theorem Happens.moves (happens : v.Happens source v') : ∃ more, v'.moves = v.moves ++ more := by
  cases happens with
  | pushes | closes | setsPing | sleeps | awaits | passes | finishes =>
      exact ⟨_, rfl⟩
  | _ =>
      exact ⟨[], (List.append_nil _).symm⟩

/-- A turn is made up of turns of the machine. -/
theorem Happens.stirs (happens : v.Happens source v') (pinged : v.pinger ≠ .absent → v.stream.announced = true) :
    Relation.ReflTransGen (Machine.Stirs v'.Allows) v.machine v'.machine := by
  cases happens with
  | works who op op' s under stepped =>
      exact .single (.moved who op op' s under stepped)
  | pushes state state' reply event free =>
      exact .single (.called .handler _ free nofun nofun)
  | closes state state' reply notify free =>
      refine .single (.called .handler _ free nofun fun same => ?_)
      rw [← Call.close.inj same]
      exact List.mem_append_right _ (List.mem_singleton_self _)
  | abandons ending error free =>
      exact .single (.called .dispatcher _ free nofun nofun)
  | settles ending free =>
      exact .single (.called .dispatcher _ free nofun nofun)
  | reports ending free =>
      exact .single (.called .watcher _ free nofun nofun)
  | pings free sleeping =>
      refine .single (.called .pinger _ free (fun _ => pinged ?_) nofun)
      rw [sleeping]
      nofun
  | leaves free =>
      exact .single (.called .body _ free nofun nofun)
  | replied state reply op result s waits under stepped =>
      exact .single (.returned .handler op result s under stepped)
  | answers op result s closing under stepped =>
      exact .single (.returned .dispatcher op result s under stepped)
  | watched op result s closing under stepped =>
      exact .single (.returned .watcher op result s under stepped)
  | pinged op s writing under stepped =>
      exact .single (.returned .pinger op _ s under stepped)
  | quits op error s writing under stepped =>
      exact .single (.returned .pinger op _ s under stepped)
  | left op result s leaving under stepped =>
      exact .single (.returned .body op result s under stepped)
  | refuses error op result s abandoning under stepped =>
      exact .tail (.single (.returned .dispatcher op result s under stepped)) .dropped
  | setsPing state state' reply millis =>
      exact .single (.setPing millis)
  | receives =>
      exact .single .received
  | sleeps | awaits | passes | finishes | wakes | streams | rests | stops =>
      exact .refl

/-- What a turn does to the phase, the frames and the start signal is the step of one operation. -/
theorem Happens.touches (happens : v.Happens source v') :
    (v'.stream.phase = v.stream.phase ∧ v'.stream.accepted = v.stream.accepted ∧
        v'.stream.announced = v.stream.announced) ∨
      ∃ who op s, v.machine.op? who = some op ∧ op.Touches who v.stream s ∧ v'.stream.phase = s.phase ∧
        v'.stream.accepted = s.accepted ∧ v'.stream.announced = s.announced := by
  cases happens with
  | works who op op' s under stepped =>
      exact .inr ⟨who, op, s, under, Op.touches_of_next stepped, rfl, rfl, rfl⟩
  | replied state reply op result s waits under stepped =>
      exact .inr ⟨_, op, s, under, Op.touches_of_finished stepped, rfl, rfl, rfl⟩
  | refuses error op result s waits under stepped =>
      exact .inr ⟨_, op, s, under, Op.touches_of_finished stepped, rfl, rfl, rfl⟩
  | answers op result s waits under stepped | watched op result s waits under stepped
  | left op result s waits under stepped =>
      exact .inr ⟨_, op, s, under, Op.touches_of_finished stepped, rfl, rfl, rfl⟩
  | pinged op s waits under stepped =>
      exact .inr ⟨_, op, s, under, Op.touches_of_finished stepped, rfl, rfl, rfl⟩
  | quits op error s waits under stepped =>
      exact .inr ⟨_, op, s, under, Op.touches_of_finished stepped, rfl, rfl, rfl⟩
  | _ =>
      exact .inl ⟨rfl, rfl, rfl⟩

section Turn

variable (happens : v.Happens source v') (kept : v.Kept)

include happens kept

theorem Kept.machine : v'.machine.Backed v'.Allows ∧ v'.machine.Orderly := by
  have allows : ∀ call, v.Allows call → v'.Allows call := by
    intro call allowed same
    obtain ⟨more, moves⟩ := happens.moves
    rw [moves]
    exact List.mem_append_left _ (allowed same)
  have stirs := happens.stirs kept.pinged
  generalize v'.machine = machine at stirs ⊢
  induction stirs with
  | refl =>
      exact ⟨kept.backed.mono allows, kept.orderly⟩
  | tail early late inductionHypothesis =>
      obtain ⟨backed, orderly⟩ := inductionHypothesis
      exact ⟨backed.stirs late, orderly.stirs backed late⟩

theorem Kept.goes : v.stream.phase.Goes v'.stream.phase := by
  have stirs := happens.stirs kept.pinged
  change v.machine.stream.phase.Goes v'.machine.stream.phase
  generalize v'.machine = machine at stirs ⊢
  induction stirs with
  | refl =>
      exact .stay _
  | tail early late inductionHypothesis =>
      exact inductionHypothesis.trans late.goes

theorem Kept.gone (gone : v.stream.sender = .gone) : v'.stream.sender = .gone := by
  have stirs := happens.stirs kept.pinged
  change v'.machine.stream.sender = .gone
  generalize v'.machine = machine at stirs ⊢
  induction stirs with
  | refl =>
      exact gone
  | tail early late inductionHypothesis =>
      exact late.gone inductionHypothesis

theorem Kept.announced (announced : v.stream.announced = true) : v'.stream.announced = true := by
  have stirs := happens.stirs kept.pinged
  change v'.machine.stream.announced = true
  generalize v'.machine = machine at stirs ⊢
  induction stirs with
  | refl =>
      exact announced
  | tail early late inductionHypothesis =>
      exact late.announced inductionHypothesis

theorem Kept.peerGone (known : v.stream.peerGone = true) : v'.stream.peerGone = true := by
  have stirs := happens.stirs kept.pinged
  change v'.machine.stream.peerGone = true
  generalize v'.machine = machine at stirs ⊢
  induction stirs with
  | refl =>
      exact known
  | tail early late inductionHypothesis =>
      exact late.peerGone inductionHypothesis

/-! ## The parts of the invariant -/

theorem Kept.told_of_same {ending : Ending Unit} (told : v.Told ending) (same : v'.outcomes = v.outcomes) :
    v'.Told ending := by
  unfold Session.Told at told ⊢
  rw [same]
  cases result : ending.result with
  | ok value =>
      rw [result] at told
      exact told
  | error error =>
      rw [result] at told
      rcases told with reported | ⟨quiet, known⟩
      · exact .inl reported
      · exact .inr ⟨quiet, kept.peerGone happens known⟩

theorem Kept.stage_turn : v'.Stage := by
  have told (ending : Ending Unit) (isTold : v.Told ending) (same : v'.outcomes = v.outcomes) : v'.Told ending :=
    kept.told_of_same happens isTold same
  cases happens with
  | works | receives | quits | pings | pinged | rests | stops =>
      exact kept.stage.same rfl rfl Iff.rfl (fun _ => id) rfl fun ending isTold => told ending isTold rfl
  | pushes _ _ _ _ _ moving | closes _ _ _ _ _ moving | sleeps _ _ _ _ moving | awaits _ _ _ _ _ moving
  | finishes _ _ _ _ moving =>
      refine kept.stage.same rfl rfl Iff.rfl ?_ rfl fun ending isTold => told ending isTold rfl
      rw [moving]
      rintro ending ⟨⟩
  | setsPing _ _ _ _ moving | passes _ _ _ _ _ moving =>
      refine kept.stage.same rfl rfl Iff.rfl ?_ (Session.outcomes_replied _ rfl) fun ending isTold =>
        told ending isTold (Session.outcomes_replied _ rfl)
      rw [moving]
      rintro ending ⟨⟩
  | replied state reply op result s waits =>
      refine kept.stage.same rfl rfl Iff.rfl ?_ (Session.outcomes_replied _ rfl) fun ending isTold =>
        told ending isTold (Session.outcomes_replied _ rfl)
      rcases waits with pushing | closing
      · rw [pushing]
        rintro ending ⟨⟩
      · rw [closing]
        rintro ending ⟨⟩
  | wakes state reply mailbox waits =>
      refine kept.stage.same rfl rfl Iff.rfl ?_ (Session.outcomes_replied _ rfl) fun ending isTold =>
        told ending isTold (Session.outcomes_replied _ rfl)
      rcases waits with asleep | awaiting | ⟨untilDone, receiving⟩
      · rw [asleep]
        rintro ending ⟨⟩
      · rw [awaiting]
        rintro ending ⟨⟩
      · rw [receiving]
        rintro ending ⟨⟩
  | left op result s leaving =>
      refine kept.stage.same rfl rfl ?_ (fun _ => id) rfl fun ending isTold => told ending isTold rfl
      rw [leaving]
      exact iff_of_false (by rintro ⟨⟩) (by rintro ⟨⟩)
  | leaves free present =>
      refine kept.stage.same rfl rfl ?_ (fun _ => id) rfl fun ending isTold => told ending isTold rfl
      rw [present]
      exact iff_of_false (by rintro ⟨⟩) (by rintro ⟨⟩)
  | streams waits =>
      have stage := kept.stage
      cases stage with
      | waiting dispatcher watcher body quiet =>
          exact .watched rfl rfl (by rintro ⟨⟩) quiet
      | _ =>
          simp_all
  | abandons ending error free waits ended failed idle =>
      cases kept.stage with
      | waiting dispatcher watcher body quiet =>
          exact .abandoning ending error rfl watcher body ended failed quiet
      | _ =>
          simp_all
  | settles ending free waits ended started =>
      cases kept.stage with
      | waiting dispatcher watcher body quiet =>
          exact .closing ending rfl watcher body ended (Session.told_of_verdict quiet rfl rfl)
      | _ =>
          simp_all
  | refuses error op result s abandoning =>
      cases kept.stage with
      | abandoning ending error' dispatcher watcher body handler failed quiet =>
          obtain rfl : error = error' := DispatcherState.abandoning.inj (abandoning.symm.trans dispatcher)
          refine .refused ending error rfl watcher body handler failed ?_
          rw [Session.outcomes, List.filter_append]
          change v.outcomes ++ _ = _
          rw [quiet]
          rfl
      | _ =>
          simp_all
  | answers op result s closing =>
      cases kept.stage with
      | closing ending dispatcher watcher body handler isTold =>
          exact .answered ending rfl watcher (by rintro ⟨⟩) handler (told ending isTold rfl)
      | _ =>
          simp_all
  | reports ending free waits ended =>
      cases kept.stage with
      | watched dispatcher watcher body quiet =>
          exact .reporting ending dispatcher rfl body ended (Session.told_of_verdict quiet rfl rfl)
      | _ =>
          simp_all
  | watched op result s closing =>
      cases kept.stage with
      | reporting ending dispatcher watcher body handler isTold =>
          exact .finished ending dispatcher rfl body handler (told ending isTold rfl)
      | _ =>
          simp_all

theorem Kept.pinged_turn (present : v'.pinger ≠ .absent) : v'.stream.announced = true := by
  by_cases absent : v.pinger = .absent
  · cases happens with
    | rests absent announced =>
        exact announced
    | stops idle | pings free idle | pinged op s idle | quits op error s idle =>
        rw [absent] at idle
        nomatch idle
    | _ =>
        exact absurd absent present
  · exact kept.announced happens (kept.pinged absent)

omit happens

/-- In the error response nobody takes part but the dispatcher. -/
theorem Kept.only_dispatcher {who : Actor} {op : Op} (refusing : v.IsRefusing) (under : v.machine.op? who = some op) :
    who = .dispatcher ∧ op.Serves .abandon := by
  obtain ⟨watcher, body, ending, handler⟩ := kept.stage.of_refusing refusing
  have pinger : v.pinger = .absent := by
    by_contra present
    have announced := kept.pinged present
    rw [(kept.refusing refusing).2] at announced
    nomatch announced
  obtain ⟨call, asks, serves⟩ := kept.manned.serves who op under
  cases who with
  | dispatcher =>
      rcases asks with ⟨-, rfl⟩ | ⟨closing, -⟩
      · exact ⟨rfl, serves⟩
      · obtain ⟨error, abandoning | refused⟩ := refusing <;> simp_all
  | handler | watcher | pinger | body | other =>
      simp_all [Session.Asks]

theorem Kept.free_of_refused {error : RpcError} (refused : v.dispatcher = .refused error) (who : Actor) :
    v.machine.op? who = none := by
  cases under : v.machine.op? who with
  | none =>
      rfl
  | some op =>
      obtain ⟨rfl, -⟩ := kept.only_dispatcher ⟨error, .inr refused⟩ under
      obtain ⟨call, asks, -⟩ := kept.manned.serves _ op under
      simp_all [Session.Asks]

/-- Only the body's operation ends with nobody receiving. -/
theorem Kept.receiving_of_finished {who : Actor} {op : Op} {result : Except StreamError Unit} {s : EventStream}
    (under : v.machine.op? who = some op) (stepped : op.step who v.stream = .finished result s)
    (different : who ≠ .body) : s.receiving = v.stream.receiving := by
  rcases (Op.delivers_of_finished stepped).receiving with same | ⟨rfl, -⟩
  · exact same
  · obtain ⟨call, asks, serves⟩ := kept.manned.serves who _ under
    rcases serves with rfl | rfl <;> cases who <;> simp_all [Session.Asks]

/-- Only the body tells of a receiving end that is lost, while it leaves. -/
theorem Kept.lost {who : Actor} {op : Op} (under : v.machine.op? who = some op)
    (lost : op.loser? = some .receiver) : who = .body ∧ v.body = .leaving := by
  obtain ⟨call, asks, serves⟩ := kept.manned.serves who op under
  have leaves : call = .disconnect ∨ call = .leave := by
    cases op <;> cases lost <;> exact serves
  rcases leaves with rfl | rfl <;> cases who <;> simp_all [Session.Asks]

theorem Kept.leaving {who : Actor} {op : Op} (under : v.machine.op? who = some op)
    (lost : op.loser? = some .receiver) : v.body = .leaving :=
  (kept.lost under lost).2

include happens

theorem Kept.receiving_turn :
    v'.stream.receiving = false ↔ v'.body = .gone ∨ ∃ error, v'.dispatcher = .refused error := by
  have before := kept.receiving
  cases happens with
  | works who op op' s under stepped =>
      rcases (Op.delivers_of_next stepped).receiving with same | ⟨rfl, -⟩
      · change s.receiving = false ↔ _
        rw [same]
        exact before
      · nomatch stepped
  | replied state reply op result s waits under stepped =>
      change s.receiving = false ↔ _
      rw [kept.receiving_of_finished under stepped nofun]
      exact before
  | watched op result s closing under stepped =>
      change s.receiving = false ↔ _
      rw [kept.receiving_of_finished under stepped nofun]
      exact before
  | pinged op s writing under stepped =>
      change s.receiving = false ↔ _
      rw [kept.receiving_of_finished under stepped nofun]
      exact before
  | quits op error s writing under stepped =>
      change s.receiving = false ↔ _
      rw [kept.receiving_of_finished under stepped nofun]
      exact before
  | answers op result s closing under stepped =>
      obtain ⟨body, -⟩ := kept.stage.of_closing closing
      change s.receiving = false ↔ _
      rw [kept.receiving_of_finished under stepped nofun, before, body, closing]
      simp
  | refuses error =>
      exact iff_of_true rfl (.inr ⟨error, rfl⟩)
  | left op result s leaving under stepped =>
      obtain ⟨call, ⟨-, rfl⟩, serves⟩ := kept.manned.serves .body op under
      obtain rfl := Op.eq_dropReceiver_of_finished stepped serves
      cases stepped
      exact iff_of_true rfl (.inl rfl)
  | leaves free present =>
      change v.stream.receiving = false ↔ _
      rw [before, present]
      simp
  | streams waits =>
      obtain ⟨-, body, -⟩ := kept.stage.of_waiting waits
      change v.stream.receiving = false ↔ _
      rw [before, body, waits]
      simp
  | abandons ending error free waits | settles ending free waits =>
      change v.stream.receiving = false ↔ _
      rw [before, waits]
      simp
  | pushes | closes | setsPing | sleeps | awaits | passes | finishes | wakes | reports | rests | stops | pings | receives =>
      exact before

theorem Kept.peer_turn (known : v'.stream.peerGone = true) : v'.IsLeft := by
  -- Nobody is under way when the response is an error, so the receiving end was dropped with the body.
  have gone {who : Actor} {op : Op} (under : v.machine.op? who = some op) (notReceiving : v.stream.receiving = false) :
      v.body = .gone := by
    rcases kept.receiving.mp notReceiving with gone | ⟨error, refused⟩
    · exact gone
    · rw [kept.free_of_refused refused who] at under
      nomatch under
  cases happens with
  | works who op op' s under stepped =>
      rcases (Op.delivers_of_next stepped).peerGone known with before | ⟨loser, rfl⟩ | ⟨rfl, notReceiving⟩
      · exact kept.peer before
      · cases loser with
        | write =>
            exact .inr (gone under (kept.orderly.missed who _ under rfl))
        | receiver =>
            exact .inl (kept.leaving under rfl)
      · exact .inr (gone under notReceiving)
  | replied state reply op result s waits under stepped =>
      exact kept.peer ((Op.peerGone_of_finished stepped).symm.trans known)
  | refuses error op result s abandoning under stepped =>
      exact kept.peer ((Op.peerGone_of_finished stepped).symm.trans known)
  | watched op result s closing under stepped =>
      exact kept.peer ((Op.peerGone_of_finished stepped).symm.trans known)
  | pinged op s writing under stepped =>
      exact kept.peer ((Op.peerGone_of_finished stepped).symm.trans known)
  | quits op error s writing under stepped =>
      exact kept.peer ((Op.peerGone_of_finished stepped).symm.trans known)
  | answers op result s closing under stepped =>
      obtain ⟨body, -⟩ := kept.stage.of_closing closing
      exact absurd (kept.peer ((Op.peerGone_of_finished stepped).symm.trans known)) (Session.not_isLeft_of_absent body)
  | streams waits =>
      obtain ⟨-, body, -⟩ := kept.stage.of_waiting waits
      exact absurd (kept.peer known) (Session.not_isLeft_of_absent body)
  | left =>
      exact .inr rfl
  | leaves =>
      exact .inl rfl
  | pushes | closes | setsPing | sleeps | awaits | passes | finishes | wakes | abandons | settles | reports | rests
  | stops | pings | receives =>
      exact kept.peer known

theorem Kept.refusing_turn (refusing : v'.IsRefusing) :
    v'.stream.accepted = [] ∧ v'.stream.announced = false := by
  by_cases before : v.IsRefusing
  · obtain ⟨accepted, announced⟩ := kept.refusing before
    rcases happens.touches with ⟨-, accepted', announced'⟩ | ⟨who, op, s, under, touches, -, accepted', announced'⟩
    · exact ⟨accepted'.trans accepted, announced'.trans announced⟩
    · -- The dispatcher's operation neither sends a frame nor starts the stream.
      obtain ⟨-, serves⟩ := kept.only_dispatcher before under
      constructor
      · rcases touches.accepted with same | ⟨frame, rfl, -⟩ | ⟨rfl, -⟩
        · exact accepted'.trans (same.trans accepted)
        · exact serves.1.elim
        · nomatch serves
      · rcases touches.announced with same | ⟨next, rfl⟩
        · exact announced'.trans (same.trans announced)
        · cases next <;> nomatch serves
  · cases happens with
    | abandons ending error free waits ended failed idle =>
        have unannounced : v.stream.announced = false := by
          by_contra announced
          exact kept.backed.ne_idle (Bool.not_eq_false _ ▸ announced) idle
        exact ⟨kept.backed.accepted idle, unannounced⟩
    | refuses error op result s abandoning =>
        exact absurd ⟨error, .inl abandoning⟩ before
    | streams | settles | answers =>
        obtain ⟨error, impossible | impossible⟩ := refusing <;> nomatch impossible
    | _ =>
        exact absurd refusing before

theorem Kept.settled_turn (isOver : v'.IsOver) : v'.stream.phase = .closed := by
  -- A party that has abandoned or closed the stream leaves it closed.
  have closed {who : Actor} {op : Op} {result : Except StreamError Unit} {s : EventStream}
      (under : v.machine.op? who = some op) (stepped : op.step who v.stream = .finished result s)
      (asks : ∀ call, v.Asks who call → call = .abandon ∨ call = .close false) : s.phase = .closed := by
    obtain ⟨call, asked, serves⟩ := kept.manned.serves who op under
    have noWrite : ¬call.IsWrite := by
      rcases asks call asked with rfl | rfl <;> exact id
    rcases Op.hasClosed_of_finished stepped serves noWrite with hasClosed | closed
    · exact (Op.touches_of_finished stepped).goes.eq_closed (kept.orderly.closed who op under hasClosed)
    · exact closed
  have still (wasOver : v.IsOver) : v'.stream.phase = .closed :=
    (kept.goes happens).eq_closed (kept.settled wasOver)
  cases happens with
  | refuses error op result s abandoning under stepped =>
      have isClosed : s.phase = .closed := by
        apply closed under stepped
        rintro call (⟨-, rfl⟩ | ⟨-, rfl⟩)
        · exact .inl rfl
        · exact .inr rfl
      exact isClosed
  | answers op result s isClosing under stepped =>
      have isClosed : s.phase = .closed := by
        apply closed under stepped
        rintro call (⟨-, rfl⟩ | ⟨-, rfl⟩)
        · exact .inl rfl
        · exact .inr rfl
      exact isClosed
  | watched op result s isClosing under stepped =>
      have isClosed : s.phase = .closed := by
        apply closed under stepped
        rintro call ⟨-, rfl⟩
        exact .inr rfl
      exact isClosed
  | abandons | settles =>
      rcases isOver with ⟨error, impossible⟩ | ⟨impossible, -⟩ <;> nomatch impossible
  | streams =>
      rcases isOver with ⟨error, impossible⟩ | ⟨-, impossible | impossible⟩ <;> nomatch impossible
  | reports =>
      rcases isOver with ⟨error, refused⟩ | ⟨streaming, impossible | impossible⟩
      · exact still (.inl ⟨error, refused⟩)
      · nomatch impossible
      · nomatch impossible
  | works | pushes | closes | setsPing | sleeps | awaits | passes | finishes | replied | wakes | rests | stops | pings
  | pinged | quits | left | receives | leaves =>
      exact still isOver

theorem Kept.streaming_turn (streaming : v'.dispatcher = .streaming) : v'.stream.phase ≠ .idle := by
  by_cases before : v.dispatcher = .streaming
  · exact (kept.goes happens).ne_idle (kept.streaming before)
  · have goes := kept.goes happens
    have settled := kept.settled_turn happens
    cases happens with
    | streams waits announced =>
        exact goes.ne_idle (kept.backed.ne_idle announced)
    | answers op result s closing =>
        obtain ⟨-, ending, handler⟩ := kept.stage.of_closing closing
        have watcher : v.watcher = .absent := by
          cases kept.stage <;> simp_all
        rw [settled (.inr ⟨rfl, .inl watcher⟩)]
        nofun
    | abandons | settles | refuses =>
        nomatch streaming
    | _ =>
        exact absurd streaming before

theorem Kept.closing_turn (closing : v'.dispatcher = .closing) (ending : Ending Unit) (error : RpcError)
    (ended : v'.handler = .ended ending) (failed : ending.result = .error error) : v'.stream.phase ≠ .idle := by
  by_cases before : v.dispatcher = .closing
  · obtain ⟨-, ending', handler⟩ := kept.stage.of_closing before
    have goes := kept.goes happens
    have same : v'.handler = v.handler := by
      cases happens with
      | pushes _ _ _ _ _ moving | closes _ _ _ _ _ moving | sleeps _ _ _ _ moving | awaits _ _ _ _ _ moving
      | finishes _ _ _ _ moving | setsPing _ _ _ _ moving | passes _ _ _ _ _ moving =>
          rw [handler] at moving
          nomatch moving
      | replied state reply op result s waits =>
          rw [handler] at waits
          rcases waits with impossible | impossible <;> nomatch impossible
      | wakes state reply mailbox waits =>
          rw [handler] at waits
          rcases waits with impossible | impossible | ⟨untilDone, impossible⟩ <;> nomatch impossible
      | _ =>
          rfl
    exact goes.ne_idle (kept.closing before ending error (same.symm.trans ended) failed)
  · cases happens with
    | settles ending' free waits ended' started =>
        obtain rfl : ending' = ending := HandlerState.ended.inj (ended'.symm.trans ended)
        exact started error failed
    | streams | abandons | refuses | answers =>
        nomatch closing
    | _ =>
        exact absurd closing before

theorem Kept.unannounced_turn (waiting : v'.dispatcher = .waiting) (unannounced : v'.stream.announced = false) :
    v'.stream.phase = .idle ∨ ∃ next, v'.machine.op? .handler = some (.announce next) := by
  have waits : v.dispatcher = .waiting := by
    cases happens with
    | streams | abandons | settles | refuses | answers =>
        cases waiting
    | _ =>
        exact waiting
  have before : v.stream.announced = false := by
    cases announced : v.stream.announced with
    | false =>
        rfl
    | true =>
        rw [kept.announced happens announced] at unannounced
        cases unannounced
  obtain ⟨watcher, body, -⟩ := kept.stage.of_waiting waits
  have pinger : v.pinger = .absent := by
    by_contra present
    rw [kept.pinged present] at before
    cases before
  have receiving : v.stream.receiving = true := by
    cases receiving : v.stream.receiving with
    | true =>
        rfl
    | false =>
        rw [kept.receiving, body, waits] at receiving
        rcases receiving with impossible | ⟨error, impossible⟩ <;> cases impossible
  -- Only the handler is at work, and it does not close a stream that is idle.
  have only {who : Actor} {op : Op} (under : v.machine.op? who = some op) : who = .handler := by
    obtain ⟨call, asks, -⟩ := kept.manned.serves who op under
    cases who with
    | handler =>
        rfl
    | dispatcher | watcher | pinger | body | other =>
        simp_all [Session.Asks]
  have opens {who : Actor} {op : Op} (under : v.machine.op? who = some op) (idle : v.stream.phase = .idle) :
      ¬op.Closes := by
    intro closes
    obtain rfl := only under
    obtain ⟨call, asks, serves⟩ := kept.manned.serves .handler op under
    cases op with
    | setClosed =>
        exact kept.orderly.started .handler _ under trivial idle
    | giveUp =>
        cases serves
        rcases asks with ⟨-, event, impossible⟩ | ⟨-, notify, impossible⟩ <;> cases impossible
    | lose loser =>
        cases loser with
        | write =>
            have missed := kept.orderly.missed .handler _ under rfl
            change v.stream.receiving = false at missed
            rw [receiving] at missed
            cases missed
        | receiver =>
            have leaving := kept.leaving under rfl
            rw [body] at leaving
            cases leaving
    | _ =>
        exact closes.elim
  have start := kept.unannounced waits before
  cases happens with
  | works who op op' s under stepped =>
      obtain rfl := only under
      rcases start with idle | ⟨next, announcing⟩
      · rcases (Op.touches_of_next stepped).phase with same | ⟨next, rfl, -⟩ | closes
        · exact .inl (same.trans idle)
        · simp only [Op.step, Op.startStep, idle] at stepped
          cases stepped
          exact .inr ⟨next, Machine.op?_reach_self⟩
        · exact absurd closes (opens under idle)
      · rw [under] at announcing
        cases announcing
        cases stepped
        cases unannounced
  | replied state reply op result s waits under stepped =>
      rcases start with idle | ⟨next, announcing⟩
      · rcases (Op.touches_of_finished stepped).phase with same | ⟨next, rfl, -⟩ | closes
        · exact .inl (same.trans idle)
        · simp only [Op.step, Op.startStep, idle] at stepped
          cases stepped
        · exact absurd closes (opens under idle)
      · rw [under] at announcing
        cases announcing
        cases stepped
  | pushes _ _ _ _ free | closes _ _ _ _ free =>
      rcases start with idle | ⟨next, announcing⟩
      · exact .inl idle
      · rw [free] at announcing
        cases announcing
  | watched op result s closing under | left op result s closing under =>
      cases only under
  | pinged op s closing under | quits op error s closing under =>
      cases only under
  | reports ending free waits =>
      rw [watcher] at waits
      cases waits
  | pings free sleeping =>
      rw [pinger] at sleeping
      cases sleeping
  | leaves free present =>
      rw [body] at present
      cases present
  | streams | abandons | settles | refuses | answers =>
      cases waiting
  | setsPing | sleeps | awaits | passes | finishes | wakes | rests | stops | receives =>
      exact start

theorem Kept.isLeft_turn (isLeft : v.IsLeft) : v'.IsLeft := by
  cases happens with
  | left =>
      exact .inr rfl
  | leaves =>
      exact .inl rfl
  | streams waits =>
      obtain ⟨-, body, -⟩ := kept.stage.of_waiting waits
      exact absurd isLeft (Session.not_isLeft_of_absent body)
  | answers op result s closing =>
      obtain ⟨body, -⟩ := kept.stage.of_closing closing
      exact absurd isLeft (Session.not_isLeft_of_absent body)
  | _ =>
      exact isLeft

omit kept in
theorem Happens.isRefusing (refusing : v.IsRefusing) : v'.IsRefusing := by
  obtain ⟨error, abandoning | refused⟩ := refusing
  · cases happens with
    | refuses error' =>
        exact ⟨error', .inr rfl⟩
    | abandons ending error' =>
        exact ⟨error', .inl rfl⟩
    | streams waits | settles ending free waits | answers op result s waits =>
        rw [abandoning] at waits
        nomatch waits
    | _ =>
        exact ⟨error, .inl abandoning⟩
  · cases happens with
    | refuses error' =>
        exact ⟨error', .inr rfl⟩
    | abandons ending error' =>
        exact ⟨error', .inl rfl⟩
    | streams waits | settles ending free waits | answers op result s waits =>
        rw [refused] at waits
        nomatch waits
    | _ =>
        exact ⟨error, .inr refused⟩

omit happens in
/-- An operation that closes the stream has the sender dropped before, or drops it for lack of a client. -/
theorem Kept.ended_of_closes {who : Actor} {op : Op} (under : v.machine.op? who = some op) (closes : op.Closes) :
    v.stream.sender = .gone ∨ v.IsLeft ∨ v.IsRefusing := by
  cases op with
  | setClosed =>
      exact .inl (kept.orderly.ended who under)
  | giveUp =>
      obtain ⟨call, asks, serves⟩ := kept.manned.serves who _ under
      cases serves
      cases who with
      | dispatcher =>
          rcases asks with ⟨⟨error, abandoning⟩, -⟩ | ⟨-, impossible⟩
          · exact .inr (.inr ⟨error, .inl abandoning⟩)
          · nomatch impossible
      | handler | watcher | pinger | body | other =>
          simp [Session.Asks] at asks
  | lose loser =>
      cases loser with
      | write =>
          rcases kept.receiving.mp (kept.orderly.missed who _ under rfl) with gone | ⟨error, refused⟩
          · exact .inr (.inl (.inr gone))
          · exact .inr (.inr ⟨error, .inr refused⟩)
      | receiver =>
          exact .inr (.inl (.inl (kept.leaving under rfl)))
  | _ =>
      exact closes.elim

theorem Kept.ended_turn (closed : v'.stream.phase = .closed) :
    v'.stream.sender = .gone ∨ v'.IsLeft ∨ v'.IsRefusing := by
  have still (ended : v.stream.sender = .gone ∨ v.IsLeft ∨ v.IsRefusing) :
      v'.stream.sender = .gone ∨ v'.IsLeft ∨ v'.IsRefusing :=
    ended.imp (kept.gone happens) (Or.imp (kept.isLeft_turn happens) happens.isRefusing)
  by_cases before : v.stream.phase = .closed
  · exact still (kept.ended before)
  · apply still
    rcases happens.touches with ⟨phase, -⟩ | ⟨who, op, s, under, touches, phase, -⟩
    · exact absurd (phase.symm.trans closed) before
    · exact kept.ended_of_closes under (touches.closes before (phase.symm.trans closed))

/-- Each turn keeps the invariant. -/
theorem Kept.turn : v'.Kept where
  backed := (kept.machine happens).1
  orderly := (kept.machine happens).2
  manned := happens.manned kept.manned kept.stage
  stage := kept.stage_turn happens
  pinged := kept.pinged_turn happens
  unannounced := kept.unannounced_turn happens
  receiving := kept.receiving_turn happens
  peer := kept.peer_turn happens
  refusing := kept.refusing_turn happens
  settled := kept.settled_turn happens
  ended := kept.ended_turn happens
  streaming := kept.streaming_turn happens
  closing := kept.closing_turn happens

end Turn

theorem Kept.elapse (kept : v.Kept) (millis : Nat) : Kept { v with toSession := v.elapse millis } :=
  { kept with
    manned := kept.manned.same rfl fun other call => by cases other <;> exact Iff.rfl
    stage := kept.stage.same rfl rfl Iff.rfl (fun _ => id) rfl fun _ => id }

theorem Kept.act (kept : v.Kept) {turn : Turn} (taken : v.act? source turn = some v') : v'.Kept := by
  rcases happens_of_act? kept.manned taken with happens | ⟨millis, -, rfl⟩
  · exact kept.turn happens
  · exact kept.elapse millis

/-- A viewing begins with a handler that has made no move yet. -/
def start (pingMillis : Nat) (handler : HandlerState β μ) : Viewing β μ :=
  { toSession := .new pingMillis handler }

/-- The handler is about to make its first move, or has been refused its params. -/
def Begins (handler : HandlerState β μ) : Prop :=
  (∃ state reply, handler = .moving state reply) ∨ ∃ ending, handler = .ended ending

theorem kept_start {pingMillis : Nat} {handler : HandlerState β μ} (begins : Begins handler) :
    (start pingMillis handler).Kept where
  backed := Machine.backed_new pingMillis
  orderly := Machine.orderly_new pingMillis
  manned := by
    refine ⟨nofun, fun who call asks => ?_⟩
    rcases begins with ⟨state, reply, rfl⟩ | ⟨ending, rfl⟩ <;> cases who <;>
      simp [Session.Asks, start, Session.new] at asks
  stage := .waiting rfl rfl rfl rfl
  pinged := fun present => absurd rfl present
  unannounced := fun _ _ => .inl rfl
  receiving := by
    refine iff_of_false nofun ?_
    rintro (impossible | ⟨error, impossible⟩) <;> nomatch impossible
  peer := nofun
  refusing := by
    rintro ⟨error, impossible | impossible⟩ <;> nomatch impossible
  settled := by
    rintro (⟨error, impossible⟩ | ⟨impossible, -⟩) <;> nomatch impossible
  ended := nofun
  streaming := nofun
  closing := nofun

section Run

variable {turns : List Turn} (kept : v.Kept) (ran : v.run? source turns = some v')

include kept ran

/-- What every turn keeps, and the passing of time does not touch, a run keeps. -/
theorem Kept.holds_run (holds : Viewing β μ → Prop) (first : holds v)
    (turn : ∀ w w', w.Kept → holds w → w.Happens source w' → holds w')
    (elapse : ∀ w millis, holds w → holds { w with toSession := w.elapse millis }) : v'.Kept ∧ holds v' := by
  induction turns generalizing v with
  | nil =>
      cases ran
      exact ⟨kept, first⟩
  | cons next turns inductionHypothesis =>
      obtain ⟨w, taken, ran⟩ := Option.bind_eq_some_iff.mp ran
      apply inductionHypothesis (kept.act taken) ran
      rcases happens_of_act? kept.manned taken with happens | ⟨millis, -, rfl⟩
      · exact turn v w kept first happens
      · exact elapse v millis first

theorem Kept.run : v'.Kept :=
  (kept.holds_run ran (fun _ => True) trivial (fun _ _ _ _ _ => trivial) fun _ _ _ => trivial).1

end Run

end Viewing

end SchemaRpc
