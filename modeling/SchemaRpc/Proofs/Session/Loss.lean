import SchemaRpc.Proofs.EventStream.Whole
import SchemaRpc.Proofs.Session.Outcome

/-!
# Clients that count as gone

A body that comes to its end looks at the phase, and counts the client as gone when the stream is not closed. But a close
drops the sender before it sets the phase: in between the body is at its end and the stream is not closed. A client that reads
to the end counts as gone exactly in the runs that come to such a moment (`Viewing.Reading.counts_iff`).
-/

namespace SchemaRpc

/-- The client counts as gone, or is going to. -/
def Machine.Counts (m : Machine) : Prop :=
  m.stream.peerGone = true ∨ ∃ loser, m.op? .body = some (.noteLoss loser)

namespace Op

variable {op : Op} {me : Actor} {s s' : EventStream} {loser : Loser}

/-- A loss is noted where the stream was not closed. -/
theorem lose_of_noteLoss (stepped : op.step me s = .next (noteLoss loser) s') :
    op = lose loser ∧ s.phase ≠ .closed := by
  cases op with
  | lose loser' =>
      simp only [step] at stepped
      split at stepped
      · cases loser' <;> cases stepped
      · next notClosed =>
        cases stepped
        exact ⟨rfl, notClosed⟩
  | look notify =>
      simp only [step] at stepped
      split at stepped <;> cases stepped
  | start next =>
      cases next <;> simp only [step, startStep] at stepped <;> split at stepped <;> cases stepped
  | announce next =>
      cases next <;> cases stepped
  | encode event =>
      cases event <;> cases stepped
  | wait next =>
      cases next <;> simp only [step] at stepped <;> split at stepped <;> cases stepped
  | send frame =>
      simp only [step, sendStep] at stepped
      repeat' split at stepped
      all_goals cases stepped
  | take notify =>
      cases notify <;> simp only [step, takeStep] at stepped <;> split at stepped <;> cases stepped
  | sendDone =>
      simp only [step, sendDoneStep] at stepped
      repeat' split at stepped
      all_goals cases stepped
  | leave =>
      simp only [step] at stepped
      split at stepped <;> cases stepped
  | cancelLost loser' =>
      cases loser' <;> cases stepped
  | _ =>
      cases stepped

end Op

namespace Machine

variable {m m' : Machine} {who other : Actor} {op op' : Op} {allowed : Call → Prop}

theorem op?_of_forget (under : (m.forget who).op? other = some op) : m.op? other = some op := by
  by_cases same : other = who
  · subst same
    rw [op?_forget_self] at under
    nomatch under
  · rwa [op?_forget_of_ne same] at under

theorem op?_of_reach (under : (m.reach who op').op? other = some op) : m.op? other = some op ∨ op = op' := by
  by_cases same : other = who
  · subst same
    rw [op?_reach_self] at under
    exact .inr (Option.some.inj under).symm
  · rw [op?_reach_of_ne same] at under
    exact .inl under

/-- A loss that is noted, or is about to be, is not taken back. -/
theorem Counts.stirs (counts : m.Counts) (stirs : m.Stirs allowed m') : m'.Counts := by
  rcases counts with known | ⟨loser, noting⟩
  · exact .inl (stirs.peerGone known)
  cases stirs with
  | called who what free =>
      refine .inr ⟨loser, (op?_reach_of_ne ?_).trans noting⟩
      rintro rfl
      rw [free] at noting
      nomatch noting
  | moved who op op' s under stepped =>
      by_cases same : Actor.body = who
      · subst same
        obtain rfl := Option.some.inj (under.symm.trans noting)
        cases stepped
        exact .inl rfl
      · exact .inr ⟨loser, (op?_reach_of_ne same).trans noting⟩
  | returned who op result s under stepped =>
      refine .inr ⟨loser, (op?_forget_of_ne ?_).trans noting⟩
      rintro rfl
      obtain rfl := Option.some.inj (under.symm.trans noting)
      nomatch stepped
  | received | setPing | dropped =>
      exact .inr ⟨loser, noting⟩

end Machine

namespace Viewing

variable {β μ : Type} {source : EventSource β μ} {v v' : Viewing β μ}

/-! ## One turn -/

/-- One turn takes an operation a step on, or else it tells nothing new of the client, and begins at most an operation. -/
theorem Happens.works_or_quiet (happens : v.Happens source v') :
    (∃ who op op' s, v.machine.op? who = some op ∧ op.step who v.stream = .next op' s ∧
        v'.machine = { v.machine with stream := s }.reach who op') ∨
      v'.stream.peerGone = v.stream.peerGone ∧
        ∀ who op, v'.machine.op? who = some op → v.machine.op? who = some op ∨ ∃ call, op = Call.first call := by
  have begins (who : Actor) (call : Call) (other : Actor) (op : Op)
      (under : (v.machine.reach who call.first).op? other = some op) :
      v.machine.op? other = some op ∨ ∃ call, op = Call.first call :=
    (Machine.op?_of_reach under).imp_right fun same => ⟨call, same⟩
  have ends (who : Actor) (s : EventStream) (other : Actor) (op : Op)
      (under : ({ v.machine with stream := s }.forget who).op? other = some op) :
      v.machine.op? other = some op ∨ ∃ call, op = Call.first call :=
    .inl (Machine.op?_of_forget under)
  cases happens with
  | works who op op' s under stepped =>
      exact .inl ⟨who, op, op', s, under, stepped, rfl⟩
  | pushes | closes | abandons | settles | reports | pings | leaves =>
      exact .inr ⟨rfl, begins _ _⟩
  | replied state reply op result s waits under stepped =>
      exact .inr ⟨Op.peerGone_of_finished stepped, ends _ s⟩
  | refuses error op result s waits under stepped =>
      have peerGone := Op.peerGone_of_finished stepped
      exact .inr ⟨peerGone, ends _ s⟩
  | answers op result s waits under stepped | watched op result s waits under stepped
  | left op result s waits under stepped =>
      exact .inr ⟨Op.peerGone_of_finished stepped, ends _ s⟩
  | pinged op s waits under stepped =>
      exact .inr ⟨Op.peerGone_of_finished stepped, ends _ s⟩
  | quits op error s waits under stepped =>
      exact .inr ⟨Op.peerGone_of_finished stepped, ends _ s⟩
  | _ =>
      exact .inr ⟨rfl, fun who op under => .inl under⟩

theorem Happens.dropped (happens : v.Happens source v') (dropped : v.dropped = true) : v'.dropped = true := by
  cases happens with
  | leaves free present gone why =>
      rcases why with ⟨same, -⟩ | gone
      · exact same.trans dropped
      · exact gone
  | _ =>
      exact dropped

/-- What every turn keeps of a client that reads, beside `Kept` and `Seen`. -/
structure Reading (v : Viewing β μ) : Prop where
  kept : v.Kept
  seen : v.Seen
  settling : v.machine.Settling false
  /-- No write misses a client that reads to the end. -/
  missless : v.dropped = false → ∀ who op, v.machine.op? who = some op → op.loser? ≠ some .write

theorem reading_start {pingMillis : Nat} {handler : HandlerState β μ} (begins : Begins handler) :
    (start pingMillis handler).Reading where
  kept := kept_start begins
  seen := seen_start
  settling := Machine.settling_new pingMillis
  missless := nofun

namespace Reading

variable (reading : v.Reading)

include reading

/-- A client that reads to the end stops receiving when the sender is gone. -/
theorem gone_of_unreceived (undropped : v.dropped = false) {who : Actor} {op : Op} (under : v.machine.op? who = some op)
    (unreceived : v.stream.receiving = false) : v.stream.sender = .gone := by
  rcases reading.kept.receiving.mp unreceived with gone | ⟨error, refused⟩
  · exact (reading.seen.whole undropped (.inr gone)).2
  · rw [reading.kept.free_of_refused refused who] at under
    nomatch under

theorem missless_turn (happens : v.Happens source v') (undropped : v'.dropped = false) (who : Actor) (op : Op)
    (under : v'.machine.op? who = some op) : op.loser? ≠ some .write := by
  have before : v.dropped = false := by
    by_contra dropped
    rw [happens.dropped ((Bool.not_eq_false _).mp dropped)] at undropped
    nomatch undropped
  rcases happens.works_or_quiet with ⟨mover, op', next, s, underMover, stepped, machine⟩ | ⟨-, ops⟩
  · rw [machine] at under
    rcases Machine.op?_of_reach under with underBefore | rfl
    · exact reading.missless before who op underBefore
    · intro missed
      rcases Op.missed_of_next stepped missed with already | ⟨unreceived, present⟩
      · exact reading.missless before mover op' underMover already
      · rw [reading.gone_of_unreceived before underMover unreceived] at present
        nomatch present
  · rcases ops who op under with underBefore | ⟨call, rfl⟩
    · exact reading.missless before who op underBefore
    · cases call <;> nofun

theorem turn (happens : v.Happens source v') : v'.Reading where
  kept := reading.kept.turn happens
  seen := reading.seen.turn happens reading.kept
  settling := by
    have stirs := happens.stirs reading.kept.pinged
    generalize v'.machine = machine at stirs ⊢
    induction stirs with
    | refl =>
        exact reading.settling
    | tail early late inductionHypothesis =>
        exact inductionHypothesis.stirs late
  missless := reading.missless_turn happens

theorem elapse (millis : Nat) : Reading { v with toSession := v.elapse millis } where
  kept := reading.kept.elapse millis
  seen := { reading.seen with }
  settling := reading.settling
  missless := reading.missless

theorem act {turn : Turn} (taken : v.act? source turn = some v') : v'.Reading := by
  rcases happens_of_act? reading.kept.manned taken with happens | ⟨millis, -, rfl⟩
  · exact reading.turn happens
  · exact reading.elapse millis

theorem run {turns : List Turn} (ran : v.run? source turns = some v') : v'.Reading :=
  (reading.kept.holds_run ran Reading reading (fun _ _ _ reading happens => reading.turn happens)
    fun _ millis reading => reading.elapse millis).2

end Reading

/-! ## The moment of a mistake -/

/-- The body has found the stream open at its end and is going to count the client as gone, while the close that has dropped
the sender has still to set the phase. -/
structure Mistakes (v : Viewing β μ) : Prop where
  noting : ∃ loser, v.machine.op? .body = some (.noteLoss loser)
  gone : v.stream.sender = .gone
  closing : ∃ who op, v.machine.op? who = some op ∧ op.WillClose

/-- The run comes to the moment of a mistake. -/
def Mistaken (source : EventSource β μ) (v : Viewing β μ) (turns : List Turn) : Prop :=
  ∃ early late w, turns = early ++ late ∧ v.run? source early = some w ∧ w.Mistakes

namespace Reading

variable (reading : v.Reading)

include reading

/-- A client that reads to the end comes to count as gone by a mistake only. -/
theorem mistakes_of_counts (happens : v.Happens source v') (undropped : v.dropped = false) (counts : v'.machine.Counts) :
    v.machine.Counts ∨ v'.Mistakes := by
  rcases happens.works_or_quiet with ⟨who, op, op', s, under, stepped, machine⟩ | ⟨peerGone, ops⟩
  case inr =>
    left
    rcases counts with known | ⟨loser, noting⟩
    · exact .inl (peerGone.symm.trans known)
    · rcases ops .body _ noting with before | ⟨call, first⟩
      · exact .inr ⟨loser, before⟩
      · cases call <;> nomatch first
  unfold Machine.Counts at counts
  rw [machine] at counts
  rcases counts with known | ⟨loser, noting⟩
  · left
    rcases (Op.delivers_of_next stepped).peerGone known with before | ⟨loser, rfl⟩ | ⟨rfl, unreceived⟩
    · exact .inl before
    · cases loser with
      | write =>
          exact absurd rfl (reading.missless undropped who _ under)
      | receiver =>
          obtain ⟨rfl, -⟩ := reading.kept.lost under rfl
          exact .inr ⟨.receiver, under⟩
    · -- the last frame of a close has the sender, which is gone where nobody receives
      have taken := (reading.kept.backed.trace under).2 rfl
      change v.stream.sender = .taken at taken
      rw [reading.gone_of_unreceived undropped under unreceived] at taken
      nomatch taken
  · by_cases same : Actor.body = who
    · right
      subst same
      rw [Machine.op?_reach_self] at noting
      cases noting
      obtain ⟨rfl, notClosed⟩ := Op.lose_of_noteLoss stepped
      have isReceiver : loser = .receiver := by
        cases loser with
        | write =>
            exact absurd rfl (reading.missless undropped .body _ under)
        | receiver =>
            rfl
      subst isReceiver
      have gone := (reading.seen.whole undropped (.inl (reading.kept.leaving under rfl))).2
      have taken : v.stream.sender ≠ .present := by
        rw [gone]
        nofun
      rcases reading.settling.closes taken with impossible | closed | ⟨other, op, underOther, willClose⟩
      · nomatch impossible
      · exact absurd closed notClosed
      · refine ⟨⟨.receiver, ?_⟩, ?_, other, op, ?_, willClose⟩
        · rw [machine, Machine.op?_reach_self]
        · change v'.machine.stream.sender = .gone
          rw [machine]
          exact (Op.touches_of_next stepped).gone gone
        · rw [machine, Machine.op?_reach_of_ne]
          · exact underOther
          · rintro rfl
            obtain rfl := Option.some.inj (under.symm.trans underOther)
            exact willClose
    · left
      rw [Machine.op?_reach_of_ne same] at noting
      exact .inr ⟨loser, noting⟩

theorem counts_turn (happens : v.Happens source v') (counts : v.machine.Counts) : v'.machine.Counts := by
  have stirs := happens.stirs reading.kept.pinged
  generalize v'.machine = machine at stirs ⊢
  induction stirs with
  | refl =>
      exact counts
  | tail early late inductionHypothesis =>
      exact inductionHypothesis.stirs late

theorem counts_run {turns : List Turn} (ran : v.run? source turns = some v') (counts : v.machine.Counts) :
    v'.machine.Counts :=
  (reading.kept.holds_run ran (fun w => w.Reading ∧ w.machine.Counts) ⟨reading, counts⟩
    (fun _ _ _ holds happens => ⟨holds.1.turn happens, holds.1.counts_turn happens holds.2⟩)
    fun _ millis holds => ⟨holds.1.elapse millis, holds.2⟩).2.2

theorem dropped_run {turns : List Turn} (ran : v.run? source turns = some v') (dropped : v.dropped = true) :
    v'.dropped = true :=
  (reading.kept.holds_run ran (·.dropped = true) dropped (fun _ _ _ dropped happens => happens.dropped dropped)
    fun _ _ => id).2

/-- A client that reads to the end counts as gone exactly when the run has come to the moment of a mistake. -/
theorem counts_iff (fresh : ¬v.machine.Counts) {turns : List Turn} (ran : v.run? source turns = some v')
    (undropped : v'.dropped = false) : v'.machine.Counts ↔ v.Mistaken source turns := by
  constructor
  case mpr =>
    rintro ⟨early, late, w, rfl, reached, mistakes⟩
    rw [run?_append, reached] at ran
    exact (reading.run reached).counts_run ran (.inr mistakes.noting)
  intro counts
  induction turns generalizing v with
  | nil =>
      cases ran
      exact absurd counts fresh
  | cons turn turns inductionHypothesis =>
      obtain ⟨next, taken, ranOn⟩ := Option.bind_eq_some_iff.mp ran
      by_cases already : next.machine.Counts
      · have before : v.dropped = false := by
          by_contra dropped
          rw [reading.dropped_run ran ((Bool.not_eq_false _).mp dropped)] at undropped
          nomatch undropped
        rcases happens_of_act? reading.kept.manned taken with happens | ⟨millis, -, rfl⟩
        · have mistakes := (reading.mistakes_of_counts happens before already).resolve_left fresh
          refine ⟨[turn], turns, next, rfl, ?_, mistakes⟩
          rw [run?, taken]
          rfl
        · exact absurd already fresh
      · obtain ⟨early, late, w, rfl, reached, mistakes⟩ := inductionHypothesis (reading.act taken) already ranOn
        refine ⟨turn :: early, late, w, rfl, ?_, mistakes⟩
        rw [run?, taken]
        exact reached

end Reading

/-! ## Handlers that close their stream -/

/-- A handler that has asked for a close has it done, or waits for it. -/
def Shuts (v : Viewing β μ) : Prop :=
  ∀ notify, .close notify ∈ v.moves → v.stream.phase = .closed ∨ ∃ state, v.handler = .closing state

theorem Shuts.turn (shuts : v.Shuts) (happens : v.Happens source v') (kept : v.Kept) : v'.Shuts := by
  intro notify made
  have still (closed : v.stream.phase = .closed) : v'.stream.phase = .closed := (kept.goes happens).eq_closed closed
  have moving {state : β} {reply : Reply μ} (moving : v.handler = .moving state reply) (before : .close notify ∈ v.moves) :
      v'.stream.phase = .closed := by
    refine still ((shuts notify before).resolve_right ?_)
    rintro ⟨state', closing⟩
    rw [moving] at closing
    nomatch closing
  cases happens with
  | closes =>
      exact .inr ⟨_, rfl⟩
  | pushes _ _ _ _ _ isMoving | sleeps _ _ _ _ isMoving | finishes _ _ _ _ isMoving | setsPing _ _ _ _ isMoving =>
      refine .inl (moving isMoving ((List.mem_append.mp made).resolve_right ?_))
      exact fun last => nomatch List.mem_singleton.mp last
  | awaits state state' reply move waiting isMoving next waits =>
      refine .inl (moving isMoving ((List.mem_append.mp made).resolve_right fun last => ?_))
      obtain rfl := List.mem_singleton.mp last
      rcases waits with ⟨-, impossible⟩ | ⟨untilDone, -, impossible⟩ <;> nomatch impossible
  | passes state state' reply reply' move isMoving next short =>
      refine .inl (moving isMoving ((List.mem_append.mp made).resolve_right fun last => ?_))
      obtain rfl := List.mem_singleton.mp last
      rcases short with impossible | impossible <;> nomatch impossible
  | replied state reply op result s waits under stepped =>
      left
      rcases shuts notify made with closed | ⟨state', closing⟩
      · exact still closed
      · obtain ⟨call, asks, serves⟩ := kept.manned.serves .handler op under
        have noWrite : ¬call.IsWrite := by
          rcases asks with ⟨⟨state, pushing⟩, -⟩ | ⟨-, notify, rfl⟩
          · rw [closing] at pushing
            nomatch pushing
          · exact id
        rcases Op.hasClosed_of_finished stepped serves noWrite with hasClosed | closed
        · exact still (kept.orderly.closed .handler op under hasClosed)
        · exact closed
  | wakes state reply mailbox waits =>
      refine .inl ((shuts notify made).resolve_right ?_)
      rintro ⟨state', closing⟩
      rcases waits with impossible | impossible | ⟨untilDone, impossible⟩ <;>
        · rw [closing] at impossible
          nomatch impossible
  | _ =>
      exact (shuts notify made).imp_left still

theorem Shuts.run (shuts : v.Shuts) (kept : v.Kept) {turns : List Turn} (ran : v.run? source turns = some v') : v'.Shuts :=
  (kept.holds_run ran Shuts shuts (fun _ _ kept shuts happens => shuts.turn happens kept) fun _ _ shuts => shuts).2

/-- A stream that is closed does not keep its dispatcher. -/
theorem AtRest.not_isJammed_of_closed (rest : v.AtRest source) (kept : v.Kept) (closed : v.stream.phase = .closed) :
    ¬v.IsJammed := by
  rintro ⟨closing, -⟩
  obtain ⟨body, -⟩ := kept.stage.of_closing closing
  have gone : v.stream.sender = .gone := by
    rcases kept.ended closed with gone | isLeft | ⟨error, impossible | impossible⟩
    · exact gone
    · exact absurd isLeft (Session.not_isLeft_of_absent body)
    all_goals
      rw [closing] at impossible
      nomatch impossible
  obtain ⟨op, under⟩ := kept.manned.busy .dispatcher (.close false) (.inr ⟨closing, rfl⟩)
  obtain ⟨-, -, first, op', held, underFirst, -⟩ :=
    kept.orderly.stuck under fun other op' underOther => rest.blocked kept underOther
  rcases Op.blocked_iff.mp (rest.blocked kept underFirst) with ⟨next, rfl, notHeld⟩ | ⟨⟨frame, -, present⟩ | rfl, -⟩
  · exact notHeld held
  · rw [gone] at present
    nomatch present
  · have taken := (kept.backed.trace underFirst).2 rfl
    change v.stream.sender = .taken at taken
    rw [gone] at taken
    nomatch taken

end Viewing

end SchemaRpc
