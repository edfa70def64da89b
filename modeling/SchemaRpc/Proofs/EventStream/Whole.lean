import SchemaRpc.Proofs.EventStream.Line

/-!
# Streams at rest

A close shows in three places: the sender is taken out of the writer, the phase is set, and the done signal is given. They
are set one after the other, with a wait for room in between, so that they can disagree while operations are under way. When
none is, they agree (`EventStream.Whole`), with one exception: a close that is dropped while its last frame waits for room
takes the sender with it and leaves the phase as it is. `History.whole_run` says so of every run, drops included.
-/

namespace SchemaRpc

/-- The stream is wholly open or wholly closed. -/
structure EventStream.Whole (s : EventStream) : Prop where
  signalled : s.cancelled = true ↔ s.phase = .closed
  taken : s.sender ≠ .present → s.phase = .closed

namespace Op

/-- The operation has the sender, or has found it taken, and is going to close the stream. -/
def WillClose : Op → Prop
  | sendDone | dropSender | setClosed => True
  | _ => False

/-- The operation has closed the stream and is going to give the done signal. -/
def WillSignal : Op → Prop
  | release | cancel | dropIdleSender | noteLoss _ | dropLostSender _ | cancelLost _ => True
  | _ => False

theorem WillClose.holdsWriter {op : Op} (willClose : op.WillClose) : op.HoldsWriter := by
  cases op <;> first | exact willClose.elim | trivial

theorem WillSignal.hasClosed {op : Op} (willSignal : op.WillSignal) : op.HasClosed := by
  cases op <;> first | exact willSignal.elim | trivial

/-- What a step does to the marks of a close; there is no operation after the last step or after a drop. -/
inductive Marks (s : EventStream) : Op → Option Op → EventStream → Prop
  | apart (op : Op) (after? : Option Op) (s' : EventStream) (closed : s'.phase = .closed ↔ s.phase = .closed)
      (sender : s'.sender = s.sender) (cancelled : s'.cancelled = s.cancelled)
      (closes : op.WillClose → ∃ op', after? = some op' ∧ op'.WillClose)
      (signals : op.WillSignal → ∃ op', after? = some op' ∧ op'.WillSignal) :
      Marks s op after? s'
  | take (notify : Bool) (op' : Op) (willClose : op'.WillClose) :
      Marks s (take notify) (some op') { s with sender := .taken }
  | dropSender :
      Marks s dropSender (some setClosed) { s with sender := .gone }
  | close (op op' : Op) (willSignal : op'.WillSignal) :
      Marks s op (some op') { s with phase := .closed }
  | dropIfFree (op op' : Op) (before : op.WillSignal) (willSignal : op'.WillSignal) :
      Marks s op (some op') s.dropIfFree
  | signal (op : Op) (after? : Option Op) (before : op.WillSignal) :
      Marks s op after? { s with cancelled := true }
  /-- A close is dropped with the sender that it has taken. -/
  | tear :
      Marks s sendDone none { s with sender := .gone }.release

end Op

namespace EventStream

variable {s : EventStream} {who : Actor}

@[simp]
theorem cancelled_ask : (s.ask who).cancelled = s.cancelled := by
  unfold ask
  split <;> rfl

@[simp]
theorem cancelled_withdraw : (s.withdraw who).cancelled = s.cancelled := by
  unfold withdraw
  split <;> rfl

@[simp]
theorem cancelled_dropIfFree : s.dropIfFree.cancelled = s.cancelled := by
  unfold dropIfFree
  split <;> rfl

end EventStream

namespace Op

variable {op op' : Op} {me : Actor} {s s' : EventStream} {result : Except StreamError Unit}

/-- A step of an operation that owes nothing to the stream, before it and after it. -/
theorem Marks.idle {after? : Option Op} (phase : s'.phase = s.phase) (sender : s'.sender = s.sender)
    (cancelled : s'.cancelled = s.cancelled) (noClose : ¬op.WillClose) (noSignal : ¬op.WillSignal) :
    op.Marks s after? s' :=
  .apart op after? s' (by rw [phase]) sender cancelled (absurd · noClose) (absurd · noSignal)

theorem marks_of_next (stepped : op.step me s = .next op' s') : op.Marks s (some op') s' := by
  cases op with
  | look notify =>
      simp only [step] at stepped
      split at stepped <;> cases stepped
      exact .idle rfl rfl rfl id id
  | start next =>
      simp only [step, startStep] at stepped
      split at stepped <;> cases stepped
      · next idle =>
        exact .apart _ _ _ (by simp [idle]) rfl rfl False.elim False.elim
      all_goals exact .idle rfl rfl rfl id id
  | announce next =>
      cases stepped
      exact .idle rfl rfl rfl id id
  | encode event =>
      cases event <;> cases stepped
      exact .idle rfl rfl rfl id id
  | lock next =>
      cases stepped
      exact .idle (by simp) (by simp) (by simp) id id
  | wait next =>
      simp only [step] at stepped
      split at stepped <;> cases stepped
      exact .idle rfl rfl rfl id id
  | send frame =>
      simp only [step, sendStep] at stepped
      repeat' split at stepped
      all_goals cases stepped
      exact .idle rfl rfl rfl id id
  | take notify =>
      simp only [step, takeStep] at stepped
      split at stepped <;> cases stepped
      · exact .idle rfl rfl rfl id id
      · cases notify <;> exact .take _ _ trivial
  | sendDone =>
      simp only [step, sendDoneStep] at stepped
      repeat' split at stepped
      all_goals cases stepped
      all_goals exact .apart _ _ _ Iff.rfl rfl rfl (fun _ => ⟨_, rfl, trivial⟩) False.elim
  | dropSender =>
      cases stepped
      exact .dropSender
  | setClosed | giveUp =>
      cases stepped
      exact .close _ _ trivial
  | release | noteLoss =>
      cases stepped
      exact .apart _ _ _ Iff.rfl rfl rfl False.elim fun _ => ⟨_, rfl, trivial⟩
  | dropIdleSender | dropLostSender =>
      cases stepped
      exact .dropIfFree _ _ trivial trivial
  | leave =>
      cases stepped
      exact .idle rfl rfl rfl id id
  | lose loser =>
      simp only [step] at stepped
      split at stepped
      · obtain ⟨-, rfl⟩ := leads_of_afterLoss stepped
        exact .idle rfl rfl rfl id id
      · cases stepped
        exact .close _ _ trivial
  | cancelLost loser =>
      obtain ⟨-, rfl⟩ := leads_of_afterLoss stepped
      exact .signal _ _ trivial
  | cancel | dropReceiver =>
      cases stepped

theorem marks_of_finished (stepped : op.step me s = .finished result s') : op.Marks s none s' := by
  cases op with
  | look notify =>
      simp only [step] at stepped
      split at stepped <;> cases stepped
      exact .idle rfl rfl rfl id id
  | start next =>
      simp only [step, startStep] at stepped
      split at stepped <;> cases stepped
      exact .idle rfl rfl rfl id id
  | encode event =>
      cases event <;> cases stepped
      exact .idle rfl rfl rfl id id
  | wait next =>
      simp only [step] at stepped
      split at stepped <;> cases stepped
  | send frame =>
      simp only [step, sendStep] at stepped
      repeat' split at stepped
      all_goals cases stepped
      all_goals exact .idle rfl rfl rfl id id
  | take notify =>
      simp only [step, takeStep] at stepped
      split at stepped <;> cases stepped
  | sendDone =>
      simp only [step, sendDoneStep] at stepped
      repeat' split at stepped
      all_goals cases stepped
  | cancel =>
      cases stepped
      exact .signal _ _ trivial
  | lose loser =>
      simp only [step] at stepped
      split at stepped
      · cases loser <;> cases stepped
        exact .idle rfl rfl rfl id id
      · cases stepped
  | cancelLost loser =>
      cases loser <;> cases stepped
      exact .signal _ _ trivial
  | dropReceiver =>
      cases stepped
      exact .idle rfl rfl rfl id id
  | announce | lock | dropSender | setClosed | release | giveUp | dropIdleSender | leave | noteLoss | dropLostSender =>
      cases stepped

theorem marks_of_dropped (dropped : op.dropped? me s = some s') : op.Marks s none s' := by
  cases op with
  | wait next =>
      cases dropped
      exact .idle (by simp) (by simp) (by simp) id id
  | send frame =>
      cases dropped
      exact .idle rfl rfl rfl id id
  | sendDone =>
      cases dropped
      exact .tear
  | _ =>
      nomatch dropped

/-- A write is refused because the stream is closed, or because the sender is out of the writer. -/
theorem closed_of_refused (stepped : op.step me s = .finished (.error .closed) s') :
    s.phase = .closed ∨ op.HasClosed ∨ (∃ frame, op = send frame) ∧ s.sender ≠ .present := by
  cases op with
  | start next =>
      simp only [step, startStep] at stepped
      split at stepped <;> cases stepped
      exact .inl ‹_›
  | send frame =>
      simp only [step, sendStep] at stepped
      split at stepped
      · exact .inr (.inr ⟨⟨frame, rfl⟩, ‹_›⟩)
      repeat' split at stepped
      all_goals cases stepped
  | lose loser =>
      simp only [step] at stepped
      split at stepped
      · exact .inl ‹_›
      · cases stepped
  | cancelLost loser =>
      exact .inr (.inl trivial)
  | look notify =>
      simp only [step] at stepped
      split at stepped <;> cases stepped
  | encode event =>
      cases event <;> cases stepped
  | wait next =>
      simp only [step] at stepped
      split at stepped <;> cases stepped
  | take notify =>
      simp only [step, takeStep] at stepped
      split at stepped <;> cases stepped
  | sendDone =>
      simp only [step, sendDoneStep] at stepped
      repeat' split at stepped
      all_goals cases stepped
  | _ =>
      cases stepped

end Op

namespace Machine

variable {m m' : Machine} {who : Actor} {op : Op} {s : EventStream} {torn torn' : Bool}

/-- No operation is under way. -/
def AtRest (m : Machine) : Prop :=
  m.ops = []

instance : Decidable m.AtRest :=
  decidable_of_iff (m.ops.isEmpty = true) List.isEmpty_iff

theorem AtRest.op? (rest : m.AtRest) (who : Actor) : m.op? who = none := by
  rw [Machine.op?, rest]
  rfl

/-- A close is dropped while its last frame waits for room. -/
def tears (m : Machine) : Action → Bool
  | .drop who =>
    match m.op? who with
    | some .sendDone => true
    | _ => false
  | _ => false

def tearsAny (m : Machine) : List Action → Bool
  | [] => false
  | action :: actions => m.tears action || (m.act action).tearsAny actions

/-- What a machine keeps while parties open and close its stream; `torn` tells whether a close was dropped with the
sender. -/
structure Settling (m : Machine) (torn : Bool) : Prop where
  closed : ∀ who op, m.op? who = some op → op.HasClosed → m.stream.phase = .closed
  signalled : m.stream.cancelled = true → m.stream.phase = .closed
  /-- After a close the done signal is given, or an operation is going to give it. -/
  signals : m.stream.phase = .closed →
    m.stream.cancelled = true ∨ ∃ who op, m.op? who = some op ∧ op.WillSignal
  /-- After the sender is taken the stream is closed, or an operation is going to close it. -/
  closes : m.stream.sender ≠ .present →
    torn = true ∨ m.stream.phase = .closed ∨ ∃ who op, m.op? who = some op ∧ op.WillClose
  gone : torn = true → m.stream.sender = .gone

theorem settling_new (pingMillis : Nat) : Settling ⟨.new pingMillis, []⟩ false := by
  constructor
  case closed =>
    intro who op under
    rw [op?_new] at under
    nomatch under
  case signals =>
    nofun
  case closes =>
    exact absurd rfl
  case signalled | gone =>
    nofun

/-- What an operation is going to do is still going to be done after a step of any party, unless this step does it. -/
theorem owed_step {Owes : Op → Prop} {after? : Option Op} (under : m.op? who = some op) (mine : m'.op? who = after?)
    (others : ∀ other, other ≠ who → m'.op? other = m.op? other)
    (owed : ∃ other op', m.op? other = some op' ∧ Owes op') (own : Owes op → ∃ op', after? = some op' ∧ Owes op') :
    ∃ other op', m'.op? other = some op' ∧ Owes op' := by
  obtain ⟨other, op', underOther, owes⟩ := owed
  by_cases same : other = who
  · subst same
    obtain rfl : op = op' := Option.some.inj (under.symm.trans underOther)
    obtain ⟨op', after, owes⟩ := own owes
    exact ⟨other, op', mine.trans after, owes⟩
  · exact ⟨other, op', (others other same).trans underOther, owes⟩

theorem Settling.step {after? : Option Op} (settling : m.Settling torn) (under : m.op? who = some op)
    (touches : op.Touches who m.stream s) (marks : op.Marks m.stream after? s) (left : m'.stream = s)
    (mine : m'.op? who = after?) (others : ∀ other, other ≠ who → m'.op? other = m.op? other)
    (closed : ∀ op', after? = some op' → op'.HasClosed → s.phase = .closed)
    (spared : torn' = false → torn = false ∧ (op = .sendDone → after? ≠ none))
    (gone : torn' = true → torn = true ∨ s.sender = .gone) : m'.Settling torn' := by
  have wasClosed (willSignal : op.WillSignal) : m.stream.phase = .closed :=
    settling.closed who op under willSignal.hasClosed
  have stillTorn (before : torn = true) : torn' = true := by
    by_contra intact
    have before' := (spared ((Bool.not_eq_true _).mp intact)).1
    rw [before] at before'
    nomatch before'
  have stillCloses (own : op.WillClose → ∃ op', after? = some op' ∧ op'.WillClose)
      (phase : m.stream.phase = .closed → m'.stream.phase = .closed) (taken : m.stream.sender ≠ .present) :
      torn' = true ∨ m'.stream.phase = .closed ∨ ∃ who op, m'.op? who = some op ∧ op.WillClose := by
    rcases settling.closes taken with before | before | owed
    · exact .inl (stillTorn before)
    · exact .inr (.inl (phase before))
    · exact .inr (.inr (owed_step under mine others owed own))
  have stillSignals (own : op.WillSignal → ∃ op', after? = some op' ∧ op'.WillSignal)
      (cancelled : m.stream.cancelled = true → m'.stream.cancelled = true) (isClosed : m.stream.phase = .closed) :
      m'.stream.cancelled = true ∨ ∃ who op, m'.op? who = some op ∧ op.WillSignal := by
    rcases settling.signals isClosed with before | owed
    · exact .inl (cancelled before)
    · exact .inr (owed_step under mine others owed own)
  subst left
  constructor
  case closed =>
    intro other op' underOther hasClosed
    by_cases same : other = who
    · subst same
      exact closed op' (mine.symm.trans underOther) hasClosed
    · rw [others other same] at underOther
      exact touches.goes.eq_closed (settling.closed other op' underOther hasClosed)
  case gone =>
    intro isTorn
    rcases gone isTorn with before | gone
    · exact touches.gone (settling.gone before)
    · exact gone
  all_goals generalize m'.stream = s at marks stillCloses stillSignals ⊢
  case signalled =>
    intro cancelled
    cases marks with
    | apart op after? s' phase sender same =>
        exact phase.mpr (settling.signalled (same ▸ cancelled))
    | close =>
        rfl
    | signal op after? before =>
        exact wasClosed before
    | dropIfFree =>
        rw [EventStream.phase_dropIfFree]
        exact settling.signalled (by simpa using cancelled)
    | take | dropSender | tear =>
        exact settling.signalled cancelled
  case signals =>
    intro isClosed
    cases marks with
    | apart op after? s' phase sender same closes signals =>
        exact stillSignals signals (fun before => same.trans before) (phase.mp isClosed)
    | close op op' willSignal | dropIfFree op op' before willSignal =>
        exact .inr ⟨who, op', mine, willSignal⟩
    | signal =>
        exact .inl rfl
    | take | dropSender | tear =>
        exact stillSignals nofun id isClosed
  case closes =>
    intro taken
    cases marks with
    | apart op after? s' phase sender same closes signals =>
        exact stillCloses closes phase.mpr (sender ▸ taken)
    | take notify op' willClose =>
        exact .inr (.inr ⟨who, op', mine, willClose⟩)
    | dropSender =>
        exact .inr (.inr ⟨who, .setClosed, mine, trivial⟩)
    | close =>
        exact .inr (.inl rfl)
    | dropIfFree op op' before =>
        rw [EventStream.phase_dropIfFree]
        exact .inr (.inl (wasClosed before))
    | signal op after? before =>
        exact .inr (.inl (wasClosed before))
    | tear =>
        by_contra intact
        rw [not_or, Bool.not_eq_true] at intact
        exact (spared intact.1).2 rfl rfl

theorem Settling.called (settling : m.Settling torn) (free : m.op? who = none) (what : Call) :
    (m.reach who what.first).Settling torn := by
  have kept {Owes : Op → Prop} (owed : ∃ other op, m.op? other = some op ∧ Owes op) :
      ∃ other op, (m.reach who what.first).op? other = some op ∧ Owes op := by
    obtain ⟨other, op, under, owes⟩ := owed
    refine ⟨other, op, (op?_reach_of_ne ?_).trans under, owes⟩
    rintro rfl
    rw [free] at under
    nomatch under
  constructor
  case closed =>
    intro other op under hasClosed
    by_cases same : other = who
    · subst same
      rw [op?_reach_self] at under
      cases under
      cases what <;> exact hasClosed.elim
    · rw [op?_reach_of_ne same] at under
      exact settling.closed other op under hasClosed
  case signalled =>
    exact settling.signalled
  case signals =>
    exact fun isClosed => (settling.signals isClosed).imp_right kept
  case closes =>
    exact fun taken => (settling.closes taken).imp_right (Or.imp_right kept)
  case gone =>
    exact settling.gone

theorem Settling.moved {op' : Op} (settling : m.Settling torn) (under : m.op? who = some op)
    (stepped : op.step who m.stream = .next op' s) : ({ m with stream := s }.reach who op').Settling torn := by
  have touches := Op.touches_of_next stepped
  have others (other : Actor) (different : other ≠ who) :
      ({ m with stream := s }.reach who op').op? other = m.op? other :=
    op?_reach_of_ne different
  refine settling.step under touches (Op.marks_of_next stepped) rfl op?_reach_self others ?_ (fun intact => ⟨intact, nofun⟩)
    Or.inl
  rintro op' ⟨⟩ hasClosed
  rcases Op.hasClosed_of_next stepped hasClosed with before | closed
  · exact touches.goes.eq_closed (settling.closed who op under before)
  · exact closed

theorem Settling.returned {result : Except StreamError Unit} (settling : m.Settling torn) (under : m.op? who = some op)
    (stepped : op.step who m.stream = .finished result s) : ({ m with stream := s }.forget who).Settling torn := by
  have others (other : Actor) (different : other ≠ who) :
      ({ m with stream := s }.forget who).op? other = m.op? other :=
    op?_forget_of_ne different
  refine settling.step under (Op.touches_of_finished stepped) (Op.marks_of_finished stepped) rfl op?_forget_self others
    (fun _ impossible => by cases impossible) (fun intact => ⟨intact, ?_⟩) Or.inl
  -- the last frame of a close is not its last step
  rintro rfl
  simp only [Op.step, Op.sendDoneStep] at stepped
  repeat' split at stepped
  all_goals cases stepped

theorem Settling.dropped (settling : m.Settling torn) (under : m.op? who = some op)
    (dropped : op.dropped? who m.stream = some s) :
    ({ m with stream := s }.forget who).Settling (torn || m.tears (.drop who)) := by
  have others (other : Actor) (different : other ≠ who) :
      ({ m with stream := s }.forget who).op? other = m.op? other :=
    op?_forget_of_ne different
  refine settling.step under (Op.touches_of_dropped dropped) (Op.marks_of_dropped dropped) rfl op?_forget_self others
    nofun ?_ ?_
  · intro intact
    rw [Bool.or_eq_false_iff] at intact
    refine ⟨intact.1, ?_⟩
    rintro rfl
    rw [tears, under] at intact
    nomatch intact.2
  · intro isTorn
    rw [Bool.or_eq_true] at isTorn
    refine isTorn.imp_right fun tears => ?_
    rw [Machine.tears, under] at tears
    cases op with
    | sendDone =>
        cases dropped
        rfl
    | _ =>
        nomatch tears

/-- The turns of a session drop no operation. -/
theorem Settling.stirs {allowed : Call → Prop} (settling : m.Settling torn) (stirs : m.Stirs allowed m') :
    m'.Settling torn := by
  cases stirs with
  | called who what free =>
      exact settling.called free what
  | moved who op op' s under stepped =>
      exact settling.moved under stepped
  | returned who op result s under stepped =>
      exact settling.returned under stepped
  | received | setPing | dropped =>
      exact { settling with }

theorem Settling.act (settling : m.Settling torn) (action : Action) :
    (m.act action).Settling (torn || m.tears action) := by
  cases action with
  | call who what =>
      change (m.call who what).Settling (torn || false)
      rw [Bool.or_false, call]
      cases free : m.op? who with
      | some op =>
          exact settling
      | none =>
          exact settling.called free what
  | step who =>
      change (m.act (.step who)).Settling (torn || false)
      rw [Bool.or_false, Machine.act, advance]
      cases under : m.op? who with
      | none =>
          exact settling
      | some op =>
          dsimp only
          cases stepped : op.step who m.stream with
          | blocked =>
              exact settling
          | next op' s =>
              exact settling.moved under stepped
          | finished result s =>
              exact settling.returned under stepped
  | drop who =>
      rw [Machine.act, drop?]
      cases under : m.op? who with
      | none =>
          rw [tears, under, Bool.or_false]
          exact settling
      | some op =>
          rw [Option.bind_eq_bind, Option.bind_some]
          cases dropped : op.dropped? who m.stream with
          | some s =>
              exact settling.dropped under dropped
          | none =>
              have unhurt : m.tears (.drop who) = false := by
                rw [tears, under]
                cases op <;> first | rfl | cases dropped
              rw [unhurt, Bool.or_false]
              exact settling
  | receive =>
      change (m.act .receive).Settling (torn || false)
      rw [Bool.or_false, Machine.act, receive?]
      split
      · exact settling
      · cases m.stream.slot with
        | none =>
            exact settling
        | some frame =>
            exact { settling with }
  | setPing millis =>
      change (m.act (.setPing millis)).Settling (torn || false)
      rw [Bool.or_false]
      exact { settling with }

theorem Settling.run (settling : m.Settling torn) (actions : List Action) :
    (m.run actions).Settling (torn || m.tearsAny actions) := by
  induction actions generalizing m torn with
  | nil =>
      rw [tearsAny, Bool.or_false]
      exact settling
  | cons action actions inductionHypothesis =>
      rw [tearsAny, ← Bool.or_assoc, run_cons]
      exact inductionHypothesis (settling.act action)

/-! ## At rest -/

section Rest

variable (settling : m.Settling torn) (rest : m.AtRest)

include settling rest

/-- The done signal tells of the phase, also after a close that was dropped. -/
theorem Settling.signalled_iff : m.stream.cancelled = true ↔ m.stream.phase = .closed := by
  refine ⟨settling.signalled, fun closed => ?_⟩
  rcases settling.signals closed with signalled | ⟨who, op, under, -⟩
  · exact signalled
  · rw [rest.op?] at under
    nomatch under

/-- A stream at rest is whole, unless a close was dropped with the sender and no other has closed the stream. -/
theorem Settling.whole_iff : m.stream.Whole ↔ torn = false ∨ m.stream.phase = .closed := by
  constructor
  · intro whole
    cases torn with
    | false =>
        exact .inl rfl
    | true =>
        refine .inr (whole.taken ?_)
        rw [settling.gone rfl]
        nofun
  · intro spared
    refine ⟨settling.signalled_iff rest, fun taken => ?_⟩
    rcases settling.closes taken with isTorn | closed | ⟨who, op, under, -⟩
    · refine spared.resolve_left fun intact => ?_
      rw [intact] at isTorn
      nomatch isTorn
    · exact closed
    · rw [rest.op?] at under
      nomatch under

end Rest

end Machine

namespace History

variable {h h' : History} {torn : Bool}

/-- A write that is refused has found the stream closed. -/
theorem Sound.closed_of_refused (sound : h.Sound) (settling : h.machine.Settling false) {who : Actor} {m' : Machine}
    (refused : h.machine.advance who = .returned (.error .closed) m') : h.stream.phase = .closed := by
  unfold Machine.advance at refused
  cases under : h.machine.op? who with
  | none =>
      rw [under] at refused
      nomatch refused
  | some op =>
      rw [under] at refused
      dsimp only at refused
      split at refused
      · nomatch refused
      · nomatch refused
      · next stepped =>
        cases refused
        rcases Op.closed_of_refused stepped with closed | hasClosed | ⟨⟨frame, rfl⟩, taken⟩
        · exact closed
        · exact settling.closed who op under hasClosed
        · rcases settling.closes taken with impossible | closed | ⟨other, op', underOther, willClose⟩
          · nomatch impossible
          · exact closed
          · -- whoever is going to close the stream has the lock, and so has this write
            have mine := ((sound.traces who _ under).holds trivial).1
            have theirs := ((sound.traces other op' underOther).holds willClose.holdsWriter).1
            obtain rfl := Option.some.inj (mine.symm.trans theirs)
            rw [under] at underOther
            cases underOther
            exact willClose.elim

/-- What a history keeps while parties open and close its stream. -/
structure Closing (h : History) (torn : Bool) : Prop where
  sound : h.Sound
  settling : h.machine.Settling torn
  returned : ∀ number result call, (number, result) ∈ h.returned → h.calls[number]? = some call → ¬call.IsWrite →
    h.stream.phase = .closed

theorem Closing.returned_act (closing : h.Closing torn) {action : Machine.Action} (happens : h.Happens action h')
    {number : Nat} {result : Except StreamError Unit} {call : Call} (returned : (number, result) ∈ h'.returned)
    (called : h'.calls[number]? = some call) (noWrite : ¬call.IsWrite) : h'.stream.phase = .closed := by
  have still (before : (number, result) ∈ h.returned) (wasCalled : h.calls[number]? = some call) :
      h'.stream.phase = .closed :=
    happens.goes.eq_closed (closing.returned number result call before wasCalled noWrite)
  cases happens with
  | called who what free =>
      have known := (closing.sound.books.returned number result returned).1
      refine still returned ?_
      rw [← called]
      exact (List.getElem?_append_left known).symm
  | answered who op result' s under stepped =>
      rcases List.mem_append.mp returned with before | last
      · exact still before called
      · obtain ⟨rfl, rfl⟩ := Prod.mk.inj (List.mem_singleton.mp last)
        obtain ⟨served, made, serves⟩ := (closing.sound.traces who op under).call
        obtain rfl : served = call := Option.some.inj (made.symm.trans called)
        rcases Op.hasClosed_of_finished stepped serves noWrite with hasClosed | closed
        · exact (Op.touches_of_finished stepped).goes.eq_closed (closing.settling.closed who op under hasClosed)
        · exact closed
  | nothing | moved | forgotten | received | setPing =>
      exact still returned called

theorem Closing.act (closing : h.Closing torn) {action : Machine.Action} (admitted : h.machine.admits action = true) :
    (h.act action).Closing (torn || h.machine.tears action) := by
  constructor
  case sound =>
    exact closing.sound.happens (happens_act h action) admitted
  case settling =>
    rw [machine_act]
    exact closing.settling.act action
  case returned =>
    exact fun number result call => closing.returned_act (happens_act h action)

theorem Closing.run (closing : h.Closing torn) (actions : List Machine.Action)
    (admitted : h.machine.admitsAll actions = true) :
    (h.run actions).Closing (torn || h.machine.tearsAny actions) := by
  induction actions generalizing h torn with
  | nil =>
      rw [Machine.tearsAny, Bool.or_false]
      exact closing
  | cons action actions inductionHypothesis =>
      rw [Machine.admitsAll, Bool.and_eq_true, ← machine_act] at admitted
      rw [Machine.tearsAny, ← Bool.or_assoc, run_cons, ← machine_act]
      exact inductionHypothesis (closing.act admitted.1) admitted.2

theorem closing_new (pingMillis : Nat) : (new pingMillis).Closing false where
  sound := sound_new pingMillis
  settling := Machine.settling_new pingMillis
  returned := nofun

/-- What is promised of a stream; `torn` tells whether a close was dropped with the sender. -/
structure Settled (h : History) (torn : Bool) : Prop where
  signalled_iff : h.machine.AtRest → (h.stream.cancelled = true ↔ h.stream.phase = .closed)
  whole_iff : h.machine.AtRest → (h.stream.Whole ↔ torn = false ∨ h.stream.phase = .closed)
  /-- A close and a disconnect return when the stream is closed. -/
  returned : ∀ number result call, (number, result) ∈ h.returned → h.calls[number]? = some call → ¬call.IsWrite →
    h.stream.phase = .closed
  refused : torn = false → ∀ who m', h.machine.advance who = .returned (.error .closed) m' → h.stream.phase = .closed

/-- After every run a stream at rest is wholly open or wholly closed, unless a close was dropped while its last frame waited
for room; no other drop makes a difference. -/
theorem whole_run (pingMillis : Nat) (actions : List Machine.Action)
    (admitted : (new pingMillis).machine.admitsAll actions = true) :
    ((new pingMillis).run actions).machine = Machine.run ⟨.new pingMillis, []⟩ actions ∧
      ((new pingMillis).run actions).Settled ((new pingMillis).machine.tearsAny actions) := by
  refine ⟨machine_run _ _, ?_⟩
  have closing := (closing_new pingMillis).run actions admitted
  rw [Bool.false_or] at closing
  constructor
  case signalled_iff =>
    exact fun rest => closing.settling.signalled_iff rest
  case whole_iff =>
    exact fun rest => closing.settling.whole_iff rest
  case returned =>
    exact closing.returned
  case refused =>
    intro intact who m' refused
    rw [intact] at closing
    exact closing.sound.closed_of_refused closing.settling refused

/-- A push that is dropped while it waits for room does no harm to the close after it. -/
theorem whole_run_dropped_push :
    let actions : List Machine.Action :=
      .call .handler (.push (.ok "1")) :: List.replicate 6 (.step .handler) ++
        .call .handler (.push (.ok "2")) :: List.replicate 4 (.step .handler) ++
        [.drop .handler, .receive, .call .handler (.close true)] ++ List.replicate 10 (.step .handler)
    (new 1000).machine.admitsAll actions = true ∧ (new 1000).machine.tearsAny actions = false ∧
      ((new 1000).run actions).stream.Whole ∧ ((new 1000).run actions).stream.accepted = [.message "1", .done] := by
  intro actions
  have admitted : (new 1000).machine.admitsAll actions = true := by
    decide
  have intact : (new 1000).machine.tearsAny actions = false := by
    decide
  have rest : ((new 1000).run actions).machine.AtRest := rfl
  refine ⟨admitted, intact, ?_, by decide⟩
  exact ((whole_run 1000 actions admitted).2.whole_iff rest).mpr (.inl intact)

/-- A close that is dropped while its last frame waits for room: nothing is under way, the stream is not closed, and its
sender is gone, so that the next push is refused by a stream that is still open. -/
theorem dropped_close_not_whole :
    let actions : List Machine.Action :=
      .call .handler (.push (.ok "1")) :: List.replicate 6 (.step .handler) ++
        .call .handler (.close true) :: List.replicate 5 (.step .handler) ++ [.drop .handler]
    let later : List Machine.Action :=
      .call .handler (.push (.ok "2")) :: List.replicate 4 (.step .handler)
    (new 1000).machine.admitsAll (actions ++ later) = true ∧
      ((new 1000).run actions).machine.AtRest ∧ ¬((new 1000).run actions).stream.Whole ∧
      ((new 1000).run actions).stream.phase = .streaming ∧ ((new 1000).run actions).stream.sender = .gone ∧
      ∃ m', ((new 1000).run (actions ++ later)).machine.advance .handler = .returned (.error .closed) m' ∧
        m'.stream.phase = .streaming := by
  intro actions later
  have gone : ((new 1000).run actions).stream.sender ≠ .present := by
    decide
  have streaming : ((new 1000).run actions).stream.phase ≠ .closed := by
    decide
  exact ⟨by decide, rfl, fun whole => streaming (whole.taken gone), by decide, by decide, _, rfl, rfl⟩

end History

end SchemaRpc
