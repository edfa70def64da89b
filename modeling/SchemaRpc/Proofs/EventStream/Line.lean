import SchemaRpc.Proofs.EventStream.Safety
import SchemaRpc.Proofs.EventStream.Channel

/-!
# The line at the writer

The parties that have the lock of the writer or wait for it stand in line, its holder first. In every turn of a machine
(`Machine.Stirs`) the line is kept in order (`Machine.Orderly`), so that whoever waits in it waits for an operation under
way: if no operation can go on, then the first in line has a frame that finds no room (`Machine.Orderly.stuck`).
-/

namespace SchemaRpc

/-- Who has the lock or waits for it, in order. -/
def EventStream.line (s : EventStream) : List Actor :=
  s.holder.toList ++ s.queue

namespace Op

variable {op op' : Op} {me : Actor} {s s' : EventStream} {result : Except StreamError Unit}

/-- The party of the operation stands in line. -/
def Grasps (op : Op) : Prop :=
  op.HoldsWriter ∨ ∃ next, op = .wait next

/-- What a step does to the line; there is no operation after the last step. -/
inductive Grips (me : Actor) (s : EventStream) : Op → Option Op → EventStream → Prop
  | apart (op : Op) (after? : Option Op) (s' : EventStream) (holder : s'.holder = s.holder) (queue : s'.queue = s.queue)
      (before : ¬op.Grasps) (after : ∀ op', after? = some op' → ¬op'.Grasps) :
      Grips me s op after? s'
  | ask (next : AfterLock) :
      Grips me s (lock next) (some (wait next)) (s.ask me)
  | enter (next : AfterLock) (mine : s.holder = some me) :
      Grips me s (wait next) (some (afterLock next)) s
  | keep (op op' : Op) (s' : EventStream) (holder : s'.holder = s.holder) (queue : s'.queue = s.queue)
      (before : op.HoldsWriter) (after : op'.HoldsWriter) :
      Grips me s op (some op') s'
  | release (op : Op) (after? : Option Op) (s' : EventStream) (holder : s'.holder = s.queue.head?)
      (queue : s'.queue = s.queue.tail) (before : op.HoldsWriter) (after : ∀ op', after? = some op' → ¬op'.Grasps) :
      Grips me s op after? s'

theorem not_grasps_first (call : Call) : ¬call.first.Grasps := by
  rintro (holds | ⟨next, waits⟩)
  · exact not_holdsWriter_first holds
  · cases call <;> nomatch waits

theorem not_grasps_of_loser {loser : Loser} (lost : op.loser? = some loser) : ¬op.Grasps := by
  rintro (holds | ⟨next, rfl⟩)
  · cases op <;> first | exact holds.elim | nomatch lost
  · nomatch lost

theorem holdsWriter_afterLock (next : AfterLock) : (afterLock next).HoldsWriter := by
  cases next <;> trivial

theorem not_grasps_afterStart (next : AfterStart) : ¬(afterStart next).Grasps := by
  cases next <;> rintro (holds | ⟨next, waits⟩) <;> first | exact holds.elim | nomatch waits

/-- A step away from the line leads to one away from the line. -/
theorem Grips.apart_of_next (holder : s'.holder = s.holder) (queue : s'.queue = s.queue) (before : ¬op.Grasps)
    (after : ¬op'.Grasps) : Grips me s op (some op') s' :=
  .apart op (some op') s' holder queue before fun _ same => Option.some.inj same ▸ after

theorem Grips.release_of_next (holder : s'.holder = s.queue.head?) (queue : s'.queue = s.queue.tail)
    (before : op.HoldsWriter) (after : ¬op'.Grasps) : Grips me s op (some op') s' :=
  .release op (some op') s' holder queue before fun _ same => Option.some.inj same ▸ after

end Op

namespace EventStream

variable {s : EventStream}

@[simp]
theorem queue_dropIfFree : s.dropIfFree.queue = s.queue := by
  unfold dropIfFree
  split <;> rfl

end EventStream

namespace Op

variable {op op' : Op} {me : Actor} {s s' : EventStream} {result : Except StreamError Unit}

theorem grips_of_next (stepped : op.step me s = .next op' s') : op.Grips me s (some op') s' := by
  cases op with
  | look notify =>
      simp only [step] at stepped
      split at stepped <;> cases stepped
      exact .apart_of_next rfl rfl (by simp [Grasps, HoldsWriter]) (by simp [Grasps, HoldsWriter])
  | start next =>
      simp only [step, startStep] at stepped
      split at stepped <;> cases stepped
      · exact .apart_of_next rfl rfl (by simp [Grasps, HoldsWriter]) (by simp [Grasps, HoldsWriter])
      all_goals exact .apart_of_next rfl rfl (by simp [Grasps, HoldsWriter]) (not_grasps_afterStart _)
  | announce next =>
      cases stepped
      exact .apart_of_next rfl rfl (by simp [Grasps, HoldsWriter]) (not_grasps_afterStart _)
  | encode event =>
      cases event <;> cases stepped
      exact .apart_of_next rfl rfl (by simp [Grasps, HoldsWriter]) (by simp [Grasps, HoldsWriter])
  | lock next =>
      cases stepped
      exact .ask next
  | wait next =>
      simp only [step] at stepped
      split at stepped <;> cases stepped
      exact .enter next ‹_›
  | send frame =>
      simp only [step, sendStep] at stepped
      repeat' split at stepped
      all_goals cases stepped
      exact .release_of_next rfl rfl trivial (not_grasps_of_loser rfl)
  | take notify =>
      simp only [step, takeStep] at stepped
      split at stepped <;> cases stepped
      · exact .keep _ _ _ rfl rfl trivial trivial
      · cases notify <;> exact .keep _ _ _ rfl rfl trivial trivial
  | sendDone =>
      simp only [step, sendDoneStep] at stepped
      repeat' split at stepped
      all_goals cases stepped
      all_goals exact .keep _ _ _ rfl rfl trivial trivial
  | dropSender | setClosed =>
      cases stepped
      exact .keep _ _ _ rfl rfl trivial trivial
  | release =>
      cases stepped
      exact .release_of_next rfl rfl trivial (by simp [Grasps, HoldsWriter])
  | giveUp | noteLoss =>
      cases stepped
      exact .apart_of_next rfl rfl (by simp [Grasps, HoldsWriter]) (by simp [Grasps, HoldsWriter])
  | dropIdleSender | dropLostSender =>
      cases stepped
      exact .apart_of_next (by simp) (by simp) (by simp [Grasps, HoldsWriter]) (by simp [Grasps, HoldsWriter])
  | leave =>
      simp only [step] at stepped
      split at stepped <;> cases stepped <;>
        exact .apart_of_next rfl rfl (by simp [Grasps, HoldsWriter]) (by simp [Grasps, HoldsWriter])
  | lose loser =>
      simp only [step] at stepped
      split at stepped
      · obtain ⟨after, rfl⟩ := leads_of_afterLoss stepped
        exact .apart_of_next rfl rfl (not_grasps_of_loser rfl) (not_grasps_of_loser after)
      · cases stepped
        exact .apart_of_next rfl rfl (not_grasps_of_loser rfl) (not_grasps_of_loser rfl)
  | cancelLost loser =>
      obtain ⟨after, rfl⟩ := leads_of_afterLoss stepped
      exact .apart_of_next rfl rfl (not_grasps_of_loser rfl) (not_grasps_of_loser after)
  | cancel | dropReceiver =>
      cases stepped

theorem grips_of_finished (stepped : op.step me s = .finished result s') : op.Grips me s none s' := by
  have apart (holder : s'.holder = s.holder) (queue : s'.queue = s.queue) (before : ¬op.Grasps) :
      op.Grips me s none s' :=
    .apart op none s' holder queue before fun _ impossible => by cases impossible
  cases op with
  | look notify =>
      simp only [step] at stepped
      split at stepped <;> cases stepped
      exact apart rfl rfl (by simp [Grasps, HoldsWriter])
  | start next =>
      simp only [step, startStep] at stepped
      split at stepped <;> cases stepped
      exact apart rfl rfl (by simp [Grasps, HoldsWriter])
  | encode event =>
      cases event <;> cases stepped
      exact apart rfl rfl (by simp [Grasps, HoldsWriter])
  | wait next =>
      simp only [step] at stepped
      split at stepped <;> cases stepped
  | send frame =>
      simp only [step, sendStep] at stepped
      repeat' split at stepped
      all_goals cases stepped
      all_goals exact .release _ none _ rfl rfl trivial fun _ impossible => by cases impossible
  | take notify =>
      simp only [step, takeStep] at stepped
      split at stepped <;> cases stepped
  | sendDone =>
      simp only [step, sendDoneStep] at stepped
      repeat' split at stepped
      all_goals cases stepped
  | lose loser =>
      simp only [step] at stepped
      split at stepped
      · cases loser <;> cases stepped
        exact apart rfl rfl (not_grasps_of_loser rfl)
      · cases stepped
  | cancelLost loser =>
      cases loser <;> cases stepped
      exact apart rfl rfl (not_grasps_of_loser rfl)
  | cancel | dropReceiver =>
      cases stepped
      exact apart rfl rfl (by simp [Grasps, HoldsWriter])
  | announce | lock | dropSender | setClosed | release | giveUp | dropIdleSender | leave | noteLoss | dropLostSender =>
      cases stepped

/-! ## After the stream is closed -/

/-- The operation has found or left the stream closed. -/
def HasClosed : Op → Prop
  | release | cancel | dropIdleSender | noteLoss _ | dropLostSender _ | cancelLost _ | dropReceiver => True
  | _ => False

theorem hasClosed_of_next (stepped : op.step me s = .next op' s') (after : op'.HasClosed) :
    op.HasClosed ∨ s'.phase = .closed := by
  cases op with
  | setClosed | giveUp =>
      cases stepped
      exact .inr rfl
  | release | dropIdleSender | noteLoss | dropLostSender | cancelLost =>
      exact .inl trivial
  | lose loser =>
      simp only [step] at stepped
      split at stepped
      · next closed =>
        obtain ⟨-, rfl⟩ := leads_of_afterLoss stepped
        exact .inr closed
      · cases stepped
        exact .inr rfl
  | leave =>
      simp only [step] at stepped
      split at stepped
      · next closed =>
        cases stepped
        exact .inr closed
      · cases stepped
        exact after.elim
  | start next =>
      cases next <;> simp only [step, startStep] at stepped <;> split at stepped <;> cases stepped <;>
        exact after.elim
  | announce next =>
      cases next <;> cases stepped <;> exact after.elim
  | wait next =>
      simp only [step] at stepped
      split at stepped <;> cases stepped
      cases next <;> exact after.elim
  | look notify =>
      simp only [step] at stepped
      split at stepped <;> cases stepped
      exact after.elim
  | encode event =>
      cases event <;> cases stepped
      exact after.elim
  | send frame =>
      simp only [step, sendStep] at stepped
      repeat' split at stepped
      all_goals cases stepped
      exact after.elim
  | take notify =>
      simp only [step, takeStep] at stepped
      split at stepped <;> cases stepped
      · exact after.elim
      · cases notify <;> exact after.elim
  | sendDone =>
      simp only [step, sendDoneStep] at stepped
      repeat' split at stepped
      all_goals cases stepped
      all_goals exact after.elim
  | lock | dropSender =>
      cases stepped
      exact after.elim
  | cancel | dropReceiver =>
      cases stepped

/-- Every call but a write returns when the stream is closed. -/
theorem hasClosed_of_finished {call : Call} (stepped : op.step me s = .finished result s') (serves : op.Serves call)
    (noWrite : ¬call.IsWrite) : op.HasClosed ∨ s'.phase = .closed := by
  cases op with
  | look notify =>
      simp only [step] at stepped
      split at stepped <;> cases stepped
      exact .inr ‹_›
  | start next =>
      simp only [step, startStep] at stepped
      split at stepped <;> cases stepped
      cases serves
      exact absurd trivial noWrite
  | encode event =>
      cases serves
      exact absurd trivial noWrite
  | send frame =>
      exact absurd serves.1 noWrite
  | lose loser =>
      simp only [step] at stepped
      split at stepped
      · next closed =>
        cases loser <;> cases stepped
        exact .inr closed
      · cases stepped
  | cancel | cancelLost | dropReceiver =>
      exact .inl trivial
  | wait next =>
      simp only [step] at stepped
      split at stepped <;> cases stepped
  | take notify =>
      simp only [step, takeStep] at stepped
      split at stepped <;> cases stepped
  | sendDone =>
      simp only [step, sendDoneStep] at stepped
      repeat' split at stepped
      all_goals cases stepped
  | announce | lock | dropSender | setClosed | release | giveUp | dropIdleSender | leave | noteLoss | dropLostSender =>
      cases stepped

/-- A write with the sender misses the client only when nobody receives. -/
theorem missed_of_next (stepped : op.step me s = .next op' s') (missed : op'.loser? = some .write) :
    op.loser? = some .write ∨ s.receiving = false ∧ s.sender = .present := by
  cases leads_of_next stepped with
  | miss frame =>
      simp only [step, sendStep] at stepped
      repeat' split at stepped
      all_goals cases stepped
      exact .inr ⟨by simpa using ‹(!s.receiving) = true›, not_not.mp ‹¬s.sender ≠ .present›⟩
  | lost op op' s' loser before after =>
      rw [after] at missed
      exact .inl (before.trans missed)
  | skip next | announce next =>
      cases next <;> cases missed
  | enter next =>
      cases next <;> cases missed
  | take notify =>
      cases notify <;> cases missed
  | look | start | encode | lock | late | sendDone | dropSender | setClosed | release | giveUp | dropIdleSender =>
      cases missed

/-- A sender that is taken is handed on to be dropped. -/
theorem drops_of_next (stepped : op.step me s = .next op' s')
    (cause : op = .sendDone ∨ op = .dropSender ∨ s.sender = .present) (taken : s'.sender = .taken) :
    op' = .sendDone ∨ op' = .dropSender := by
  rcases cause with rfl | rfl | present
  · cases leads_of_next stepped with
    | sendDone =>
        exact .inr rfl
    | lost op op' s' loser before =>
        cases before
  · cases stepped
    cases taken
  · rcases (touches_of_next stepped).sender with same | ⟨notify, rfl, -, -⟩ | gone
    · rw [same, present] at taken
      cases taken
    · simp only [step, takeStep, present] at stepped
      cases notify <;> cases stepped
      · exact .inr rfl
      · exact .inl rfl
    · rw [gone] at taken
      cases taken

theorem not_taken_of_finished (stepped : op.step me s = .finished result s')
    (cause : op = .sendDone ∨ op = .dropSender ∨ s.sender = .present) : s'.sender ≠ .taken := by
  rcases cause with rfl | rfl | present
  · simp only [step, sendDoneStep] at stepped
    repeat' split at stepped
    all_goals cases stepped
  · cases stepped
  · rcases (touches_of_finished stepped).sender with same | ⟨notify, rfl, -, -⟩ | gone
    · rw [same, present]
      exact Sender.noConfusion
    · simp only [step, takeStep, present] at stepped
      cases stepped
    · rw [gone]
      exact Sender.noConfusion

/-- The body's last step drops the receiving end. -/
theorem eq_dropReceiver_of_finished (stepped : op.step me s = .finished result s') (serves : op.Serves .leave) :
    op = .dropReceiver := by
  cases op with
  | dropReceiver =>
      rfl
  | start next =>
      cases next <;> cases serves
  | cancel =>
      rcases serves with impossible | ⟨notify, impossible⟩ <;> cases impossible
  | lose loser =>
      cases loser with
      | write =>
          exact serves.1.elim
      | receiver =>
          simp only [step] at stepped
          split at stepped <;> cases stepped
  | cancelLost loser =>
      cases loser with
      | write =>
          exact serves.1.elim
      | receiver =>
          cases stepped
  | send =>
      exact serves.1.elim
  | wait next =>
      simp only [step] at stepped
      split at stepped <;> cases stepped
  | look | encode | take | sendDone =>
      cases serves
  | announce | lock | dropSender | setClosed | release | giveUp | dropIdleSender | leave | noteLoss | dropLostSender =>
      cases stepped

end Op

namespace EventStream

variable {s : EventStream} {who : Actor}

theorem line_ask (free : s.holder = none → s.queue = []) : (s.ask who).line = s.line ++ [who] := by
  unfold ask line
  split
  · next nobody =>
    rw [nobody, free nobody]
    rfl
  · next held =>
    rw [held, List.append_assoc]

theorem mem_line_of_holder (held : s.holder = some who) : who ∈ s.line := by
  rw [line, held]
  exact List.mem_cons_self

/-- A line that is not empty has a first. -/
theorem exists_holder (free : s.holder = none → s.queue = []) (member : who ∈ s.line) :
    ∃ first, s.holder = some first := by
  cases held : s.holder with
  | none =>
      rw [line, held, free held] at member
      nomatch member
  | some first =>
      exact ⟨first, rfl⟩

end EventStream

namespace Machine

/-- The line at the writer is made up of those whose operations have come to it; the first of them has the lock. -/
structure InLine (m : Machine) : Prop where
  free : m.stream.holder = none → m.stream.queue = []
  distinct : m.stream.line.Nodup
  members : ∀ who, who ∈ m.stream.line ↔ ∃ op, m.op? who = some op ∧ op.Grasps
  first : ∀ who op, m.op? who = some op → op.HoldsWriter → m.stream.holder = some who

variable {m m' : Machine} {who : Actor} {op op' : Op} {s : EventStream} {result : Except StreamError Unit}

/-- The line stays in order when one party takes a step and the operations of all others stay. -/
theorem InLine.step {after? : Option Op} (inLine : m.InLine) (under : m.op? who = some op)
    (grips : op.Grips who m.stream after? s) (left : m'.stream = s) (mine : m'.op? who = after?)
    (others : ∀ other, other ≠ who → m'.op? other = m.op? other) : m'.InLine := by
  have inLineBefore : who ∈ m.stream.line ↔ op.Grasps := by
    rw [inLine.members who, under]
    simp
  -- What has to be shown of the party that steps; the rest is the same for every step.
  have build (free : s.holder = none → s.queue = []) (distinct : s.line.Nodup)
      (kept : ∀ other, other ≠ who → (other ∈ s.line ↔ other ∈ m.stream.line))
      (own : who ∈ s.line ↔ ∃ op', after? = some op' ∧ op'.Grasps)
      (held : ∀ other, other ≠ who → m.stream.holder = some other → s.holder = some other)
      (ownFirst : ∀ op', after? = some op' → op'.HoldsWriter → s.holder = some who) : m'.InLine := by
    subst left
    constructor
    case free =>
      exact free
    case distinct =>
      exact distinct
    case members =>
      intro other
      by_cases same : other = who
      · rw [same, mine]
        exact own
      · rw [kept other same, others other same]
        exact inLine.members other
    case first =>
      intro other op' underOther holds
      by_cases same : other = who
      · subst same
        exact ownFirst op' (mine.symm.trans underOther) holds
      · rw [others other same] at underOther
        exact held other same (inLine.first other op' underOther holds)
  cases grips with
  | apart op after? s' holder queue before after =>
      have line : s.line = m.stream.line := by
        rw [EventStream.line, holder, queue, EventStream.line]
      apply build
      case free =>
        rw [holder, queue]
        exact inLine.free
      case distinct =>
        rw [line]
        exact inLine.distinct
      case kept =>
        intro other _
        rw [line]
      case own =>
        rw [line, inLineBefore]
        refine iff_of_false before ?_
        rintro ⟨op', same, grasps⟩
        exact after op' same grasps
      case held =>
        intro other _ held
        exact holder.trans held
      case ownFirst =>
        intro op' same holds
        exact absurd (.inl holds) (after op' same)
  | ask next =>
      have line := @EventStream.line_ask _ who inLine.free
      have out : who ∉ m.stream.line := by
        rw [inLineBefore]
        simp [Op.Grasps, Op.HoldsWriter]
      have held (other : Actor) (first : m.stream.holder = some other) : (m.stream.ask who).holder = some other :=
        (EventStream.holder_ask_of_held (by rw [first]; nofun)).trans first
      apply build
      case free =>
        intro nobody
        cases first : m.stream.holder with
        | none =>
            simp [EventStream.ask, first] at nobody
        | some other =>
            rw [held other first] at nobody
            nomatch nobody
      case distinct =>
        rw [line, List.nodup_append]
        refine ⟨inLine.distinct, List.nodup_singleton _, ?_⟩
        intro other member last isLast same
        rw [same, List.mem_singleton.mp isLast] at member
        exact out member
      case kept =>
        intro other different
        rw [line, List.mem_append, List.mem_singleton]
        exact or_iff_left different
      case own =>
        rw [line]
        exact iff_of_true (by simp) ⟨_, rfl, .inr ⟨next, rfl⟩⟩
      case held =>
        exact fun other _ => held other
      case ownFirst =>
        rintro op' ⟨⟩ holds
        exact holds.elim
  | enter next isMine =>
      apply build inLine.free inLine.distinct
      case kept =>
        exact fun _ _ => Iff.rfl
      case own =>
        rw [inLineBefore]
        exact iff_of_true (.inr ⟨next, rfl⟩) ⟨_, rfl, .inl (Op.holdsWriter_afterLock next)⟩
      case held =>
        exact fun _ _ held => held
      case ownFirst =>
        exact fun _ _ _ => isMine
  | keep op op' s' holder queue before after =>
      have line : s.line = m.stream.line := by
        rw [EventStream.line, holder, queue, EventStream.line]
      apply build
      case free =>
        rw [holder, queue]
        exact inLine.free
      case distinct =>
        rw [line]
        exact inLine.distinct
      case kept =>
        intro other _
        rw [line]
      case own =>
        rw [line, inLineBefore]
        exact iff_of_true (.inl before) ⟨op', rfl, .inl after⟩
      case held =>
        intro other _ held
        exact holder.trans held
      case ownFirst =>
        intro _ _ _
        exact holder.trans (inLine.first who op under before)
  | release op after? s' holder queue before after =>
      have isFirst := inLine.first who op under before
      have line : m.stream.line = who :: s.line := by
        rw [EventStream.line, EventStream.line, isFirst, holder, queue]
        cases m.stream.queue <;> rfl
      have distinct := inLine.distinct
      rw [line, List.nodup_cons] at distinct
      apply build
      case free =>
        rw [holder, queue, List.head?_eq_none_iff]
        rintro empty
        rw [empty]
        rfl
      case distinct =>
        exact distinct.2
      case kept =>
        intro other different
        rw [line, List.mem_cons]
        exact (or_iff_right different).symm
      case own =>
        refine iff_of_false distinct.1 ?_
        rintro ⟨op', same, grasps⟩
        exact after op' same grasps
      case held =>
        intro other different held
        exact absurd (Option.some.inj (held.symm.trans isFirst)) different
      case ownFirst =>
        intro op' same holds
        exact absurd (.inl holds) (after op' same)

variable {allowed allowed' : Call → Prop}

/-- What one turn of a session may do to its machine, and which calls can begin with it. -/
inductive Stirs (allowed : Call → Prop) (m : Machine) : Machine → Prop
  | called (who : Actor) (what : Call) (free : m.op? who = none) (admitted : what = .ping → m.stream.announced = true)
      (isAllowed : allowed what) :
      Stirs allowed m (m.reach who what.first)
  | moved (who : Actor) (op op' : Op) (s : EventStream) (under : m.op? who = some op)
      (stepped : op.step who m.stream = .next op' s) :
      Stirs allowed m ({ m with stream := s }.reach who op')
  | returned (who : Actor) (op : Op) (result : Except StreamError Unit) (s : EventStream)
      (under : m.op? who = some op) (stepped : op.step who m.stream = .finished result s) :
      Stirs allowed m ({ m with stream := s }.forget who)
  | received :
      Stirs allowed m { m with stream := { m.stream with slot := none } }
  | setPing (millis : Nat) :
      Stirs allowed m { m with stream := m.stream.setPing millis }
  /-- The receiving end goes before there is a body. -/
  | dropped :
      Stirs allowed m { m with stream := { m.stream with receiving := false, slot := none } }

theorem Stirs.goes (stirs : m.Stirs allowed m') : m.stream.phase.Goes m'.stream.phase := by
  cases stirs with
  | moved who op op' s under stepped =>
      exact (Op.touches_of_next stepped).goes
  | returned who op result s under stepped =>
      exact (Op.touches_of_finished stepped).goes
  | called | received | setPing | dropped =>
      exact .stay _

theorem Stirs.gone (stirs : m.Stirs allowed m') (gone : m.stream.sender = .gone) : m'.stream.sender = .gone := by
  cases stirs with
  | moved who op op' s under stepped =>
      exact (Op.touches_of_next stepped).gone gone
  | returned who op result s under stepped =>
      exact (Op.touches_of_finished stepped).gone gone
  | called | received | setPing | dropped =>
      exact gone

theorem Stirs.announced (stirs : m.Stirs allowed m') (announced : m.stream.announced = true) :
    m'.stream.announced = true := by
  cases stirs with
  | moved who op op' s under stepped =>
      exact (Op.touches_of_next stepped).announced_mono announced
  | returned who op result s under stepped =>
      exact (Op.touches_of_finished stepped).announced_mono announced
  | called | received | setPing | dropped =>
      exact announced

theorem Stirs.peerGone (stirs : m.Stirs allowed m') (known : m.stream.peerGone = true) : m'.stream.peerGone = true := by
  cases stirs with
  | moved who op op' s under stepped =>
      exact (Op.delivers_of_next stepped).peerGone_mono known
  | returned who op result s under stepped =>
      exact (Op.delivers_of_finished stepped).peerGone_mono known
  | called | received | setPing | dropped =>
      exact known

/-- A sound history lies behind the machine, and all calls in it are allowed. -/
def Backed (allowed : Call → Prop) (m : Machine) : Prop :=
  ∃ h : History, h.machine = m ∧ h.Sound ∧ ∀ call ∈ h.calls, allowed call

/-- What a machine keeps from turn to turn, beside its books. -/
structure Orderly (m : Machine) : Prop where
  inLine : m.InLine
  /-- Nobody writes to a stream that is idle. -/
  started : ∀ who op, m.op? who = some op → op.HoldsWriter → m.stream.phase ≠ .idle
  closed : ∀ who op, m.op? who = some op → op.HasClosed → m.stream.phase = .closed
  /-- A write misses the client only when nobody receives. -/
  missed : ∀ who op, m.op? who = some op → op.loser? = some .write → m.stream.receiving = false
  /-- A sender that was taken is in the hands of an operation, which is going to drop it. -/
  taken : m.stream.sender = .taken → ∃ who op, m.op? who = some op ∧ (op = .sendDone ∨ op = .dropSender)
  ended : ∀ who, m.op? who = some .setClosed → m.stream.sender = .gone

theorem backed_new (pingMillis : Nat) : Backed allowed ⟨.new pingMillis, []⟩ :=
  ⟨.new pingMillis, rfl, History.sound_new pingMillis, nofun⟩

/-- Before the first turn nobody is at work. -/
theorem op?_new (pingMillis : Nat) (who : Actor) : Machine.op? ⟨.new pingMillis, []⟩ who = none :=
  rfl

theorem inLine_new (pingMillis : Nat) : InLine ⟨.new pingMillis, []⟩ := by
  refine ⟨fun _ => rfl, List.nodup_nil, fun who => iff_of_false List.not_mem_nil ?_, fun who op under => ?_⟩
  · rintro ⟨op, under, -⟩
    rw [op?_new] at under
    nomatch under
  · rw [op?_new] at under
    nomatch under

theorem orderly_new (pingMillis : Nat) : Orderly ⟨.new pingMillis, []⟩ := by
  have nobody {who : Actor} {op : Op} : Machine.op? ⟨.new pingMillis, []⟩ who ≠ some op := by
    rw [op?_new]
    nofun
  constructor
  case inLine =>
    exact inLine_new pingMillis
  case started | closed | missed =>
    exact fun who op under => absurd under nobody
  case taken =>
    nofun
  case ended =>
    exact fun who under => absurd under nobody

theorem Backed.mono (backed : m.Backed allowed) (weaker : ∀ call, allowed call → allowed' call) : m.Backed allowed' := by
  obtain ⟨h, isMachine, sound, calls⟩ := backed
  exact ⟨h, isMachine, sound, fun call member => weaker call (calls call member)⟩

/-- A history goes on with the machine that it is the history of. -/
theorem Backed.stirs (backed : m.Backed allowed) (stirs : m.Stirs allowed m') : m'.Backed allowed := by
  obtain ⟨h, rfl, sound, calls⟩ := backed
  cases stirs with
  | called who what free admitted isAllowed =>
      refine ⟨h.called who what, rfl, sound.called free admitted, ?_⟩
      intro call member
      rcases List.mem_append.mp member with member | member
      · exact calls call member
      · rw [List.mem_singleton.mp member]
        exact isAllowed
  | moved who op op' s under stepped =>
      exact ⟨_, rfl, sound.reached under stepped, calls⟩
  | returned who op result s under stepped =>
      exact ⟨_, rfl, sound.answered under stepped, calls⟩
  | received =>
      exact ⟨_, rfl, sound.happens .received rfl, calls⟩
  | setPing millis =>
      exact ⟨_, rfl, sound.happens (.setPing millis) rfl, calls⟩
  | dropped =>
      let after : History :=
        { h with machine := { h.machine with stream := { h.machine.stream with receiving := false, slot := none } } }
      have traces := fun who op under => sound.traces who op under
      have books : after.Books := { sound.books with }
      exact ⟨after, rfl, ⟨books, fun who op under => { traces who op under with }, sound.apart⟩, calls⟩

theorem Backed.ne_idle (backed : m.Backed allowed) (announced : m.stream.announced = true) : m.stream.phase ≠ .idle := by
  obtain ⟨h, rfl, sound, -⟩ := backed
  exact sound.books.announced announced

theorem Backed.accepted (backed : m.Backed allowed) (idle : m.stream.phase = .idle) : m.stream.accepted = [] := by
  obtain ⟨h, rfl, sound, -⟩ := backed
  rw [sound.books.accepted, sound.books.quiet idle, List.map_nil]

/-- A last frame was sent by a close that sends one. -/
theorem Backed.done (backed : m.Backed allowed) (done : .done ∈ m.stream.accepted) : allowed (.close true) := by
  obtain ⟨h, rfl, sound, calls⟩ := backed
  rw [sound.books.accepted, List.mem_map] at done
  obtain ⟨⟨number, frame⟩, sent, rfl⟩ := done
  exact calls _ (List.mem_of_getElem? (sound.books.done sent).2)

theorem Backed.trace (backed : m.Backed allowed) (under : m.op? who = some op) :
    (op.IsCommitted → m.stream.phase ≠ .idle) ∧ (op = .sendDone → m.stream.sender = .taken) := by
  obtain ⟨h, rfl, sound, -⟩ := backed
  have trace := sound.traces who op under
  exact ⟨trace.committed, fun last => (trace.last last).1⟩

/-! ## A turn keeps the order -/

theorem InLine.reach (inLine : m.InLine) (free : m.op? who = none) (apart : ¬op.Grasps) : (m.reach who op).InLine := by
  constructor
  case free =>
    exact inLine.free
  case distinct =>
    exact inLine.distinct
  case members =>
    intro other
    by_cases same : other = who
    · subst same
      rw [op?_reach_self]
      refine iff_of_false ?_ ?_
      · intro isIn
        obtain ⟨op', under, -⟩ := (inLine.members other).mp isIn
        rw [free] at under
        nomatch under
      · rintro ⟨op', ⟨⟩, grasps⟩
        exact apart grasps
    · rw [op?_reach_of_ne same]
      exact inLine.members other
  case first =>
    intro other op' under holds
    by_cases same : other = who
    · subst same
      rw [op?_reach_self] at under
      cases under
      exact absurd (.inl holds) apart
    · rw [op?_reach_of_ne same] at under
      exact inLine.first other op' under holds

/-- The order is kept when one party takes a step and the operations of all others stay. -/
theorem Orderly.step {after? : Option Op} (orderly : m.Orderly) (under : m.op? who = some op)
    (touches : op.Touches who m.stream s) (delivers : op.Delivers m.stream s)
    (grips : op.Grips who m.stream after? s) (left : m'.stream = s) (mine : m'.op? who = after?)
    (others : ∀ other, other ≠ who → m'.op? other = m.op? other)
    (started : ∀ op', after? = some op' → op'.HoldsWriter → s.phase ≠ .idle)
    (closed : ∀ op', after? = some op' → op'.HasClosed → s.phase = .closed)
    (missed : ∀ op', after? = some op' → op'.loser? = some .write → s.receiving = false)
    (taken : op = .sendDone ∨ op = .dropSender ∨ m.stream.sender = .present → s.sender = .taken →
      ∃ op', after? = some op' ∧ (op' = .sendDone ∨ op' = .dropSender))
    (ended : after? = some .setClosed → s.sender = .gone) : m'.Orderly := by
  have stillGone (gone : m.stream.receiving = false) : s.receiving = false := by
    rcases delivers.receiving with same | ⟨-, gone'⟩
    · exact same.trans gone
    · exact gone'
  have inLine := orderly.inLine.step under grips left mine others
  subst left
  constructor
  case inLine =>
    exact inLine
  case started =>
    intro other op' underOther holds
    by_cases same : other = who
    · subst same
      exact started op' (mine.symm.trans underOther) holds
    · rw [others other same] at underOther
      exact touches.goes.ne_idle (orderly.started other op' underOther holds)
  case closed =>
    intro other op' underOther hasClosed
    by_cases same : other = who
    · subst same
      exact closed op' (mine.symm.trans underOther) hasClosed
    · rw [others other same] at underOther
      exact touches.goes.eq_closed (orderly.closed other op' underOther hasClosed)
  case missed =>
    intro other op' underOther lost
    by_cases same : other = who
    · subst same
      exact missed op' (mine.symm.trans underOther) lost
    · rw [others other same] at underOther
      exact stillGone (orderly.missed other op' underOther lost)
  case taken =>
    intro isTaken
    have own (cause : op = .sendDone ∨ op = .dropSender ∨ m.stream.sender = .present) :
        ∃ who op, m'.op? who = some op ∧ (op = .sendDone ∨ op = .dropSender) := by
      obtain ⟨op', after, drops⟩ := taken cause isTaken
      exact ⟨who, op', mine.trans after, drops⟩
    rcases touches.sender with same | ⟨notify, -, present, -⟩ | gone
    · obtain ⟨other, op', underOther, drops⟩ := orderly.taken (same.symm.trans isTaken)
      by_cases isMine : other = who
      · subst isMine
        obtain rfl : op = op' := Option.some.inj (under.symm.trans underOther)
        exact own (drops.imp_right .inl)
      · exact ⟨other, op', (others other isMine).trans underOther, drops⟩
    · exact own (.inr (.inr present))
    · rw [isTaken] at gone
      nomatch gone
  case ended =>
    intro other underOther
    by_cases same : other = who
    · subst same
      exact ended (mine.symm.trans underOther)
    · rw [others other same] at underOther
      exact touches.gone (orderly.ended other underOther)

theorem Orderly.called (orderly : m.Orderly) (free : m.op? who = none) (what : Call) :
    (m.reach who what.first).Orderly := by
  have before (other : Actor) (op' : Op) (under : (m.reach who what.first).op? other = some op') :
      op' = what.first ∨ m.op? other = some op' := by
    by_cases same : other = who
    · subst same
      rw [op?_reach_self] at under
      exact .inl (Option.some.inj under).symm
    · rw [op?_reach_of_ne same] at under
      exact .inr under
  constructor
  case inLine =>
    exact orderly.inLine.reach free (Op.not_grasps_first what)
  case started =>
    intro other op' under holds
    rcases before other op' under with rfl | under
    · exact absurd holds Op.not_holdsWriter_first
    · exact orderly.started other op' under holds
  case closed =>
    intro other op' under hasClosed
    rcases before other op' under with rfl | under
    · cases what <;> exact hasClosed.elim
    · exact orderly.closed other op' under hasClosed
  case missed =>
    intro other op' under lost
    rcases before other op' under with rfl | under
    · cases what <;> nomatch lost
    · exact orderly.missed other op' under lost
  case taken =>
    intro isTaken
    obtain ⟨other, op', under, drops⟩ := orderly.taken isTaken
    refine ⟨other, op', (op?_reach_of_ne ?_).trans under, drops⟩
    rintro rfl
    rw [free] at under
    nomatch under
  case ended =>
    intro other under
    rcases before other .setClosed under with impossible | under
    · cases what <;> nomatch impossible
    · exact orderly.ended other under

/-- Before the phase is set to closed the sender is dropped, by this close or by one before it. -/
theorem Orderly.gone_of_setClosed (orderly : m.Orderly) (under : m.op? who = some op)
    (stepped : op.step who m.stream = .next .setClosed s) : s.sender = .gone := by
  generalize last : Op.setClosed = op' at stepped
  cases Op.leads_of_next stepped with
  | dropSender =>
      rfl
  | late notify =>
      have untaken : m.stream.sender ≠ .present := by
        intro present
        simp only [Op.step, Op.takeStep, present] at stepped
        cases notify <;> cases last.trans (Progress.next.inj stepped).1.symm
      have notTaken : m.stream.sender ≠ .taken := by
        intro isTaken
        obtain ⟨other, op', underOther, drops⟩ := orderly.taken isTaken
        have holds : op'.HoldsWriter := by
          rcases drops with rfl | rfl <;> trivial
        have first := orderly.inLine.first who _ under trivial
        have same := Option.some.inj (first.symm.trans (orderly.inLine.first other op' underOther holds))
        subst same
        rw [under] at underOther
        rcases drops with rfl | rfl <;> cases underOther
      cases sender : m.stream.sender with
      | present =>
          exact absurd sender untaken
      | taken =>
          exact absurd sender notTaken
      | gone =>
          rfl
  | skip next | announce next =>
      cases next <;> cases last
  | enter next =>
      cases next <;> cases last
  | take notify =>
      cases notify <;> cases last
  | lost op op' s' loser before after =>
      subst last
      cases after
  | look | start | encode | lock | miss | sendDone | setClosed | release | giveUp | dropIdleSender =>
      cases last

/-- Each turn keeps the order. -/
theorem Orderly.stirs (orderly : m.Orderly) (backed : m.Backed allowed) (stirs : m.Stirs allowed' m') : m'.Orderly := by
  cases stirs with
  | called who what free admitted isAllowed =>
      exact orderly.called free what
  | moved who op op' s under stepped =>
      have touches := Op.touches_of_next stepped
      have others (other : Actor) (different : other ≠ who) :
          ({ m with stream := s }.reach who op').op? other = m.op? other :=
        op?_reach_of_ne different
      apply orderly.step under touches (Op.delivers_of_next stepped) (Op.grips_of_next stepped) rfl op?_reach_self others
      case started =>
        rintro op' ⟨⟩ holds
        rcases (Op.leads_of_next stepped).holds holds with ⟨before, -⟩ | ⟨⟨next, rfl⟩, -⟩
        · exact touches.goes.ne_idle (orderly.started who op under before)
        · exact touches.goes.ne_idle ((backed.trace under).1 trivial)
      case closed =>
        rintro op' ⟨⟩ hasClosed
        rcases Op.hasClosed_of_next stepped hasClosed with before | closed
        · exact touches.goes.eq_closed (orderly.closed who op under before)
        · exact closed
      case missed =>
        rintro op' ⟨⟩ lost
        rcases Op.missed_of_next stepped lost with before | ⟨gone, -⟩
        · rcases (Op.delivers_of_next stepped).receiving with same | ⟨-, gone⟩
          · exact same.trans (orderly.missed who op under before)
          · exact gone
        · rcases (Op.delivers_of_next stepped).receiving with same | ⟨-, gone⟩
          · exact same.trans gone
          · exact gone
      case taken =>
        intro cause isTaken
        refine ⟨op', rfl, ?_⟩
        exact Op.drops_of_next stepped cause isTaken
      case ended =>
        rintro ⟨⟩
        exact orderly.gone_of_setClosed under stepped
  | returned who op result s under stepped =>
      have others (other : Actor) (different : other ≠ who) :
          ({ m with stream := s }.forget who).op? other = m.op? other :=
        op?_forget_of_ne different
      exact orderly.step under (Op.touches_of_finished stepped) (Op.delivers_of_finished stepped)
        (Op.grips_of_finished stepped) rfl op?_forget_self others nofun nofun nofun
        (fun cause isTaken => absurd isTaken (Op.not_taken_of_finished stepped cause)) nofun
  | received | setPing =>
      have inLine := orderly.inLine
      exact { orderly with inLine := { inLine with } }
  | dropped =>
      have inLine := orderly.inLine
      exact { orderly with inLine := { inLine with }, missed := fun _ _ _ _ => rfl }

/-- If no operation can go on, then the one that has the lock has a frame, and there is no room for it. -/
theorem Orderly.stuck (orderly : m.Orderly) (under : m.op? who = some op)
    (stuck : ∀ other op', m.op? other = some op' → op'.step other m.stream = .blocked) :
    m.stream.receiving = true ∧ m.stream.slot.isSome = true ∧
      ∃ first op', m.stream.holder = some first ∧ m.op? first = some op' ∧ op'.IsCommitted := by
  have inLine := orderly.inLine
  have grasps : op.Grasps := by
    rcases Op.blocked_iff.mp (stuck who op under) with ⟨next, rfl, -⟩ | ⟨⟨frame, rfl, -⟩ | rfl, -⟩
    · exact .inr ⟨next, rfl⟩
    · exact .inl trivial
    · exact .inl trivial
  obtain ⟨first, held⟩ := EventStream.exists_holder inLine.free ((inLine.members who).mpr ⟨op, under, grasps⟩)
  obtain ⟨op', underFirst, -⟩ := (inLine.members first).mp (EventStream.mem_line_of_holder held)
  rcases Op.blocked_iff.mp (stuck first op' underFirst) with ⟨next, rfl, notHeld⟩ | ⟨writes, receiving, full⟩
  · exact absurd held notHeld
  · refine ⟨receiving, full, first, op', held, underFirst, ?_⟩
    rcases writes with ⟨frame, rfl, -⟩ | rfl <;> trivial

end Machine

end SchemaRpc
