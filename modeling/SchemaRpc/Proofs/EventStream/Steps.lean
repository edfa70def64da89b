import Mathlib.Data.List.Basic
import SchemaRpc.EventStream.Machine

/-!
# Single steps

What one step of an operation may do to the stream it is made on. All that later proofs need of a step is in the rules of
`Op.Touches`: the phase only goes forward (`Op.Touches.goes`), and while the lock of the writer is held, only its holder
touches the channel and the sender (`Op.Touches.elsewhere`).
-/

namespace SchemaRpc

/-- How a stream may go on from one phase to another: never out of `closed`. -/
inductive Phase.Goes : Phase → Phase → Prop
  | stay (phase : Phase) :
      Goes phase phase
  | start :
      Goes .idle .streaming
  /-- It ends before it has started. -/
  | abandon :
      Goes .idle .closed
  | close :
      Goes .streaming .closed

namespace Phase.Goes

variable {first second third : Phase}

theorem trans (early : Goes first second) (late : Goes second third) : Goes first third := by
  cases early with
  | stay =>
      exact late
  | start =>
      cases late with
      | stay =>
          exact .start
      | close =>
          exact .abandon
  | abandon =>
      cases late with
      | stay =>
          exact .abandon
  | close =>
      cases late with
      | stay =>
          exact .close

theorem to_closed (phase : Phase) : Goes phase .closed := by
  cases phase with
  | idle =>
      exact .abandon
  | streaming =>
      exact .close
  | closed =>
      exact .stay .closed

theorem ne_idle (goes : Goes first second) (started : first ≠ .idle) : second ≠ .idle := by
  cases goes with
  | stay =>
      exact started
  | start | abandon | close =>
      nofun

theorem eq_closed (goes : Goes first second) (closed : first = .closed) : second = .closed := by
  subst closed
  cases goes
  rfl

end Phase.Goes

namespace EventStream

variable {s : EventStream} {who : Actor} {frame : Frame}

@[simp]
theorem phase_ask : (s.ask who).phase = s.phase := by
  unfold ask
  split <;> rfl

@[simp]
theorem phase_release : s.release.phase = s.phase :=
  rfl

@[simp]
theorem phase_withdraw : (s.withdraw who).phase = s.phase := by
  unfold withdraw
  split <;> rfl

@[simp]
theorem phase_accept : (s.accept frame).phase = s.phase :=
  rfl

@[simp]
theorem phase_dropIfFree : s.dropIfFree.phase = s.phase := by
  unfold dropIfFree
  split <;> rfl

@[simp]
theorem announced_ask : (s.ask who).announced = s.announced := by
  unfold ask
  split <;> rfl

@[simp]
theorem announced_withdraw : (s.withdraw who).announced = s.announced := by
  unfold withdraw
  split <;> rfl

@[simp]
theorem announced_dropIfFree : s.dropIfFree.announced = s.announced := by
  unfold dropIfFree
  split <;> rfl

@[simp]
theorem sender_ask : (s.ask who).sender = s.sender := by
  unfold ask
  split <;> rfl

@[simp]
theorem sender_release : s.release.sender = s.sender :=
  rfl

@[simp]
theorem sender_withdraw : (s.withdraw who).sender = s.sender := by
  unfold withdraw
  split <;> rfl

@[simp]
theorem sender_accept : (s.accept frame).sender = s.sender :=
  rfl

@[simp]
theorem holder_accept : (s.accept frame).holder = s.holder :=
  rfl

@[simp]
theorem holder_dropIfFree : s.dropIfFree.holder = s.holder := by
  unfold dropIfFree
  split <;> rfl

theorem holder_ask_of_held (held : s.holder ≠ none) : (s.ask who).holder = s.holder := by
  unfold ask
  split
  · next free =>
    exact absurd free held
  · rfl

theorem holder_withdraw_of_ne (other : s.holder ≠ some who) : (s.withdraw who).holder = s.holder := by
  rw [withdraw, if_neg other]

theorem dropIfFree_of_held (held : s.holder ≠ none) : s.dropIfFree = s := by
  rw [dropIfFree, if_neg]
  simpa [Option.isNone_iff_eq_none] using held

theorem sender_dropIfFree : s.dropIfFree.sender = s.sender ∨ s.dropIfFree.sender = .gone := by
  unfold dropIfFree
  split
  · exact .inr rfl
  · exact .inl rfl

end EventStream

namespace Progress

/-- The stream after a step, unless it could not be made. -/
def stream? : Progress → Option EventStream
  | blocked => none
  | next _ s => some s
  | finished _ s => some s

@[simp]
theorem stream?_blocked : blocked.stream? = none :=
  rfl

@[simp]
theorem stream?_next (op : Op) (s : EventStream) : (next op s).stream? = some s :=
  rfl

@[simp]
theorem stream?_finished (result : Except StreamError Unit) (s : EventStream) : (finished result s).stream? = some s :=
  rfl

end Progress

namespace Op

/-- The operation is between taking the lock of the writer and giving it back. -/
def HoldsWriter : Op → Prop
  | send _ | take _ | sendDone | dropSender | setClosed | release => True
  | _ => False

/-- The operation ends the stream by setting its phase. -/
def Closes : Op → Prop
  | setClosed | giveUp | lose _ => True
  | _ => False

/-- The operation takes the sender out of the writer, or drops one that was taken. -/
def TakesSender : Op → Prop
  | take _ | sendDone | dropSender | dropIdleSender | dropLostSender _ => True
  | _ => False

/-- What an operation may do to the stream in one step, or by being dropped: the rules for the phase, the start signal,
the writer and the channel. -/
inductive Touches (me : Actor) (s : EventStream) : Op → EventStream → Prop
  | apart (op : Op) (s' : EventStream) (phase : s'.phase = s.phase) (announced : s'.announced = s.announced)
      (sender : s'.sender = s.sender) (holder : s'.holder = s.holder) (accepted : s'.accepted = s.accepted) :
      Touches me s op s'
  | start (next : AfterStart) (idle : s.phase = .idle) :
      Touches me s (start next) { s with phase := .streaming }
  | announce (next : AfterStart) :
      Touches me s (announce next) { s with announced := true }
  | ask (next : AfterLock) :
      Touches me s (lock next) (s.ask me)
  /-- The operation is dropped while it waits for the lock. -/
  | withdraw (next : AfterLock) :
      Touches me s (wait next) (s.withdraw me)
  | send (frame : Frame) (present : s.sender = .present) :
      Touches me s (send frame) (s.accept frame).release
  | giveBack (op : Op) (holds : op.HoldsWriter) :
      Touches me s op s.release
  | take (notify : Bool) (present : s.sender = .present) :
      Touches me s (take notify) { s with sender := .taken }
  | sendDone :
      Touches me s sendDone (s.accept .done)
  /-- The operation is dropped while its last frame waits for room. -/
  | abort :
      Touches me s sendDone { s with sender := .gone }.release
  | dropSender :
      Touches me s dropSender { s with sender := .gone }
  | close (op : Op) (closes : op.Closes) :
      Touches me s op { s with phase := .closed }
  | dropIfFree (op : Op) (takes : op.TakesSender) :
      Touches me s op s.dropIfFree

variable {op : Op} {me other : Actor} {s s' : EventStream}

theorem stream?_afterLoss (loser : Loser) : (afterLoss s loser).stream? = some s := by
  cases loser <;> rfl

theorem Touches.same (op : Op) : Touches me s op s :=
  .apart op s rfl rfl rfl rfl rfl

theorem touches_of_send {frame : Frame} (stepped : (sendStep frame s).stream? = some s') :
    (send frame).Touches me s s' := by
  unfold sendStep at stepped
  split at stepped
  · cases stepped
    exact .giveBack _ trivial
  · next untaken =>
    have present : s.sender = .present := not_not.mp untaken
    repeat' split at stepped
    all_goals cases stepped
    · exact .giveBack _ trivial
    · exact .send frame present

theorem touches_of_take {notify : Bool} (stepped : (takeStep notify s).stream? = some s') :
    (take notify).Touches me s s' := by
  unfold takeStep at stepped
  split at stepped <;> cases stepped
  · exact .same _
  · next untaken =>
    exact .take notify (not_not.mp untaken)

theorem touches_of_sendDone (stepped : (sendDoneStep s).stream? = some s') : sendDone.Touches me s s' := by
  unfold sendDoneStep at stepped
  repeat' split at stepped
  all_goals cases stepped
  · exact .apart _ _ rfl rfl rfl rfl rfl
  · exact .sendDone

/-- Each step keeps to the rules. -/
theorem touches_of_step (stepped : (op.step me s).stream? = some s') : op.Touches me s s' := by
  cases op with
  | look notify =>
      simp only [step] at stepped
      split at stepped <;> cases stepped <;> exact .same _
  | start next =>
      simp only [step, startStep] at stepped
      split at stepped <;> cases stepped
      · exact .start _ ‹_›
      all_goals exact .same _
  | announce next =>
      cases stepped
      exact .announce next
  | encode event =>
      cases event <;> cases stepped <;> exact .same _
  | lock next =>
      cases stepped
      exact .ask next
  | wait next =>
      simp only [step] at stepped
      split at stepped <;> cases stepped
      exact .same _
  | send frame =>
      exact touches_of_send stepped
  | take notify =>
      exact touches_of_take stepped
  | sendDone =>
      exact touches_of_sendDone stepped
  | dropSender =>
      cases stepped
      exact .dropSender
  | setClosed | giveUp =>
      cases stepped
      exact .close _ trivial
  | release =>
      cases stepped
      exact .giveBack _ trivial
  | lose loser =>
      simp only [step] at stepped
      split at stepped
      · rw [stream?_afterLoss] at stepped
        cases stepped
        exact .same _
      · cases stepped
        exact .close _ trivial
  | cancelLost loser =>
      rw [step, stream?_afterLoss] at stepped
      cases stepped
      exact .apart _ _ rfl rfl rfl rfl rfl
  | dropIdleSender | dropLostSender =>
      cases stepped
      exact .dropIfFree _ trivial
  | cancel | leave | noteLoss | dropReceiver =>
      cases stepped
      exact .apart _ _ rfl rfl rfl rfl rfl

theorem touches_of_next {op' : Op} (stepped : op.step me s = .next op' s') : op.Touches me s s' :=
  touches_of_step (by rw [stepped]; rfl)

theorem touches_of_finished {result : Except StreamError Unit} (stepped : op.step me s = .finished result s') :
    op.Touches me s s' :=
  touches_of_step (by rw [stepped]; rfl)

theorem touches_of_dropped (dropped : op.dropped? me s = some s') : op.Touches me s s' := by
  cases op with
  | wait next =>
      cases dropped
      exact .withdraw next
  | send frame =>
      cases dropped
      exact .giveBack _ trivial
  | sendDone =>
      cases dropped
      exact .abort
  | _ =>
      nomatch dropped

namespace Touches

variable (touches : op.Touches me s s')

include touches

theorem goes : s.phase.Goes s'.phase := by
  cases touches with
  | start next idle =>
      rw [idle]
      exact .start
  | close =>
      exact .to_closed s.phase
  | apart op s' phase =>
      rw [phase]
      exact .stay s.phase
  | ask | withdraw | dropIfFree =>
      simp only [EventStream.phase_ask, EventStream.phase_withdraw, EventStream.phase_dropIfFree]
      exact .stay s.phase
  | announce | send | giveBack | take | sendDone | abort | dropSender =>
      exact .stay s.phase

/-- The phase changes where the stream is started or closed. -/
theorem phase : s'.phase = s.phase ∨ (∃ next, op = .start next ∧ s.phase = .idle) ∨ op.Closes := by
  cases touches with
  | start next idle =>
      exact .inr (.inl ⟨next, rfl, idle⟩)
  | close op closes =>
      exact .inr (.inr closes)
  | apart op s' same =>
      exact .inl same
  | ask | withdraw | dropIfFree =>
      exact .inl (by simp)
  | announce | send | giveBack | take | sendDone | abort | dropSender =>
      exact .inl rfl

/-- Only an operation that is past the start gives the start signal. -/
theorem announced : s'.announced = s.announced ∨ ∃ next, op = .announce next := by
  cases touches with
  | announce next =>
      exact .inr ⟨next, rfl⟩
  | apart op s' phase announced =>
      exact .inl announced
  | ask =>
      exact .inl EventStream.announced_ask
  | withdraw =>
      exact .inl EventStream.announced_withdraw
  | dropIfFree =>
      exact .inl EventStream.announced_dropIfFree
  | start | send | giveBack | take | sendDone | abort | dropSender | close =>
      exact .inl rfl

theorem announced_mono (announced : s.announced = true) : s'.announced = true := by
  cases touches with
  | announce =>
      rfl
  | apart op s' phase same =>
      exact same.trans announced
  | ask | withdraw | dropIfFree =>
      simpa using announced
  | start | send | giveBack | take | sendDone | abort | dropSender | close =>
      exact announced

/-- A frame is accepted from a push or a ping that finds the sender, or from the close that has taken it. -/
theorem accepted :
    s'.accepted = s.accepted ∨
      (∃ frame, op = .send frame ∧ s.sender = .present ∧ s'.accepted = s.accepted ++ [frame]) ∨
      op = .sendDone ∧ s'.accepted = s.accepted ++ [.done] := by
  cases touches with
  | send frame present =>
      exact .inr (.inl ⟨frame, rfl, present, rfl⟩)
  | sendDone =>
      exact .inr (.inr ⟨rfl, rfl⟩)
  | apart op s' phase announced sender holder accepted =>
      exact .inl accepted
  | ask | withdraw | dropIfFree =>
      exact .inl (by simp)
  | start | announce | giveBack | take | abort | dropSender | close =>
      exact .inl rfl

/-- The sender stays, is taken where it was present, or is dropped. -/
theorem sender :
    s'.sender = s.sender ∨ (∃ notify, op = .take notify ∧ s.sender = .present ∧ s'.sender = .taken) ∨
      s'.sender = .gone := by
  cases touches with
  | take notify present =>
      exact .inr (.inl ⟨notify, rfl, present, rfl⟩)
  | dropIfFree =>
      rcases EventStream.sender_dropIfFree (s := s) with same | gone
      · exact .inl same
      · exact .inr (.inr gone)
  | abort | dropSender =>
      exact .inr (.inr rfl)
  | apart op s' phase announced sender =>
      exact .inl sender
  | ask | withdraw =>
      exact .inl (by simp)
  | start | announce | send | giveBack | sendDone | close =>
      exact .inl rfl

/-- A sender that is gone stays gone. -/
theorem gone (before : s.sender = .gone) : s'.sender = .gone := by
  rcases touches.sender with same | ⟨notify, -, present, -⟩ | gone
  · exact same.trans before
  · rw [before] at present
    nomatch present
  · exact gone

/-- Only operations that close the stream set the phase to closed. -/
theorem closes (before : s.phase ≠ .closed) (after : s'.phase = .closed) : op.Closes := by
  cases touches with
  | close op closes =>
      exact closes
  | apart op s' phase =>
      exact absurd (phase ▸ after) before
  | ask | withdraw | dropIfFree =>
      exact absurd (by simpa using after) before
  | start =>
      nomatch after
  | announce | send | giveBack | take | sendDone | abort | dropSender =>
      exact absurd after before

theorem sender_before (present : s'.sender = .present) : s.sender = .present := by
  rcases touches.sender with same | ⟨notify, -, before, -⟩ | gone
  · exact same ▸ present
  · exact before
  · rw [gone] at present
    nomatch present

/-- Only operations that take the sender leave the stream without one. -/
theorem takes (before : s.sender = .present) (after : s'.sender ≠ .present) : op.TakesSender := by
  cases touches with
  | dropIfFree op takes =>
      exact takes
  | take | sendDone | abort | dropSender =>
      trivial
  | apart op s' phase announced sender =>
      exact absurd (sender.trans before) after
  | ask | withdraw =>
      exact absurd before (by simpa using after)
  | start | announce | send | giveBack | close =>
      exact absurd before after

/-- While another party holds the lock, the channel, the sender and the lock stay as they are. -/
theorem elsewhere (exclusive : op.HoldsWriter → s.holder = some me) (held : s.holder = some other)
    (different : other ≠ me) :
    s'.accepted = s.accepted ∧ s'.sender = s.sender ∧ s'.holder = some other := by
  have busy : s.holder ≠ none := by
    rw [held]
    nofun
  have idle : ¬op.HoldsWriter := fun holds =>
    different (Option.some.inj (held.symm.trans (exclusive holds)))
  cases touches with
  | apart op s' phase announced sender holder accepted =>
      exact ⟨accepted, sender, holder.trans held⟩
  | ask next =>
      exact ⟨by simp, by simp, (EventStream.holder_ask_of_held busy).trans held⟩
  | withdraw next =>
      have notMine : s.holder ≠ some me := fun mine => different (Option.some.inj (held.symm.trans mine))
      exact ⟨by simp, by simp, (EventStream.holder_withdraw_of_ne notMine).trans held⟩
  | dropIfFree =>
      rw [EventStream.dropIfFree_of_held busy]
      exact ⟨rfl, rfl, held⟩
  | start | announce | close =>
      exact ⟨rfl, rfl, held⟩
  | send | take | sendDone | abort | dropSender =>
      exact absurd trivial idle
  | giveBack op holds =>
      exact absurd holds idle

end Touches

end Op

end SchemaRpc
