import SchemaRpc.Proofs.EventStream.Steps

/-!
# The way of an operation

From which step an operation comes to which, as the rules of `Op.Leads`, and what that says about the operations of one
call: which call an operation can serve, whether it still seeks the writer, and whether its frame is still to come.
-/

namespace SchemaRpc

/-- The frame that a call adds to the channel if it gets that far. -/
def Call.frame? : Call → Option Frame
  | push (.ok json) => some (.message json)
  | close true => some .done
  | ping => some .ping
  | _ => none

/-- Writes one frame and then returns. -/
def Call.IsWrite : Call → Prop
  | push _ | ping => True
  | _ => False

theorem Call.eq_close_of_frame? {call : Call} (sends : call.frame? = some .done) : call = .close true := by
  cases call with
  | push event =>
      cases event <;> nomatch sends
  | close notify =>
      cases notify with
      | false =>
          nomatch sends
      | true =>
          rfl
  | _ =>
      nomatch sends

theorem Call.ne_done_of_isWrite {call : Call} {frame : Frame} (write : call.IsWrite)
    (sends : call.frame? = some frame) : frame ≠ .done := by
  rintro rfl
  rw [Call.eq_close_of_frame? sends] at write
  exact write

def AfterStart.call : AfterStart → Call
  | encode event => .push event
  | close notify => .close notify

def AfterLock.Serves (call : Call) : AfterLock → Prop
  | send frame => call.IsWrite ∧ call.frame? = some frame
  | take notify => call = .close notify

def Loser.Serves (call : Call) : Loser → Prop
  | write => call.IsWrite ∧ call.frame?.isSome
  | receiver => call = .disconnect ∨ call = .leave

namespace Op

/-- Who noticed the loss that the operation deals with. -/
def loser? : Op → Option Loser
  | lose loser | noteLoss loser | dropLostSender loser | cancelLost loser => some loser
  | leave | dropReceiver => some .receiver
  | _ => none

/-- The operation is a step of the call. -/
def Serves (call : Call) : Op → Prop
  | look notify | take notify => call = .close notify
  | start next | announce next => call = next.call
  | encode event => call = .push event
  | lock next | wait next => next.Serves call
  | send frame => call.IsWrite ∧ call.frame? = some frame
  | sendDone => call = .close true
  | dropSender | setClosed | release => ∃ notify, call = .close notify
  | cancel => call = .abandon ∨ ∃ notify, call = .close notify
  | giveUp | dropIdleSender => call = .abandon
  | lose loser | noteLoss loser | dropLostSender loser | cancelLost loser => loser.Serves call
  | leave | dropReceiver => Loser.receiver.Serves call

/-- The operation has come past the start of the stream and has not sent its frame yet. -/
def IsCommitted : Op → Prop
  | announce _ | encode _ | lock _ | wait _ | send _ | take _ | sendDone => True
  | _ => False

/-- The operation has not had the lock of the writer yet. -/
def SeeksWriter : Op → Prop
  | look _ | start _ | announce _ | encode _ | lock _ | wait _ => True
  | _ => False

/-- The frame of the operation, if it has one, was sent. -/
def HasSent : Op → Prop
  | dropSender | setClosed | release | cancel => True
  | _ => False

/-- How one step of an operation leads to the next. -/
inductive Leads (me : Actor) (s : EventStream) : Op → Op → EventStream → Prop
  | look (notify : Bool) :
      Leads me s (look notify) (start (.close notify)) s
  | start (next : AfterStart) :
      Leads me s (start next) (announce next) { s with phase := .streaming }
  | skip (next : AfterStart) (started : s.phase ≠ .idle) :
      Leads me s (start next) (afterStart next) s
  | announce (next : AfterStart) :
      Leads me s (announce next) (afterStart next) { s with announced := true }
  | encode (json : String) :
      Leads me s (encode (.ok json)) (lock (.send (.message json))) s
  | lock (next : AfterLock) :
      Leads me s (lock next) (wait next) (s.ask me)
  | enter (next : AfterLock) (mine : s.holder = some me) :
      Leads me s (wait next) (afterLock next) s
  | miss (frame : Frame) :
      Leads me s (send frame) (lose .write) s.release
  /-- Another close has taken the sender before. -/
  | late (notify : Bool) :
      Leads me s (take notify) setClosed s
  | take (notify : Bool) (present : s.sender = .present) :
      Leads me s (take notify) (if notify then sendDone else dropSender) { s with sender := .taken }
  | sendDone (s' : EventStream) (holder : s'.holder = s.holder) :
      Leads me s sendDone dropSender s'
  | dropSender :
      Leads me s dropSender setClosed { s with sender := .gone }
  | setClosed :
      Leads me s setClosed release { s with phase := .closed }
  | release :
      Leads me s release cancel s.release
  | giveUp :
      Leads me s giveUp dropIdleSender { s with phase := .closed }
  | dropIdleSender :
      Leads me s dropIdleSender cancel s.dropIfFree
  | lost (op op' : Op) (s' : EventStream) (loser : Loser) (before : op.loser? = some loser)
      (after : op'.loser? = some loser) (accepted : s'.accepted = s.accepted) :
      Leads me s op op' s'

variable {op op' : Op} {me : Actor} {s s' : EventStream} {call : Call}

theorem leads_of_start {next : AfterStart} (stepped : startStep next s = .next op' s') :
    (start next).Leads me s op' s' := by
  unfold startStep at stepped
  split at stepped <;> cases stepped
  · exact .start _
  · next streaming =>
    exact .skip _ (by rw [streaming]; nofun)
  · next closed =>
    exact .skip _ (by rw [closed]; nofun)

theorem leads_of_send {frame : Frame} (stepped : sendStep frame s = .next op' s') :
    (send frame).Leads me s op' s' := by
  unfold sendStep at stepped
  repeat' split at stepped
  all_goals cases stepped
  exact .miss frame

theorem leads_of_take {notify : Bool} (stepped : takeStep notify s = .next op' s') :
    (take notify).Leads me s op' s' := by
  unfold takeStep at stepped
  split at stepped <;> cases stepped
  · exact .late notify
  · next untaken =>
    exact .take notify (not_not.mp untaken)

theorem leads_of_sendDone (stepped : sendDoneStep s = .next op' s') : sendDone.Leads me s op' s' := by
  unfold sendDoneStep at stepped
  repeat' split at stepped
  all_goals cases stepped
  all_goals exact .sendDone _ rfl

theorem leads_of_afterLoss {loser : Loser} (stepped : afterLoss s loser = .next op' s') :
    op'.loser? = some loser ∧ s' = s := by
  cases loser with
  | write =>
      nomatch stepped
  | receiver =>
      cases stepped
      exact ⟨rfl, rfl⟩

/-- Each step that is not the last keeps to the rules. -/
theorem leads_of_next (stepped : op.step me s = .next op' s') : op.Leads me s op' s' := by
  cases op with
  | look notify =>
      simp only [step] at stepped
      split at stepped <;> cases stepped
      exact .look notify
  | start next =>
      exact leads_of_start stepped
  | announce next =>
      cases stepped
      exact .announce next
  | encode event =>
      cases event <;> cases stepped
      exact .encode _
  | lock next =>
      cases stepped
      exact .lock next
  | wait next =>
      simp only [step] at stepped
      split at stepped <;> cases stepped
      exact .enter next ‹_›
  | send frame =>
      exact leads_of_send stepped
  | take notify =>
      exact leads_of_take stepped
  | sendDone =>
      exact leads_of_sendDone stepped
  | dropSender =>
      cases stepped
      exact .dropSender
  | setClosed =>
      cases stepped
      exact .setClosed
  | release =>
      cases stepped
      exact .release
  | giveUp =>
      cases stepped
      exact .giveUp
  | dropIdleSender =>
      cases stepped
      exact .dropIdleSender
  | leave =>
      cases stepped
      refine .lost _ _ _ .receiver rfl ?_ rfl
      split <;> rfl
  | lose loser =>
      simp only [step] at stepped
      split at stepped
      · obtain ⟨after, rfl⟩ := leads_of_afterLoss stepped
        exact .lost _ _ _ loser rfl after rfl
      · cases stepped
        exact .lost _ _ _ loser rfl rfl rfl
  | noteLoss loser =>
      cases stepped
      exact .lost _ _ _ loser rfl rfl rfl
  | dropLostSender loser =>
      cases stepped
      exact .lost _ _ _ loser rfl rfl (by simp)
  | cancelLost loser =>
      obtain ⟨after, rfl⟩ := leads_of_afterLoss stepped
      exact .lost _ _ _ loser rfl after rfl
  | cancel | dropReceiver =>
      cases stepped

namespace Leads

variable (leads : op.Leads me s op' s')

include leads

/-- An operation comes to hold the writer only by the lock, and then keeps it until it gives it back. -/
theorem holds (holds' : op'.HoldsWriter) :
    op.HoldsWriter ∧ s'.holder = s.holder ∨ (∃ next, op = wait next) ∧ s'.holder = some me := by
  cases leads with
  | enter next mine =>
      exact .inr ⟨⟨next, rfl⟩, mine⟩
  | sendDone s' holder =>
      exact .inl ⟨trivial, holder⟩
  | late | take | dropSender | setClosed =>
      exact .inl ⟨trivial, rfl⟩
  | skip next | announce next =>
      cases next <;> exact holds'.elim
  | lost op op' s' loser before after =>
      cases op' <;> first | exact holds'.elim | nomatch after
  | look | start | encode | lock | miss | release | giveUp | dropIdleSender =>
      exact holds'.elim

theorem committed (committed' : op'.IsCommitted) : op.IsCommitted ∨ s'.phase ≠ .idle := by
  cases leads with
  | start next =>
      exact .inr nofun
  | skip next started =>
      exact .inr started
  | announce | encode | lock | enter | miss | late | take | sendDone =>
      exact .inl trivial
  | lost op op' s' loser before after =>
      cases op' <;> first | exact committed'.elim | nomatch after
  | look | dropSender | setClosed | release | giveUp | dropIdleSender =>
      exact committed'.elim

/-- Before the lock is had, no step leads back to seeking it. -/
theorem seeks (seeks' : op'.SeeksWriter) : op.SeeksWriter ∧ ∀ next, op ≠ wait next := by
  cases leads with
  | look | start | skip | announce | encode | lock =>
      exact ⟨trivial, nofun⟩
  | enter next =>
      cases next <;> exact seeks'.elim
  | take notify =>
      cases notify <;> exact seeks'.elim
  | lost op op' s' loser before after =>
      cases op' <;> first | exact seeks'.elim | nomatch after
  | miss | late | sendDone | dropSender | setClosed | release | giveUp | dropIdleSender =>
      exact seeks'.elim

/-- A step that is not the last sends at most the last frame of a close. -/
theorem unsent (unsent' : ¬op'.HasSent) : ¬op.HasSent ∧ s'.accepted = s.accepted := by
  cases leads with
  | look | start | skip | announce | encode | enter | miss | take | giveUp =>
      exact ⟨id, rfl⟩
  | lock =>
      exact ⟨id, by simp⟩
  | late | sendDone | dropSender | setClosed | release | dropIdleSender =>
      exact absurd trivial unsent'
  | lost op op' s' loser before after accepted =>
      cases op <;> first | exact ⟨id, accepted⟩ | nomatch before

theorem serves (serves : op.Serves call) : op'.Serves call := by
  cases leads with
  | look | start | lock | giveUp =>
      exact serves
  | skip next | announce next =>
      cases next <;> exact serves
  | encode json =>
      cases serves
      exact ⟨trivial, rfl⟩
  | enter next =>
      cases next <;> exact serves
  | miss frame =>
      exact ⟨serves.1, by rw [serves.2]; rfl⟩
  | late notify =>
      exact ⟨notify, serves⟩
  | take notify =>
      cases notify
      · exact ⟨false, serves⟩
      · exact serves
  | sendDone =>
      exact ⟨true, serves⟩
  | dropSender | setClosed =>
      exact serves
  | release =>
      exact .inr serves
  | dropIdleSender =>
      exact .inl serves
  | lost op op' s' loser before after =>
      cases op <;> cases before <;> cases op' <;> cases after <;> exact serves

/-- A close comes to its last frame by taking the sender. -/
theorem takes (last : op' = Op.sendDone) :
    op = Op.take true ∧ s.sender = .present ∧ s' = { s with sender := .taken } := by
  cases leads with
  | take notify present =>
      cases notify with
      | false =>
          nomatch last
      | true =>
          exact ⟨rfl, present, rfl⟩
  | skip next | announce next =>
      cases next <;> nomatch last
  | enter next =>
      cases next <;> nomatch last
  | lost op op' s' loser before after =>
      subst last
      nomatch after
  | _ =>
      nomatch last

end Leads

theorem serves_first (call : Call) : call.first.Serves call := by
  cases call with
  | ping =>
      exact ⟨trivial, rfl⟩
  | disconnect =>
      exact .inl rfl
  | leave =>
      exact .inr rfl
  | _ =>
      rfl

/-- Only a ping begins past the start of the stream. -/
theorem eq_ping_of_isCommitted_first (committed : call.first.IsCommitted) : call = .ping := by
  cases call with
  | ping =>
      rfl
  | _ =>
      exact committed.elim

theorem not_holdsWriter_first : ¬call.first.HoldsWriter := by
  cases call <;> exact id

/-- The next thing the operation does, if it can, is to add the frame to the channel. -/
def Writes (frame : Frame) : Op → Prop
  | send sent => sent = frame
  | sendDone => frame = .done
  | _ => False

section Writes

variable {frame : Frame} (writes : op.Writes frame)

include writes

theorem Writes.holdsWriter : op.HoldsWriter := by
  cases op <;> first | exact writes.elim | trivial

theorem Writes.isCommitted : op.IsCommitted := by
  cases op <;> first | exact writes.elim | trivial

theorem Writes.not_hasSent : ¬op.HasSent := by
  cases op <;> first | exact writes.elim | exact id

theorem Writes.frame? (serves : op.Serves call) : call.frame? = some frame := by
  cases op with
  | send sent =>
      cases writes
      exact serves.2
  | sendDone =>
      cases writes
      cases serves
      rfl
  | _ =>
      exact writes.elim

end Writes

theorem writes_of_touches (touches : op.Touches me s s') (changed : s'.accepted ≠ s.accepted) :
    ∃ frame, op.Writes frame ∧ (op = .sendDone ∨ s.sender = .present) ∧ s'.accepted = s.accepted ++ [frame] := by
  rcases touches.accepted with same | ⟨frame, rfl, present, accepted⟩ | ⟨rfl, accepted⟩
  · exact absurd same changed
  · exact ⟨frame, rfl, .inr present, accepted⟩
  · exact ⟨.done, rfl, .inl rfl, accepted⟩

theorem not_hasSent_of_push {event : Except CodecError String} (serves : op.Serves (.push event)) : ¬op.HasSent := by
  cases op with
  | dropSender | setClosed | release =>
      obtain ⟨notify, impossible⟩ := serves
      nomatch impossible
  | cancel =>
      rcases serves with impossible | ⟨notify, impossible⟩ <;> nomatch impossible
  | _ =>
      exact id

/-- A push that cannot be encoded comes neither to close the stream nor to take the sender. -/
theorem not_ends_of_unencoded {error : CodecError} (serves : op.Serves (.push (.error error))) :
    ¬op.Closes ∧ ¬op.TakesSender := by
  cases op with
  | take | sendDone | giveUp | dropIdleSender =>
      nomatch serves
  | dropSender | setClosed =>
      obtain ⟨notify, impossible⟩ := serves
      nomatch impossible
  | lose loser | dropLostSender loser =>
      cases loser with
      | write =>
          nomatch serves.2
      | receiver =>
          rcases serves with impossible | impossible <;> nomatch impossible
  | _ =>
      exact ⟨id, id⟩

/-- A push returns without an error exactly when its last step adds its frame. -/
theorem finished_of_push {event : Except CodecError String} {result : Except StreamError Unit}
    (serves : op.Serves (.push event)) (stepped : op.step me s = .finished result s') :
    result = .ok () ↔ s'.accepted ≠ s.accepted := by
  cases op with
  | start next =>
      simp only [step, startStep] at stepped
      split at stepped <;> cases stepped
      simp
  | encode outcome =>
      cases outcome <;> cases stepped
      simp
  | send frame =>
      simp only [step, sendStep] at stepped
      repeat' split at stepped
      all_goals cases stepped
      · simp
      · simp
  | lose loser =>
      simp only [step] at stepped
      split at stepped
      · cases loser with
        | write =>
            cases stepped
            simp
        | receiver =>
            cases stepped
      · cases stepped
  | cancelLost loser =>
      cases loser with
      | write =>
          cases stepped
          simp
      | receiver =>
          cases stepped
  | look | cancel | dropReceiver =>
      rcases serves with impossible | ⟨notify, impossible⟩ <;> cases impossible
  | wait next =>
      simp only [step] at stepped
      split at stepped <;> cases stepped
  | take notify =>
      cases serves
  | sendDone =>
      cases serves
  | announce | lock | dropSender | setClosed | release | giveUp | dropIdleSender | leave | noteLoss | dropLostSender =>
      cases stepped

end Op

end SchemaRpc
