import SchemaRpc.Proofs.EventStream.Flow

/-!
# Steps and the channel

What one step of an operation does to the channel of the frames (`Op.Delivers`), when a step cannot be made
(`Op.blocked_iff`), and how far an operation is from its end: the rank of an operation falls with each of its steps
(`Op.rank_of_next`), also when a frame in the channel is counted with it.
-/

namespace SchemaRpc

namespace EventStream

variable {s : EventStream} {who : Actor}

@[simp]
theorem slot_ask : (s.ask who).slot = s.slot := by
  unfold ask
  split <;> rfl

@[simp]
theorem slot_release : s.release.slot = s.slot :=
  rfl

@[simp]
theorem slot_dropIfFree : s.dropIfFree.slot = s.slot := by
  unfold dropIfFree
  split <;> rfl

@[simp]
theorem receiving_ask : (s.ask who).receiving = s.receiving := by
  unfold ask
  split <;> rfl

@[simp]
theorem receiving_dropIfFree : s.dropIfFree.receiving = s.receiving := by
  unfold dropIfFree
  split <;> rfl

@[simp]
theorem peerGone_ask : (s.ask who).peerGone = s.peerGone := by
  unfold ask
  split <;> rfl

@[simp]
theorem peerGone_dropIfFree : s.dropIfFree.peerGone = s.peerGone := by
  unfold dropIfFree
  split <;> rfl

/-- How many frames wait in the channel. -/
def load (s : EventStream) : Nat :=
  s.slot.toList.length

end EventStream

namespace Op

variable {op op' : Op} {me : Actor} {s s' : EventStream} {result : Except StreamError Unit}

/-- What a step does to the channel and to what is known of the client. -/
inductive Delivers (s : EventStream) : Op → EventStream → Prop
  | nothing (op : Op) (s' : EventStream) (slot : s'.slot = s.slot) (accepted : s'.accepted = s.accepted)
      (receiving : s'.receiving = s.receiving) (peerGone : s'.peerGone = s.peerGone) :
      Delivers s op s'
  | frame (op : Op) (s' : EventStream) (frame : Frame) (writes : op.Writes frame) (empty : s.slot = none)
      (slot : s'.slot = some frame) (accepted : s'.accepted = s.accepted ++ [frame])
      (receiving : s'.receiving = s.receiving) (peerGone : s'.peerGone = s.peerGone) :
      Delivers s op s'
  /-- A loss becomes known. -/
  | loss (op : Op) (cause : (∃ loser, op = .noteLoss loser) ∨ op = .sendDone ∧ s.receiving = false) :
      Delivers s op { s with peerGone := true }
  | drop :
      Delivers s .dropReceiver { s with receiving := false, slot := none }

theorem Delivers.same (op : Op) : Delivers s op s :=
  .nothing op s rfl rfl rfl rfl

theorem delivers_of_send {frame : Frame} (stepped : (sendStep frame s).stream? = some s') :
    Delivers s (send frame) s' := by
  unfold sendStep at stepped
  split at stepped
  · cases stepped
    exact .nothing _ _ rfl rfl rfl rfl
  split at stepped
  · cases stepped
    exact .nothing _ _ rfl rfl rfl rfl
  split at stepped
  · nomatch stepped
  · next empty =>
    cases stepped
    exact .frame _ _ frame rfl (Option.not_isSome_iff_eq_none.mp empty) rfl rfl rfl rfl

theorem delivers_of_sendDone (stepped : (sendDoneStep s).stream? = some s') : Delivers s sendDone s' := by
  unfold sendDoneStep at stepped
  split at stepped
  · next closed =>
    cases stepped
    exact .loss _ (.inr ⟨rfl, by simpa using closed⟩)
  split at stepped
  · nomatch stepped
  · next empty =>
    cases stepped
    exact .frame _ _ .done rfl (Option.not_isSome_iff_eq_none.mp empty) rfl rfl rfl rfl

/-- Each step keeps to the rules of the channel. -/
theorem delivers_of_step (stepped : (op.step me s).stream? = some s') : op.Delivers s s' := by
  cases op with
  | look notify =>
      simp only [step] at stepped
      split at stepped <;> cases stepped <;> exact .same _
  | start next =>
      simp only [step, startStep] at stepped
      split at stepped <;> cases stepped <;> exact .nothing _ _ rfl rfl rfl rfl
  | encode event =>
      cases event <;> cases stepped <;> exact .same _
  | lock next | dropIdleSender | dropLostSender loser =>
      cases stepped
      exact .nothing _ _ (by simp) (by simp) (by simp) (by simp)
  | wait next =>
      simp only [step] at stepped
      split at stepped <;> cases stepped
      exact .same _
  | send frame =>
      exact delivers_of_send stepped
  | take notify =>
      simp only [step, takeStep] at stepped
      split at stepped <;> cases stepped <;> exact .nothing _ _ rfl rfl rfl rfl
  | sendDone =>
      exact delivers_of_sendDone stepped
  | lose loser =>
      simp only [step] at stepped
      split at stepped
      · rw [stream?_afterLoss] at stepped
        cases stepped
        exact .same _
      · cases stepped
        exact .nothing _ _ rfl rfl rfl rfl
  | noteLoss loser =>
      cases stepped
      exact .loss _ (.inl ⟨loser, rfl⟩)
  | cancelLost loser =>
      rw [step, stream?_afterLoss] at stepped
      cases stepped
      exact .nothing _ _ rfl rfl rfl rfl
  | dropReceiver =>
      cases stepped
      exact .drop
  | announce | dropSender | setClosed | release | cancel | giveUp | leave =>
      cases stepped
      exact .nothing _ _ rfl rfl rfl rfl

theorem delivers_of_next (stepped : op.step me s = .next op' s') : op.Delivers s s' :=
  @delivers_of_step op me s s' (by rw [stepped]; rfl)

theorem delivers_of_finished (stepped : op.step me s = .finished result s') : op.Delivers s s' :=
  @delivers_of_step op me s s' (by rw [stepped]; rfl)

/-- Only the last step of the body stops the receiving. -/
theorem Delivers.receiving (delivers : op.Delivers s s') :
    s'.receiving = s.receiving ∨ op = .dropReceiver ∧ s'.receiving = false := by
  cases delivers with
  | nothing op s' slot accepted receiving | frame op s' frame writes empty slot accepted receiving =>
      exact .inl receiving
  | loss =>
      exact .inl rfl
  | drop =>
      exact .inr ⟨rfl, rfl⟩

theorem Delivers.peerGone (delivers : op.Delivers s s') (known : s'.peerGone = true) :
    s.peerGone = true ∨ (∃ loser, op = .noteLoss loser) ∨ op = .sendDone ∧ s.receiving = false := by
  cases delivers with
  | nothing op s' slot accepted receiving peerGone =>
      exact .inl (peerGone ▸ known)
  | frame op s' frame writes empty slot accepted receiving peerGone =>
      exact .inl (peerGone ▸ known)
  | loss op cause =>
      exact .inr cause
  | drop =>
      exact .inl known

/-- The last step of an operation tells nothing new of the client. -/
theorem peerGone_of_finished (stepped : op.step me s = .finished result s') : s'.peerGone = s.peerGone := by
  cases delivers_of_finished stepped with
  | nothing op s' slot accepted receiving peerGone | frame op s' frame writes empty slot accepted receiving peerGone =>
      exact peerGone
  | loss op cause =>
      rcases cause with ⟨loser, rfl⟩ | ⟨rfl, -⟩
      · cases stepped
      · simp only [step, sendDoneStep] at stepped
        repeat' split at stepped
        all_goals cases stepped
  | drop =>
      rfl

/-- What is known of the client stays known. -/
theorem Delivers.peerGone_mono (delivers : op.Delivers s s') (known : s.peerGone = true) : s'.peerGone = true := by
  cases delivers with
  | nothing op s' slot accepted receiving peerGone | frame op s' frame writes empty slot accepted receiving peerGone =>
      exact peerGone.trans known
  | loss =>
      rfl
  | drop =>
      exact known

/-! ## Steps that cannot be made -/

/-- An operation waits for the lock, or for room in the channel. -/
theorem blocked_iff :
    op.step me s = .blocked ↔
      (∃ next, op = .wait next ∧ s.holder ≠ some me) ∨
        ((∃ frame, op = .send frame ∧ s.sender = .present) ∨ op = .sendDone) ∧ s.receiving = true ∧
          s.slot.isSome = true := by
  cases op with
  | wait next =>
      by_cases mine : s.holder = some me
      · simp [step, mine]
      · simp [step, mine]
  | send frame =>
      by_cases present : s.sender = .present <;> cases receiving : s.receiving <;> cases slot : s.slot <;>
        simp [step, sendStep, present, receiving, slot]
  | sendDone =>
      cases receiving : s.receiving <;> cases slot : s.slot <;> simp [step, sendDoneStep, receiving, slot]
  | start next =>
      cases phase : s.phase <;> cases next <;> simp [step, startStep, phase]
  | look notify =>
      by_cases closed : s.phase = .closed <;> simp [step, closed]
  | encode event =>
      cases event <;> simp [step]
  | take notify =>
      by_cases present : s.sender = .present <;> simp [step, takeStep, present]
  | lose loser =>
      by_cases closed : s.phase = .closed <;> cases loser <;> simp [step, afterLoss, closed]
  | cancelLost loser =>
      cases loser <;> simp [step, afterLoss]
  | announce | lock | dropSender | setClosed | release | cancel | giveUp | dropIdleSender | leave | noteLoss
  | dropLostSender | dropReceiver =>
      simp [step]

/-! ## The rank of an operation -/

/-- An operation makes at most this many steps. -/
def rank : Op → Nat
  | look _ => 13
  | start _ => 12
  | announce _ => 11
  | encode _ => 10
  | lock _ => 9
  | wait _ => 8
  | send _ | take _ => 7
  | sendDone | leave => 6
  | lose _ => 5
  | dropSender | noteLoss _ => 4
  | setClosed | giveUp | dropLostSender _ => 3
  | release | dropIdleSender | cancelLost _ => 2
  | cancel | dropReceiver => 1

theorem rank_first_le (call : Call) : call.first.rank ≤ 13 := by
  cases call <;> simp [Call.first, rank]

theorem rank_pos (op : Op) : 0 < op.rank := by
  cases op <;> simp [rank]

/-- A step that fills the channel brings the operation nearer to its end by more than one. -/
theorem rank_of_next (stepped : op.step me s = .next op' s') : op'.rank + s'.load < op.rank + s.load := by
  unfold EventStream.load
  cases op with
  | look notify =>
      simp only [step] at stepped
      split at stepped <;> cases stepped
      simp [rank]
  | start next =>
      cases next <;> simp only [step, startStep] at stepped <;> split at stepped <;> cases stepped <;>
        simp [rank, afterStart]
  | announce next =>
      cases next <;> cases stepped <;> simp [rank, afterStart]
  | encode event =>
      cases event <;> cases stepped
      simp [rank]
  | wait next =>
      simp only [step] at stepped
      split at stepped <;> cases stepped
      cases next <;> simp [rank, afterLock]
  | send frame =>
      simp only [step, sendStep] at stepped
      repeat' split at stepped
      all_goals cases stepped
      simp [rank]
  | take notify =>
      simp only [step, takeStep] at stepped
      split at stepped <;> cases stepped
      · simp [rank]
      · cases notify <;> simp [rank]
  | sendDone =>
      simp only [step, sendDoneStep] at stepped
      repeat' split at stepped
      all_goals cases stepped
      · simp [rank]
      · simp only [rank, EventStream.accept, Option.toList_some, List.length_singleton]
        omega
  | lose loser =>
      simp only [step] at stepped
      split at stepped
      · cases loser <;> cases stepped
        simp [rank]
      · cases stepped
        simp [rank]
  | leave =>
      simp only [step] at stepped
      split at stepped <;> cases stepped <;> simp [rank]
  | cancelLost loser =>
      cases loser <;> cases stepped
      simp [rank]
  | lock | dropSender | setClosed | release | giveUp | dropIdleSender | noteLoss | dropLostSender =>
      cases stepped
      simp [rank]
  | cancel | dropReceiver =>
      cases stepped

theorem load_of_finished (stepped : op.step me s = .finished result s') : s'.load < op.rank + s.load := by
  have pos := op.rank_pos
  unfold EventStream.load
  cases delivers_of_finished stepped with
  | nothing op s' slot =>
      rw [slot]
      omega
  | frame op s' frame writes empty slot =>
      have far : 6 ≤ op.rank := by
        cases op <;> first | exact writes.elim | simp [rank]
      rw [empty, slot]
      simp only [Option.toList_some, Option.toList_none, List.length_singleton, List.length_nil]
      omega
  | loss =>
      change s.slot.toList.length < _
      omega
  | drop =>
      change 0 < _
      omega

end Op

end SchemaRpc
