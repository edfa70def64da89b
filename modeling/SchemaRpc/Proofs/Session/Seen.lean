import SchemaRpc.Proofs.Session.Kept

/-!
# What the client has read

The frames that the client has read are the accepted ones, up to the one that waits in the channel, and all of them once the
body has come to its end (`Viewing.Seen.run`).
-/

namespace SchemaRpc

namespace Viewing

variable {β μ : Type} {source : EventSource β μ} {v v' : Viewing β μ}

structure Seen (v : Viewing β μ) : Prop where
  reading : ¬v.IsLeft → v.frames ++ v.stream.slot.toList = v.stream.accepted
  /-- A body that was not dropped was left at its end. -/
  whole : v.dropped = false → v.IsLeft → v.frames = v.stream.accepted ∧ v.stream.sender = .gone
  part : v.frames <+: v.stream.accepted

theorem seen_start {pingMillis : Nat} {handler : HandlerState β μ} : (start pingMillis handler).Seen where
  reading := fun _ => rfl
  whole := fun _ isLeft => absurd isLeft (Session.not_isLeft_of_absent rfl)
  part := List.prefix_rfl

/-- A step of an operation adds to the channel what it adds to the frames. -/
theorem Seen.step (seen : v.Seen) (kept : v.Kept) {who : Actor} {op : Op} {s : EventStream}
    (under : v.machine.op? who = some op) (touches : op.Touches who v.stream s) (delivers : op.Delivers v.stream s) :
    (¬v.IsLeft → op ≠ .dropReceiver → v.frames ++ s.slot.toList = s.accepted) ∧
      (v.dropped = false → v.IsLeft → v.frames = s.accepted ∧ s.sender = .gone) ∧ v.frames <+: s.accepted := by
  have still (accepted : s.accepted = v.stream.accepted) (dropped : v.dropped = false) (isLeft : v.IsLeft) :
      v.frames = s.accepted ∧ s.sender = .gone := by
    obtain ⟨frames, gone⟩ := seen.whole dropped isLeft
    exact ⟨frames.trans accepted.symm, touches.gone gone⟩
  cases delivers with
  | nothing op s slot accepted =>
      refine ⟨fun reading _ => ?_, still accepted, accepted ▸ seen.part⟩
      rw [slot, accepted]
      exact seen.reading reading
  | frame op s frame writes empty slot accepted =>
      refine ⟨fun reading _ => ?_, fun dropped isLeft => ?_, ?_⟩
      · rw [slot, accepted, ← seen.reading reading, empty]
        simp
      · have changed : s.accepted ≠ v.stream.accepted := by
          rw [accepted]
          simp
        have gone := (seen.whole dropped isLeft).2
        obtain ⟨frame', -, rfl | present, -⟩ := Op.writes_of_touches touches changed
        · have taken := (kept.backed.trace under).2 rfl
          change v.stream.sender = .taken at taken
          rw [gone] at taken
          nomatch taken
        · rw [gone] at present
          nomatch present
      · rw [accepted]
        exact seen.part.trans (List.prefix_append _ _)
  | loss op cause =>
      exact ⟨fun reading _ => seen.reading reading, still rfl, seen.part⟩
  | drop =>
      exact ⟨fun _ notDrop => absurd rfl notDrop, still rfl, seen.part⟩

/-- Each turn keeps the account of the frames. -/
theorem Seen.turn (seen : v.Seen) (happens : v.Happens source v') (kept : v.Kept) : v'.Seen := by
  have notDrop {who : Actor} {op : Op} (under : v.machine.op? who = some op) (reading : ¬v.IsLeft) :
      op ≠ .dropReceiver := by
    rintro rfl
    exact reading (.inl (kept.leaving under rfl))
  have refusing := kept.refusing_turn happens
  cases happens with
  | works who op op' s under stepped =>
      obtain ⟨reading, whole, part⟩ := seen.step kept under (Op.touches_of_next stepped) (Op.delivers_of_next stepped)
      exact ⟨fun present => reading present (notDrop under present), whole, part⟩
  | replied _ _ op result s _ under stepped =>
      obtain ⟨reading, whole, part⟩ :=
        seen.step kept under (Op.touches_of_finished stepped) (Op.delivers_of_finished stepped)
      exact ⟨fun present => reading present (notDrop under present), whole, part⟩
  | watched op result s _ under stepped =>
      obtain ⟨reading, whole, part⟩ :=
        seen.step kept under (Op.touches_of_finished stepped) (Op.delivers_of_finished stepped)
      exact ⟨fun present => reading present (notDrop under present), whole, part⟩
  | pinged op s _ under stepped =>
      obtain ⟨reading, whole, part⟩ :=
        seen.step kept under (Op.touches_of_finished stepped) (Op.delivers_of_finished stepped)
      exact ⟨fun present => reading present (notDrop under present), whole, part⟩
  | quits op error s _ under stepped =>
      obtain ⟨reading, whole, part⟩ :=
        seen.step kept under (Op.touches_of_finished stepped) (Op.delivers_of_finished stepped)
      exact ⟨fun present => reading present (notDrop under present), whole, part⟩
  | answers op result s closing under stepped =>
      obtain ⟨reading, whole, part⟩ :=
        seen.step kept under (Op.touches_of_finished stepped) (Op.delivers_of_finished stepped)
      have before := Session.not_isLeft_of_absent (kept.stage.of_closing closing).1
      refine ⟨fun _ => reading before (notDrop under before), fun _ isLeft => ?_, part⟩
      rcases isLeft with impossible | impossible <;> cases impossible
  | streams waits =>
      have before := Session.not_isLeft_of_absent (kept.stage.of_waiting waits).2.1
      refine ⟨fun _ => seen.reading before, fun _ isLeft => ?_, seen.part⟩
      rcases isLeft with impossible | impossible <;> cases impossible
  | refuses error op result s abandoning under stepped =>
      obtain ⟨-, whole, part⟩ := seen.step kept under (Op.touches_of_finished stepped) (Op.delivers_of_finished stepped)
      have accepted : s.accepted = [] := (refusing ⟨error, .inr rfl⟩).1
      have frames : v.frames = [] := List.prefix_nil.mp (accepted ▸ part)
      have before := Session.not_isLeft_of_absent (kept.stage.of_refusing ⟨error, .inl abandoning⟩).2.1
      refine ⟨fun _ => ?_, fun _ isLeft => absurd isLeft before, part⟩
      change v.frames ++ [] = s.accepted
      rw [frames, accepted]
      rfl
  | left op result s leaving under stepped =>
      obtain ⟨-, whole, part⟩ := seen.step kept under (Op.touches_of_finished stepped) (Op.delivers_of_finished stepped)
      exact ⟨fun present => absurd (.inr rfl) present, fun dropped _ => whole dropped (.inl leaving), part⟩
  | receives frame present receiving slot =>
      have before : ¬v.IsLeft := by
        rw [Session.IsLeft, present]
        rintro (impossible | impossible) <;> cases impossible
      have accepted : v.frames ++ [frame] = v.stream.accepted := by
        have reading := seen.reading before
        rw [slot] at reading
        exact reading
      refine ⟨fun _ => (List.append_nil _).trans accepted, fun _ isLeft => absurd isLeft before, ?_⟩
      exact ⟨[], (List.append_nil _).trans accepted⟩
  | leaves free present dropped why =>
      have before : ¬v.IsLeft := by
        rw [Session.IsLeft, present]
        rintro (impossible | impossible) <;> cases impossible
      refine ⟨fun reading => absurd (.inl rfl) reading, fun notDropped _ => ?_, seen.part⟩
      rcases why with ⟨-, ended⟩ | dropped
      · rw [EventStream.ended, Bool.and_eq_true, Option.isNone_iff_eq_none, decide_eq_true_eq] at ended
        have reading := seen.reading before
        rw [ended.1] at reading
        exact ⟨(List.append_nil _).symm.trans reading, ended.2⟩
      · rw [dropped] at notDropped
        cases notDropped
  | _ =>
      exact { seen with }

theorem Seen.run (seen : v.Seen) (kept : v.Kept) {turns : List Turn} (ran : v.run? source turns = some v') : v'.Seen :=
  (kept.holds_run ran Seen seen (fun _ _ kept seen happens => seen.turn happens kept) fun _ _ seen => { seen with }).2

end Viewing

end SchemaRpc
