import SchemaRpc.Proofs.EventStream.Books

/-!
# Frame safety

Whatever the parties of a stream do, and in whatever order, its frames are safe (`History.safe_run`): every frame belongs
to the call that sent it, the last frame of a close ends the stream, and nothing follows the taking of the sender.
-/

namespace SchemaRpc

theorem filter_key_eq_singleton {κ α : Type} [DecidableEq κ] {key : κ} {value : α} {pairs : List (κ × α)}
    (distinct : (pairs.map Prod.fst).Nodup) (member : (key, value) ∈ pairs) :
    pairs.filter (fun pair => pair.1 = key) = [(key, value)] := by
  induction pairs with
  | nil =>
      nomatch member
  | cons pair pairs inductionHypothesis =>
      obtain ⟨fresh, distinct⟩ := List.nodup_cons.mp distinct
      rcases List.mem_cons.mp member with rfl | member
      · rw [List.filter_cons_of_pos (by simp), List.filter_eq_nil_iff.mpr]
        intro other inTail same
        exact fresh (List.mem_map.mpr ⟨other, inTail, of_decide_eq_true same⟩)
      · have different : pair.1 ≠ key := by
          rintro rfl
          exact fresh (List.mem_map.mpr ⟨_, member, rfl⟩)
        rw [List.filter_cons_of_neg (by simpa using different)]
        exact inductionHypothesis distinct member

namespace History

/-- What is promised of the frames of a stream between two moments of its history. -/
structure Safe (before after : History) : Prop where
  goes : before.stream.phase.Goes after.stream.phase
  /-- Nothing is sent before the stream has started. -/
  quiet : after.stream.phase = .idle → after.stream.accepted = []
  accepted : after.stream.accepted = after.sent.map Prod.snd
  /-- Each frame is the one that its call sends. -/
  frames : ∀ number frame, (number, frame) ∈ after.sent →
    ∃ call, after.calls[number]? = some call ∧ call.frame? = some frame
  /-- Only the very last frame can be `done`. -/
  last : .done ∉ after.stream.accepted.dropLast
  taken : ∀ number, (number, .done) ∈ after.sent →
    after.takers = [number] ∧ after.calls[number]? = some (.close true)
  /-- Once the sender was taken, the frame of the close that took it is all that can follow. -/
  ended : before.stream.sender ≠ .present →
    after.sent = before.sent ∨
      ∃ number, before.takers = [number] ∧ after.sent = before.sent ++ [(number, .done)]
  /-- The frames come in the order in which their calls held the writer. -/
  ordered : (after.sent.map Prod.fst).Sublist after.writers
  distinct : after.writers.Nodup
  pushed : ∀ number event, after.calls[number]? = some (.push event) → (number, .ok ()) ∈ after.returned →
    ∃ json, event = .ok json ∧ after.sent.filter (fun entry => entry.1 = number) = [(number, .message json)]
  failed : ∀ number event error, after.calls[number]? = some (.push event) →
    (number, .error error) ∈ after.returned → ∀ frame, (number, frame) ∉ after.sent
  unencoded : ∀ number error, after.calls[number]? = some (.push (.error error)) →
    (∀ frame, (number, frame) ∉ after.sent) ∧ number ∉ after.takers ∧ number ∉ after.closers

variable {h h' : History} {action : Machine.Action}

theorem Happens.goes (happens : h.Happens action h') : h.stream.phase.Goes h'.stream.phase := by
  cases happens with
  | moved who op op' s under stepped =>
      exact (Op.touches_of_next stepped).goes
  | answered who op result s under stepped =>
      exact (Op.touches_of_finished stepped).goes
  | forgotten who op s under dropped =>
      exact (Op.touches_of_dropped dropped).goes
  | nothing | called | received | setPing =>
      exact .stay _

theorem goes_run (h : History) (actions : List Machine.Action) : h.stream.phase.Goes (h.run actions).stream.phase := by
  induction actions generalizing h with
  | nil =>
      exact .stay _
  | cons action actions inductionHypothesis =>
      exact (happens_act h action).goes.trans (inductionHypothesis (h.act action))

/-! ## After the sender was taken -/

/-- The later history differs from the earlier one by last frames at most. -/
structure Ends (before after : History) : Prop where
  taken : after.stream.sender ≠ .present
  takers : after.takers = before.takers
  sent : ∃ more, after.sent = before.sent ++ more ∧ ∀ entry ∈ more, entry.2 = Frame.done

theorem Ends.refl (taken : h.stream.sender ≠ .present) : h.Ends h :=
  ⟨taken, rfl, [], (List.append_nil _).symm, nofun⟩

theorem Ends.trans {h'' : History} (early : h.Ends h') (late : h'.Ends h'') : h.Ends h'' := by
  obtain ⟨more, sent, frames⟩ := early.sent
  obtain ⟨more', sent', frames'⟩ := late.sent
  refine ⟨late.taken, late.takers.trans early.takers, more ++ more', ?_, ?_⟩
  · rw [sent', sent, List.append_assoc]
  · intro entry member
    rcases List.mem_append.mp member with member | member
    · exact frames entry member
    · exact frames' entry member

theorem ends_note {who : Actor} {op : Op} {s : EventStream} (entered : Bool) (touches : op.Touches who h.stream s)
    (taken : h.stream.sender ≠ .present) : h.Ends (h.note who entered s) := by
  constructor
  case taken =>
    rcases touches.sender with same | ⟨notify, -, present, -⟩ | gone
    · exact same ▸ taken
    · exact absurd present taken
    · change s.sender ≠ .present
      rw [gone]
      nofun
  case takers =>
    exact takers_note_of_ne taken
  case sent =>
    refine ⟨_, rfl, ?_⟩
    rcases touches.accepted with same | ⟨frame, -, present, -⟩ | ⟨-, accepted⟩
    · rw [same, List.drop_length]
      nofun
    · exact absurd present taken
    · rw [accepted, List.drop_left]
      intro entry member
      rw [List.map_singleton, List.mem_singleton] at member
      rw [member]

theorem Happens.ends (happens : h.Happens action h') (taken : h.stream.sender ≠ .present) : h.Ends h' := by
  cases happens with
  | moved who op op' s under stepped =>
      exact { ends_note op.isWait (Op.touches_of_next stepped) taken with }
  | answered who op result s under stepped =>
      exact { ends_note false (Op.touches_of_finished stepped) taken with }
  | forgotten who op s under dropped =>
      exact { ends_note false (Op.touches_of_dropped dropped) taken with }
  | nothing | called | received | setPing =>
      exact { Ends.refl taken with }

theorem ends_run (taken : h.stream.sender ≠ .present) (actions : List Machine.Action) : h.Ends (h.run actions) := by
  induction actions generalizing h with
  | nil =>
      exact .refl taken
  | cons action actions inductionHypothesis =>
      have early := (happens_act h action).ends taken
      exact early.trans (inductionHypothesis early.taken)

theorem Ends.at_most_one (ends : h.Ends h') (books : h'.Books) :
    h'.sent = h.sent ∨ ∃ number, h.takers = [number] ∧ h'.sent = h.sent ++ [(number, .done)] := by
  obtain ⟨more, sent, frames⟩ := ends.sent
  cases more with
  | nil =>
      exact .inl (sent.trans (List.append_nil _))
  | cons entry more =>
      obtain ⟨number, frame⟩ := entry
      obtain rfl : frame = .done := frames _ List.mem_cons_self
      have isLast : more = [] := by
        by_contra others
        apply books.last
        rw [books.accepted, sent, List.map_append, List.map_cons, List.dropLast_append_of_ne_nil (by simp),
          List.dropLast_cons_of_ne_nil (by simpa using others)]
        simp
      subst isLast
      have takers := books.taken number (by rw [sent]; simp)
      exact .inr ⟨number, ends.takers.symm.trans takers, sent⟩

/-! ## The run -/

theorem Books.pushed (books : h.Books) {number : Nat} {event : Except CodecError String}
    (push : h.calls[number]? = some (.push event)) (returned : (number, .ok ()) ∈ h.returned) :
    ∃ json, event = .ok json ∧ h.sent.filter (fun entry => entry.1 = number) = [(number, .message json)] := by
  have member := ((books.returned number _ returned).2 event push).mp rfl
  obtain ⟨⟨_, frame⟩, sent, rfl⟩ := List.mem_map.mp member
  obtain ⟨call, called, sends⟩ := books.frames _ frame sent
  obtain rfl : call = .push event := Option.some.inj (called.symm.trans push)
  cases event with
  | error error =>
      nomatch sends
  | ok json =>
      cases sends
      exact ⟨json, rfl, filter_key_eq_singleton (books.distinct.sublist books.ordered) sent⟩

theorem Books.failed (books : h.Books) {number : Nat} {event : Except CodecError String} {error : StreamError}
    (push : h.calls[number]? = some (.push event)) (returned : (number, .error error) ∈ h.returned) (frame : Frame) :
    (number, frame) ∉ h.sent := by
  intro sent
  nomatch ((books.returned number _ returned).2 event push).mpr (List.mem_map_of_mem sent)

theorem Books.unencoded (books : h.Books) {number : Nat} {error : CodecError}
    (push : h.calls[number]? = some (.push (.error error))) :
    (∀ frame, (number, frame) ∉ h.sent) ∧ number ∉ h.takers ∧ number ∉ h.closers := by
  refine ⟨fun frame sent => ?_, fun taker => ?_, fun closer => ?_⟩
  · obtain ⟨call, called, sends⟩ := books.frames number frame sent
    rw [push] at called
    cases called
    nomatch sends
  · obtain ⟨call, called, encoded⟩ := books.takers number taker
    exact encoded error (Option.some.inj (called.symm.trans push))
  · obtain ⟨call, called, encoded⟩ := books.closers number closer
    exact encoded error (Option.some.inj (called.symm.trans push))

theorem Books.done (books : h.Books) {number : Nat} (sent : (number, .done) ∈ h.sent) :
    h.takers = [number] ∧ h.calls[number]? = some (.close true) := by
  obtain ⟨call, called, sends⟩ := books.frames number .done sent
  exact ⟨books.taken number sent, called.trans (congrArg some (Call.eq_close_of_frame? sends))⟩

/-- Between any two moments of any run of a new stream its frames are safe. -/
theorem safe_run (pingMillis : Nat) (first rest : List Machine.Action)
    (admitted : (new pingMillis).machine.admitsAll (first ++ rest) = true) :
    ((new pingMillis).run (first ++ rest)).machine = Machine.run ⟨.new pingMillis, []⟩ (first ++ rest) ∧
      ((new pingMillis).run first).Safe ((new pingMillis).run (first ++ rest)) := by
  refine ⟨machine_run _ _, ?_⟩
  have books := ((sound_new pingMillis).run (first ++ rest) admitted).books
  constructor
  case goes =>
    rw [run_append]
    exact goes_run _ rest
  case quiet =>
    intro idle
    rw [books.accepted, books.quiet idle, List.map_nil]
  case accepted =>
    exact books.accepted
  case frames =>
    exact books.frames
  case last =>
    exact books.last
  case taken =>
    exact fun number => books.done
  case ended =>
    intro taken
    refine Ends.at_most_one ?_ books
    rw [run_append]
    exact ends_run taken rest
  case ordered =>
    exact books.ordered
  case distinct =>
    exact books.distinct
  case pushed =>
    exact fun number event => books.pushed
  case failed =>
    exact fun number event error => books.failed
  case unencoded =>
    exact fun number error => books.unencoded

/-- An event, a ping, a push that cannot be encoded, and a close that says so. -/
theorem safe_run_farewell :
    let first : List Machine.Action :=
      .call .handler (.push (.ok "1")) :: List.replicate 6 (.step .handler) ++
        [.receive, .call .pinger .ping, .step .pinger, .step .pinger, .step .pinger, .receive]
    let rest : List Machine.Action :=
      .call (.other 0) (.push (.error (.nullNotAllowed "/"))) :: List.replicate 2 (.step (.other 0)) ++
        .call .handler (.close true) :: List.replicate 10 (.step .handler)
    (new 1000).machine.admitsAll (first ++ rest) = true ∧
      ((new 1000).run first).Safe ((new 1000).run (first ++ rest)) ∧
      (Machine.run ⟨.new 1000, []⟩ (first ++ rest)).stream.accepted = [.message "1", .ping, .done] := by
  intro first rest
  have admitted : (new 1000).machine.admitsAll (first ++ rest) = true := by
    decide
  exact ⟨admitted, (safe_run 1000 first rest admitted).2, by decide⟩

end History

end SchemaRpc
