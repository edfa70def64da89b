import SchemaRpc.Proofs.EventStream.History

/-!
# What every history keeps

The invariant of a run (`History.Sound`): what the lists of a history say about each other and about the stream
(`History.Books`), and what holds of each operation under way (`History.Traces`). One party acts at a time, so a step is
accounted for in two halves: what it does to the books and to the operations of all others, which is the same for every
step (`Sound.books_note`, `Sound.traces_note`), and how the operation itself goes on.
-/

namespace SchemaRpc

theorem sublist_append_last {α : Type} {part whole : List α} {last : α} (sublist : part.Sublist whole)
    (fresh : last ∉ part) (ends : whole.getLast? = some last) : (part ++ [last]).Sublist whole := by
  obtain ⟨front, rfl⟩ := List.getLast?_eq_some_iff.mp ends
  obtain ⟨early, late, rfl, inFront, inLast⟩ := List.sublist_append_iff.mp sublist
  rcases List.sublist_singleton.mp inLast with rfl | rfl
  · rw [List.append_nil]
    exact inFront.append (List.Sublist.refl _)
  · exact absurd (List.mem_append_right early (List.mem_singleton_self last)) fresh

namespace History

/-- What the lists of a history say about each other and about the stream. -/
structure Books (h : History) : Prop where
  announced : h.stream.announced = true → h.stream.phase ≠ .idle
  quiet : h.stream.phase = .idle → h.sent = []
  accepted : h.stream.accepted = h.sent.map Prod.snd
  frames : ∀ number frame, (number, frame) ∈ h.sent →
    ∃ call, h.calls[number]? = some call ∧ call.frame? = some frame
  ordered : (h.sent.map Prod.fst).Sublist h.writers
  distinct : h.writers.Nodup
  known : ∀ number ∈ h.writers, number < h.calls.length
  untaken : h.stream.sender = .present → h.takers = [] ∧ .done ∉ h.stream.accepted
  taken : ∀ number, (number, .done) ∈ h.sent → h.takers = [number]
  takers : ∀ number ∈ h.takers,
    ∃ call, h.calls[number]? = some call ∧ ∀ error, call ≠ .push (.error error)
  last : .done ∉ h.stream.accepted.dropLast
  closers : ∀ number ∈ h.closers,
    ∃ call, h.calls[number]? = some call ∧ ∀ error, call ≠ .push (.error error)
  returned : ∀ number result, (number, result) ∈ h.returned →
    number < h.calls.length ∧
      ∀ event, h.calls[number]? = some (.push event) → (result = .ok () ↔ number ∈ h.sent.map Prod.fst)

/-- What holds of an operation under way and of the call that it serves. -/
structure Traces (h : History) (who : Actor) (op : Op) : Prop where
  call : ∃ call, h.calls[h.latest who]? = some call ∧ op.Serves call
  committed : op.IsCommitted → h.stream.phase ≠ .idle
  holds : op.HoldsWriter → h.stream.holder = some who ∧ h.writers.getLast? = some (h.latest who)
  seeks : op.SeeksWriter → h.latest who ∉ h.writers
  unsent : ¬op.HasSent → h.latest who ∉ h.sent.map Prod.fst
  unreturned : h.latest who ∉ h.returned.map Prod.fst
  last : op = .sendDone →
    h.stream.sender = .taken ∧ .done ∉ h.stream.accepted ∧ h.takers = [h.latest who]

structure Sound (h : History) : Prop where
  books : h.Books
  traces : ∀ who op, h.machine.op? who = some op → h.Traces who op
  /-- Operations under way serve different calls. -/
  apart : ∀ who other op op', h.machine.op? who = some op → h.machine.op? other = some op' →
    h.latest who = h.latest other → who = other

theorem sound_new (pingMillis : Nat) : (new pingMillis).Sound where
  books := by
    constructor <;> simp [new, EventStream.new]
  traces who op under := nomatch under
  apart who other op op' under := nomatch under

variable {h : History} {who other : Actor} {op op' : Op} {s : EventStream} {entered : Bool}

theorem Books.sender_ne_present (books : h.Books) {number : Nat} (member : (number, .done) ∈ h.sent) :
    h.stream.sender ≠ .present := by
  intro present
  apply (books.untaken present).2
  rw [books.accepted]
  exact List.mem_map_of_mem member

/-! ## What a note adds -/

/-- The step of the party adds a frame to the channel. -/
structure Adds (h : History) (who : Actor) (op : Op) (s : EventStream) (frame : Frame) : Prop where
  writes : op.Writes frame
  accepted : s.accepted = h.stream.accepted ++ [frame]
  fresh : .done ∉ h.stream.accepted
  last : frame = .done → h.stream.sender = .taken ∧ h.takers = [h.latest who]

theorem sent_note_of_same (same : s.accepted = h.stream.accepted) : (h.note who entered s).sent = h.sent := by
  rw [note, same, List.drop_length, List.map_nil, List.append_nil]

theorem Adds.sent {frame : Frame} (adds : h.Adds who op s frame) :
    (h.note who entered s).sent = h.sent ++ [(h.latest who, frame)] := by
  rw [note, adds.accepted, List.drop_left, List.map_singleton]

theorem takers_note_of_present (present : s.sender = .present) : (h.note who entered s).takers = h.takers :=
  if_neg fun taken => taken.2 present

theorem takers_note_of_ne (untouched : h.stream.sender ≠ .present) : (h.note who entered s).takers = h.takers :=
  if_neg fun taken => untouched taken.1

theorem not_mem_writers_note {number : Nat} (fresh : number ∉ h.writers) (different : number ≠ h.latest who) :
    number ∉ (h.note who entered s).writers := by
  unfold note
  dsimp only
  split
  · rw [List.mem_append, List.mem_singleton, not_or]
    exact ⟨fresh, different⟩
  · exact fresh

/-! ## The books and the other operations after a step -/

section Note

variable (sound : h.Sound) (under : h.machine.op? who = some op) (touches : op.Touches who h.stream s)

include sound under touches

theorem Sound.adds_or_same : s.accepted = h.stream.accepted ∨ ∃ frame, h.Adds who op s frame := by
  by_cases same : s.accepted = h.stream.accepted
  · exact .inl same
  · obtain ⟨frame, writes, taken | present, accepted⟩ := Op.writes_of_touches touches same
    · subst taken
      obtain ⟨taken, fresh, takers⟩ := (sound.traces who _ under).last rfl
      exact .inr ⟨frame, writes, accepted, fresh, fun _ => ⟨taken, takers⟩⟩
    · refine .inr ⟨frame, writes, accepted, (sound.books.untaken present).2, ?_⟩
      rintro rfl
      obtain ⟨call, -, serves⟩ := (sound.traces who op under).call
      cases op with
      | send sent =>
          exact absurd writes (Call.ne_done_of_isWrite serves.1 serves.2)
      | sendDone =>
          have taken := ((sound.traces who _ under).last rfl).1
          rw [present] at taken
          nomatch taken
      | _ =>
          exact writes.elim

theorem Sound.mem_sent_note_of_ne {number : Nat} (different : number ≠ h.latest who) :
    number ∈ (h.note who entered s).sent.map Prod.fst ↔ number ∈ h.sent.map Prod.fst := by
  rcases sound.adds_or_same under touches with same | ⟨frame, adds⟩
  · rw [sent_note_of_same same]
  · rw [adds.sent, List.map_append, List.mem_append, List.map_singleton, List.mem_singleton]
    exact or_iff_left different

theorem Sound.untaken_note (present : s.sender = .present) :
    (h.note who entered s).takers = [] ∧ .done ∉ s.accepted := by
  have before := touches.sender_before present
  obtain ⟨nobody, fresh⟩ := sound.books.untaken before
  refine ⟨(takers_note_of_present present).trans nobody, ?_⟩
  rcases sound.adds_or_same under touches with same | ⟨frame, adds⟩
  · exact same ▸ fresh
  · have notDone : Frame.done ≠ frame := by
      rintro rfl
      have taken := (adds.last rfl).1
      rw [before] at taken
      nomatch taken
    rw [adds.accepted, List.mem_append, List.mem_singleton, not_or]
    exact ⟨fresh, notDone⟩

theorem Sound.taken_note (number : Nat) (member : (number, .done) ∈ (h.note who entered s).sent) :
    (h.note who entered s).takers = [number] := by
  have books := sound.books
  have old : (number, Frame.done) ∈ h.sent → (h.note who entered s).takers = [number] := by
    intro member
    rw [takers_note_of_ne (books.sender_ne_present member)]
    exact books.taken number member
  rcases sound.adds_or_same under touches with same | ⟨frame, adds⟩
  · rw [sent_note_of_same same] at member
    exact old member
  · rw [adds.sent, List.mem_append, List.mem_singleton] at member
    rcases member with member | member
    · exact old member
    · cases member
      obtain ⟨taken, takers⟩ := adds.last rfl
      rw [takers_note_of_ne (by rw [taken]; nofun), takers]

variable (enters : entered = true → op.SeeksWriter ∧ h.stream.holder = some who)

include enters

theorem Sound.ordered_note :
    ((h.note who entered s).sent.map Prod.fst).Sublist (h.note who entered s).writers := by
  have trace := sound.traces who op under
  rcases sound.adds_or_same under touches with same | ⟨frame, adds⟩
  · rw [sent_note_of_same same]
    cases entered with
    | false =>
        exact sound.books.ordered
    | true =>
        exact sound.books.ordered.trans (List.sublist_append_left _ _)
  · have holds := adds.writes.holdsWriter
    cases entered with
    | false =>
        rw [adds.sent, List.map_append, List.map_singleton]
        exact sublist_append_last sound.books.ordered (trace.unsent adds.writes.not_hasSent) (trace.holds holds).2
    | true =>
        have seeks := (enters rfl).1
        cases op <;> first | exact seeks.elim | exact holds.elim

theorem Sound.books_note : (h.note who entered s).Books := by
  have books := sound.books
  have trace := sound.traces who op under
  obtain ⟨call, called, serves⟩ := trace.call
  have addsOrSame := sound.adds_or_same under touches
  constructor
  case announced =>
    intro announced
    rcases touches.announced with same | ⟨next, rfl⟩
    · exact touches.goes.ne_idle (books.announced (same ▸ announced))
    · exact touches.goes.ne_idle (trace.committed trivial)
  case quiet =>
    intro idle
    have before : h.stream.phase = .idle := by
      by_contra started
      exact touches.goes.ne_idle started idle
    rcases addsOrSame with same | ⟨frame, adds⟩
    · rw [sent_note_of_same same, books.quiet before]
    · exact absurd before (trace.committed adds.writes.isCommitted)
  case accepted =>
    rcases addsOrSame with same | ⟨frame, adds⟩
    · rw [sent_note_of_same same, ← books.accepted]
      exact same
    · rw [adds.sent, List.map_append, ← books.accepted]
      exact adds.accepted
  case frames =>
    intro number frame member
    rcases addsOrSame with same | ⟨frame, adds⟩
    · rw [sent_note_of_same same] at member
      exact books.frames number frame member
    · rw [adds.sent, List.mem_append, List.mem_singleton] at member
      rcases member with member | member
      · exact books.frames _ _ member
      · cases member
        exact ⟨call, called, adds.writes.frame? serves⟩
  case ordered =>
    exact sound.ordered_note under touches enters
  case distinct =>
    cases entered with
    | false =>
        exact books.distinct
    | true =>
        refine List.nodup_append.mpr ⟨books.distinct, List.nodup_singleton _, ?_⟩
        intro number member last isLast same
        rw [List.mem_singleton.mp isLast] at same
        exact trace.seeks (enters rfl).1 (same ▸ member)
  case known =>
    cases entered with
    | false =>
        exact books.known
    | true =>
        intro number member
        rcases List.mem_append.mp member with member | member
        · exact books.known number member
        · rw [List.mem_singleton.mp member]
          exact (List.getElem?_eq_some_iff.mp called).1
  case untaken =>
    exact sound.untaken_note under touches
  case taken =>
    exact sound.taken_note under touches
  case takers =>
    intro number member
    unfold note at member
    dsimp only at member
    split at member
    · next taken =>
      rcases List.mem_append.mp member with member | member
      · exact books.takers number member
      · rw [List.mem_singleton.mp member]
        refine ⟨call, called, ?_⟩
        rintro error rfl
        exact (Op.not_ends_of_unencoded serves).2 (touches.takes taken.1 taken.2)
    · exact books.takers number member
  case last =>
    rcases addsOrSame with same | ⟨frame, adds⟩
    · exact same ▸ books.last
    · change Frame.done ∉ s.accepted.dropLast
      rw [adds.accepted, List.dropLast_concat]
      exact adds.fresh
  case closers =>
    intro number member
    unfold note at member
    dsimp only at member
    split at member
    · next closed =>
      rcases List.mem_append.mp member with member | member
      · exact books.closers number member
      · rw [List.mem_singleton.mp member]
        refine ⟨call, called, ?_⟩
        rintro error rfl
        exact (Op.not_ends_of_unencoded serves).1 (touches.closes closed.1 closed.2)
    · exact books.closers number member
  case returned =>
    intro number result member
    obtain ⟨known, pushes⟩ := books.returned number result member
    have different : number ≠ h.latest who := by
      rintro rfl
      exact trace.unreturned (List.mem_map_of_mem member)
    refine ⟨known, fun event pushed => ?_⟩
    rw [sound.mem_sent_note_of_ne under touches different]
    exact pushes event pushed

/-- The step of one party leaves what holds of the operations of the others. -/
theorem Sound.traces_note (different : other ≠ who) (underOther : h.machine.op? other = some op') :
    (h.note who entered s).Traces other op' := by
  have trace := sound.traces other op' underOther
  have numbers : h.latest other ≠ h.latest who := fun same =>
    different (sound.apart other who op' op underOther under same)
  have exclusive : op.HoldsWriter → h.stream.holder = some who := fun holds =>
    ((sound.traces who op under).holds holds).1
  constructor
  case call =>
    exact trace.call
  case committed =>
    intro committed
    exact touches.goes.ne_idle (trace.committed committed)
  case holds =>
    intro holds
    obtain ⟨held, isLast⟩ := trace.holds holds
    refine ⟨(touches.elsewhere exclusive held different).2.2, ?_⟩
    cases entered with
    | false =>
        exact isLast
    | true =>
        exact absurd (Option.some.inj (held.symm.trans (enters rfl).2)) different
  case seeks =>
    intro seeks
    exact not_mem_writers_note (trace.seeks seeks) numbers
  case unsent =>
    intro unsent
    exact mt (sound.mem_sent_note_of_ne under touches numbers).mp (trace.unsent unsent)
  case unreturned =>
    exact trace.unreturned
  case last =>
    intro last
    obtain ⟨taken, fresh, takers⟩ := trace.last last
    have held := (trace.holds (by rw [last]; trivial)).1
    obtain ⟨accepted, sender, -⟩ := touches.elsewhere exclusive held different
    refine ⟨sender.trans taken, ?_, ?_⟩
    · exact accepted ▸ fresh
    · rw [takers_note_of_ne (by rw [taken]; nofun)]
      exact takers

end Note

/-! ## The operation after its own step -/

theorem enters_of_leads (leads : op.Leads who h.stream op' s) (waits : op.isWait = true) :
    op.SeeksWriter ∧ h.stream.holder = some who := by
  cases op with
  | wait next =>
      cases leads with
      | enter next mine =>
          exact ⟨trivial, mine⟩
      | lost op op' s' loser before =>
          nomatch before
  | _ =>
      nomatch waits

theorem Sound.traces_next (sound : h.Sound) (under : h.machine.op? who = some op)
    (stepped : op.step who h.stream = .next op' s) : (h.note who op.isWait s).Traces who op' := by
  have trace := sound.traces who op under
  have touches := Op.touches_of_next stepped
  have leads := Op.leads_of_next stepped
  obtain ⟨call, called, serves⟩ := trace.call
  have writers (still : ∀ next, op ≠ .wait next) : (h.note who op.isWait s).writers = h.writers := by
    cases op <;> first | rfl | exact absurd rfl (still _)
  constructor
  case call =>
    exact ⟨call, called, leads.serves serves⟩
  case committed =>
    intro committed
    rcases leads.committed committed with before | started
    · exact touches.goes.ne_idle (trace.committed before)
    · exact started
  case holds =>
    intro holds
    rcases leads.holds holds with ⟨before, same⟩ | ⟨⟨next, rfl⟩, mine⟩
    · obtain ⟨held, isLast⟩ := trace.holds before
      refine ⟨same.trans held, ?_⟩
      rw [writers (by rintro next rfl; exact before)]
      exact isLast
    · exact ⟨mine, List.getLast?_concat⟩
  case seeks =>
    intro seeks
    obtain ⟨before, still⟩ := leads.seeks seeks
    rw [writers still]
    exact trace.seeks before
  case unsent =>
    intro unsent
    obtain ⟨before, same⟩ := leads.unsent unsent
    rw [sent_note_of_same same]
    exact trace.unsent before
  case unreturned =>
    exact trace.unreturned
  case last =>
    intro last
    obtain ⟨rfl, present, rfl⟩ := leads.takes last
    obtain ⟨nobody, fresh⟩ := sound.books.untaken present
    refine ⟨rfl, fresh, ?_⟩
    simp [note, present, nobody]

/-! ## One action -/

theorem getElem?_called {number : Nat} {call : Call} (what : Call) (called : h.calls[number]? = some call) :
    (h.calls ++ [what])[number]? = some call := by
  rw [List.getElem?_append_left (List.getElem?_eq_some_iff.mp called).1]
  exact called

theorem latest_called_self (what : Call) : (h.called who what).latest who = h.calls.length :=
  Function.update_self who _ _

theorem latest_called_of_ne (different : other ≠ who) (what : Call) :
    (h.called who what).latest other = h.latest other :=
  Function.update_of_ne different _ _

theorem Sound.latest_lt (sound : h.Sound) (under : h.machine.op? who = some op) : h.latest who < h.calls.length := by
  obtain ⟨call, called, -⟩ := (sound.traces who op under).call
  exact (List.getElem?_eq_some_iff.mp called).1

theorem Books.called (books : h.Books) (who : Actor) (what : Call) : (h.called who what).Books := by
  refine { books with frames := ?_, known := ?_, takers := ?_, closers := ?_, returned := ?_ }
  · intro number frame member
    obtain ⟨call, called, sends⟩ := books.frames number frame member
    exact ⟨call, getElem?_called what called, sends⟩
  · intro number member
    rw [History.called, List.length_append]
    exact Nat.lt_add_right 1 (books.known number member)
  · intro number member
    obtain ⟨call, called, encoded⟩ := books.takers number member
    exact ⟨call, getElem?_called what called, encoded⟩
  · intro number member
    obtain ⟨call, called, encoded⟩ := books.closers number member
    exact ⟨call, getElem?_called what called, encoded⟩
  · intro number result member
    obtain ⟨known, pushes⟩ := books.returned number result member
    refine ⟨?_, fun event pushed => ?_⟩
    · rw [History.called, List.length_append]
      exact Nat.lt_add_right 1 known
    · rw [History.called, List.getElem?_append_left known] at pushed
      exact pushes event pushed

/-- No call before has the number of a call that is made now. -/
theorem Books.unused (books : h.Books) :
    h.calls.length ∉ h.writers ∧ h.calls.length ∉ h.sent.map Prod.fst ∧ h.calls.length ∉ h.returned.map Prod.fst := by
  have unwritten : h.calls.length ∉ h.writers := fun member => Nat.lt_irrefl _ (books.known _ member)
  refine ⟨unwritten, fun member => unwritten (books.ordered.subset member), fun member => ?_⟩
  obtain ⟨⟨number, result⟩, returned, rfl⟩ := List.mem_map.mp member
  exact Nat.lt_irrefl _ (books.returned _ result returned).1

theorem Sound.traces_first (sound : h.Sound) {what : Call} (admitted : what = .ping → h.stream.announced = true) :
    (h.called who what).Traces who what.first := by
  obtain ⟨unwritten, unsent, unreturned⟩ := sound.books.unused
  have own : (h.called who what).latest who = h.calls.length := latest_called_self what
  constructor
  case call =>
    rw [own]
    exact ⟨what, List.getElem?_concat_length, Op.serves_first what⟩
  case committed =>
    intro committed
    exact sound.books.announced (admitted (Op.eq_ping_of_isCommitted_first committed))
  case holds =>
    intro holds
    exact absurd holds Op.not_holdsWriter_first
  case seeks =>
    rw [own]
    exact fun _ => unwritten
  case unsent =>
    rw [own]
    exact fun _ => unsent
  case unreturned =>
    rw [own]
    exact unreturned
  case last =>
    intro last
    cases what <;> nomatch last

theorem Traces.called (trace : h.Traces other op') (different : other ≠ who) (what : Call) :
    (h.called who what).Traces other op' := by
  have number : (h.called who what).latest other = h.latest other := latest_called_of_ne different what
  obtain ⟨call, called, serves⟩ := trace.call
  refine ⟨?_, trace.committed, ?_, ?_, ?_, ?_, ?_⟩
  · rw [number]
    exact ⟨call, getElem?_called what called, serves⟩
  all_goals rw [number]
  · exact trace.holds
  · exact trace.seeks
  · exact trace.unsent
  · exact trace.unreturned
  · exact trace.last

theorem Sound.called (sound : h.Sound) (free : h.machine.op? who = none) {what : Call}
    (admitted : what = .ping → h.stream.announced = true) : (h.called who what).Sound := by
  have before {actor : Actor} {op : Op} (different : actor ≠ who)
      (under : (h.called who what).machine.op? actor = some op) : h.machine.op? actor = some op := by
    rw [← Machine.op?_reach_of_ne different]
    exact under
  have older {actor : Actor} {op : Op} (different : actor ≠ who)
      (under : (h.called who what).machine.op? actor = some op) :
      (h.called who what).latest actor < (h.called who what).latest who := by
    rw [latest_called_self, latest_called_of_ne different]
    exact sound.latest_lt (before different under)
  constructor
  case books =>
    exact sound.books.called who what
  case traces =>
    intro other op' under
    by_cases different : other = who
    · subst different
      obtain rfl : what.first = op' := Option.some.inj (Machine.op?_reach_self.symm.trans under)
      exact sound.traces_first admitted
    · exact (sound.traces other op' (before different under)).called different what
  case apart =>
    intro first second op op' underFirst underSecond same
    by_cases isFirst : first = who
    · by_cases isSecond : second = who
      · rw [isFirst, isSecond]
      · rw [isFirst] at same
        exact absurd same (Nat.ne_of_gt (older isSecond underSecond))
    · by_cases isSecond : second = who
      · rw [isSecond] at same
        exact absurd same (Nat.ne_of_lt (older isFirst underFirst))
      · apply sound.apart first second op op' (before isFirst underFirst) (before isSecond underSecond)
        rw [latest_called_of_ne isFirst, latest_called_of_ne isSecond] at same
        exact same

/-- Operations stay apart when none is added. -/
theorem Sound.apart_of (sound : h.Sound) {h' : History} (latest : h'.latest = h.latest)
    (before : ∀ who op, h'.machine.op? who = some op → ∃ op, h.machine.op? who = some op) :
    ∀ who other op op', h'.machine.op? who = some op → h'.machine.op? other = some op' →
      h'.latest who = h'.latest other → who = other := by
  intro who other op op' under underOther same
  obtain ⟨early, earlier⟩ := before who op under
  obtain ⟨early', earlier'⟩ := before other op' underOther
  rw [latest] at same
  exact sound.apart who other early early' earlier earlier' same

theorem Sound.reached (sound : h.Sound) (under : h.machine.op? who = some op)
    (stepped : op.step who h.stream = .next op' s) : ((h.note who op.isWait s).reached who op').Sound := by
  have touches := Op.touches_of_next stepped
  have enters := enters_of_leads (Op.leads_of_next stepped)
  constructor
  case books =>
    exact { sound.books_note under touches enters with }
  case traces =>
    intro other otherOp underOther
    by_cases different : other = who
    · subst different
      obtain rfl : op' = otherOp := Option.some.inj (Machine.op?_reach_self.symm.trans underOther)
      exact { sound.traces_next under stepped with }
    · have before := (Machine.op?_reach_of_ne different).symm.trans underOther
      exact { sound.traces_note under touches enters different before with }
  case apart =>
    refine sound.apart_of rfl fun other otherOp underOther => ?_
    by_cases different : other = who
    · exact ⟨op, different ▸ under⟩
    · exact ⟨otherOp, (Machine.op?_reach_of_ne different).symm.trans underOther⟩

section Leave

variable (sound : h.Sound) (under : h.machine.op? who = some op)

include sound under

/-- What is under way once the operation of a party is gone. -/
theorem Sound.traces_forget (touches : op.Touches who h.stream s) :
    ∀ other op', (h.machine.forget who).op? other = some op' →
      other ≠ who ∧ h.machine.op? other = some op' ∧ (h.note who false s).Traces other op' := by
  intro other op' underOther
  have different : other ≠ who := by
    rintro rfl
    rw [Machine.op?_forget_self] at underOther
    nomatch underOther
  have before := (Machine.op?_forget_of_ne different).symm.trans underOther
  exact ⟨different, before, sound.traces_note under touches nofun different before⟩

theorem Sound.forgotten (dropped : op.dropped? who h.stream = some s) :
    ((h.note who false s).forgotten who).Sound := by
  have touches := Op.touches_of_dropped dropped
  constructor
  case books =>
    have books : (h.note who false s).Books := sound.books_note under touches nofun
    exact { books with }
  case traces =>
    intro other op' underOther
    exact { (sound.traces_forget under touches other op' underOther).2.2 with }
  case apart =>
    refine sound.apart_of rfl fun other op' underOther => ?_
    exact ⟨op', (sound.traces_forget under touches other op' underOther).2.1⟩

theorem Sound.answered {result : Except StreamError Unit} (stepped : op.step who h.stream = .finished result s) :
    ((h.note who false s).answered who result).Sound := by
  have touches := Op.touches_of_finished stepped
  have trace := sound.traces who op under
  have books : (h.note who false s).Books := sound.books_note under touches nofun
  constructor
  case books =>
    refine { books with returned := ?_ }
    intro number outcome member
    rcases List.mem_append.mp member with member | member
    · exact books.returned number outcome member
    · cases List.mem_singleton.mp member
      refine ⟨sound.latest_lt under, fun event pushed => ?_⟩
      obtain ⟨call, called, serves⟩ := trace.call
      obtain rfl : call = .push event := Option.some.inj (called.symm.trans pushed)
      have unsent := trace.unsent (Op.not_hasSent_of_push serves)
      rw [Op.finished_of_push serves stepped]
      change s.accepted ≠ h.stream.accepted ↔ h.latest who ∈ (h.note who false s).sent.map Prod.fst
      rcases sound.adds_or_same under touches with same | ⟨frame, adds⟩
      · rw [sent_note_of_same same]
        exact iff_of_false (absurd same) unsent
      · rw [adds.sent, adds.accepted]
        exact iff_of_true (by simp) (by simp)
  case traces =>
    intro other op' underOther
    obtain ⟨different, before, traceOther⟩ := sound.traces_forget under touches other op' underOther
    refine { traceOther with unreturned := ?_ }
    change h.latest other ∉ (h.returned ++ [(h.latest who, result)]).map Prod.fst
    rw [List.map_append, List.mem_append, List.map_singleton, List.mem_singleton, not_or]
    exact ⟨traceOther.unreturned, fun same => different (sound.apart other who op' op before under same)⟩
  case apart =>
    refine sound.apart_of rfl fun other op' underOther => ?_
    exact ⟨op', (sound.traces_forget under touches other op' underOther).2.1⟩

end Leave

theorem Sound.happens (sound : h.Sound) {action : Machine.Action} {h' : History} (happens : h.Happens action h')
    (admitted : h.machine.admits action = true) : h'.Sound := by
  cases happens with
  | nothing =>
      exact sound
  | called who what free =>
      refine sound.called free ?_
      rintro rfl
      exact admitted
  | moved who op op' s under stepped =>
      exact sound.reached under stepped
  | answered who op result s under stepped =>
      exact sound.answered under stepped
  | forgotten who op s under dropped =>
      exact sound.forgotten under dropped
  | received | setPing =>
      have traces := fun who op under => sound.traces who op under
      exact ⟨{ sound.books with }, fun who op under => { traces who op under with }, sound.apart⟩

theorem Sound.run (sound : h.Sound) (actions : List Machine.Action) (admitted : h.machine.admitsAll actions = true) :
    (h.run actions).Sound := by
  induction actions generalizing h with
  | nil =>
      exact sound
  | cons action actions inductionHypothesis =>
      rw [Machine.admitsAll, Bool.and_eq_true, ← machine_act] at admitted
      rw [run_cons]
      exact inductionHypothesis (sound.happens (happens_act h action) admitted.1) admitted.2

end History

end SchemaRpc
