import Mathlib.Data.List.Nodup
import Mathlib.Logic.Function.Basic
import SchemaRpc.Proofs.EventStream.Flow

/-!
# The history of a run

A machine together with what its calls have done so far. The calls are numbered in the order in which they are made; the
history notes which of them got the writer, took the sender, closed the stream, added frames to the channel and returned.
It is only written, never read: `History.machine_run` gives back the run of the machine.
-/

namespace SchemaRpc

namespace Machine

/-- What the surroundings of a stream do: pings come from the task that is spawned with the start signal. -/
def admits (m : Machine) : Action → Bool
  | .call _ .ping => m.stream.announced
  | _ => true

def admitsAll (m : Machine) : List Action → Bool
  | [] => true
  | action :: actions => m.admits action && (m.act action).admitsAll actions

section Operations

variable {m : Machine} {who other : Actor} {op : Op}

theorem op?_forget_self : (m.forget who).op? who = none := by
  rw [op?, forget, List.lookup_eq_none_iff]
  intro entry member
  have kept : entry.1 ≠ who := of_decide_eq_true (List.mem_filter.mp member).2
  exact bne_iff_ne.mpr kept.symm

theorem op?_forget_of_ne (different : other ≠ who) : (m.forget who).op? other = m.op? other := by
  rw [op?, op?, forget]
  induction m.ops with
  | nil =>
      rfl
  | cons entry ops inductionHypothesis =>
      obtain ⟨actor, op⟩ := entry
      by_cases same : actor = who
      · rw [List.filter_cons_of_neg (by simpa using same), inductionHypothesis, List.lookup_cons, same]
        rw [beq_eq_false_iff_ne.mpr different]
      · rw [List.filter_cons_of_pos (by simpa using same), List.lookup_cons, List.lookup_cons, inductionHypothesis]

@[simp]
theorem op?_reach_self : (m.reach who op).op? who = some op := by
  rw [op?, reach, List.lookup_cons, beq_self_eq_true]

theorem op?_reach_of_ne (different : other ≠ who) : (m.reach who op).op? other = m.op? other := by
  rw [op?, reach, List.lookup_cons, beq_eq_false_iff_ne.mpr different]
  exact op?_forget_of_ne different

end Operations

end Machine

def Op.isWait : Op → Bool
  | wait _ => true
  | _ => false

/-- A machine and what has come of its calls, each call under its number. -/
structure History where
  machine : Machine
  calls : List Call := []
  /-- The number of the last call that each party has made. -/
  latest : Actor → Nat := fun _ => 0
  /-- The calls that got the lock of the writer, in order. -/
  writers : List Nat := []
  /-- The calls that took the sender out of the writer, to send a last frame with it or to drop it. -/
  takers : List Nat := []
  /-- The calls that set the phase to closed. -/
  closers : List Nat := []
  /-- The frames that entered the channel, in order. -/
  sent : List (Nat × Frame) := []
  returned : List (Nat × Except StreamError Unit) := []

namespace History

/-- The stream of a new history is untouched. -/
def new (pingMillis : Nat) : History where
  machine := ⟨EventStream.new pingMillis, []⟩

abbrev stream (h : History) : EventStream :=
  h.machine.stream

/-- Puts the stream that one party leaves behind in the place of the stream before, and notes what that party did. -/
def note (h : History) (who : Actor) (entered : Bool) (s : EventStream) : History :=
  { h with
    machine := { h.machine with stream := s }
    writers := if entered then h.writers ++ [h.latest who] else h.writers
    takers := if h.stream.sender = .present ∧ s.sender ≠ .present then h.takers ++ [h.latest who] else h.takers
    closers := if h.stream.phase ≠ .closed ∧ s.phase = .closed then h.closers ++ [h.latest who] else h.closers
    sent := h.sent ++ (s.accepted.drop h.stream.accepted.length).map fun frame => (h.latest who, frame) }

def called (h : History) (who : Actor) (what : Call) : History :=
  { h with
    machine := h.machine.reach who what.first
    calls := h.calls ++ [what]
    latest := Function.update h.latest who h.calls.length }

def reached (h : History) (who : Actor) (op : Op) : History :=
  { h with machine := h.machine.reach who op }

def forgotten (h : History) (who : Actor) : History :=
  { h with machine := h.machine.forget who }

def answered (h : History) (who : Actor) (result : Except StreamError Unit) : History :=
  { h with
    machine := h.machine.forget who
    returned := h.returned ++ [(h.latest who, result)] }

def act (h : History) : Machine.Action → History
  | .call who what =>
    match h.machine.op? who with
    | some _ => h
    | none => h.called who what
  | .step who =>
    match h.machine.op? who with
    | none => h
    | some op =>
      match op.step who h.stream with
      | .blocked => h
      | .next op' s => (h.note who op.isWait s).reached who op'
      | .finished result s => (h.note who false s).answered who result
  | .drop who =>
    match h.machine.op? who with
    | none => h
    | some op =>
      match op.dropped? who h.stream with
      | none => h
      | some s => (h.note who false s).forgotten who
  | .receive => { h with machine := h.machine.act .receive }
  | .setPing millis => { h with machine := h.machine.act (.setPing millis) }

def run (h : History) (actions : List Machine.Action) : History :=
  actions.foldl act h

theorem run_cons (h : History) (action : Machine.Action) (actions : List Machine.Action) :
    h.run (action :: actions) = (h.act action).run actions :=
  rfl

theorem run_append (h : History) (first rest : List Machine.Action) : h.run (first ++ rest) = (h.run first).run rest :=
  List.foldl_append

/-- What happens to a history in one action. -/
inductive Happens (h : History) : Machine.Action → History → Prop
  | nothing (action : Machine.Action) :
      Happens h action h
  | called (who : Actor) (what : Call) (free : h.machine.op? who = none) :
      Happens h (.call who what) (h.called who what)
  | moved (who : Actor) (op op' : Op) (s : EventStream) (under : h.machine.op? who = some op)
      (stepped : op.step who h.stream = .next op' s) :
      Happens h (.step who) ((h.note who op.isWait s).reached who op')
  | answered (who : Actor) (op : Op) (result : Except StreamError Unit) (s : EventStream)
      (under : h.machine.op? who = some op) (stepped : op.step who h.stream = .finished result s) :
      Happens h (.step who) ((h.note who false s).answered who result)
  | forgotten (who : Actor) (op : Op) (s : EventStream) (under : h.machine.op? who = some op)
      (dropped : op.dropped? who h.stream = some s) :
      Happens h (.drop who) ((h.note who false s).forgotten who)
  | received :
      Happens h .receive { h with machine := { h.machine with stream := { h.stream with slot := none } } }
  | setPing (millis : Nat) :
      Happens h (.setPing millis) { h with machine := { h.machine with stream := h.stream.setPing millis } }

theorem happens_act (h : History) (action : Machine.Action) : h.Happens action (h.act action) := by
  cases action with
  | call who what =>
      simp only [act]
      split
      · exact .nothing _
      · exact .called who what ‹_›
  | step who =>
      simp only [act]
      split
      · exact .nothing _
      · next op under =>
        split
        · exact .nothing _
        · exact .moved who op _ _ under ‹_›
        · exact .answered who op _ _ under ‹_›
  | drop who =>
      simp only [act]
      split
      · exact .nothing _
      · next op under =>
        split
        · exact .nothing _
        · exact .forgotten who op _ under ‹_›
  | receive =>
      simp only [act, Machine.act, Machine.receive?]
      split
      · exact .nothing _
      · cases h.machine.stream.slot with
        | none =>
            exact .nothing _
        | some frame =>
            exact .received
  | setPing millis =>
      exact .setPing millis

theorem machine_act (h : History) (action : Machine.Action) : (h.act action).machine = h.machine.act action := by
  cases action with
  | call who what =>
      simp only [act, Machine.act, Machine.call]
      cases h.machine.op? who <;> rfl
  | step who =>
      simp only [act, Machine.act, Machine.advance]
      cases h.machine.op? who with
      | none =>
          rfl
      | some op =>
          dsimp only
          split <;> rename_i stepped <;> rw [stepped] <;> rfl
  | drop who =>
      simp only [act, Machine.act, Machine.drop?]
      cases h.machine.op? who with
      | none =>
          rfl
      | some op =>
          dsimp only
          cases dropped : op.dropped? who h.machine.stream with
          | none =>
              simp [dropped]
          | some s =>
              simp only [Option.bind_eq_bind, Option.bind_some, dropped]
              rfl
  | receive | setPing =>
      rfl

/-- A history does not change the run it follows. -/
theorem machine_run (h : History) (actions : List Machine.Action) : (h.run actions).machine = h.machine.run actions := by
  induction actions generalizing h with
  | nil =>
      rfl
  | cons action actions inductionHypothesis =>
      rw [run_cons, inductionHypothesis, machine_act, Machine.run_cons]

end History

end SchemaRpc
