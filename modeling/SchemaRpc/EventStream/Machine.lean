import SchemaRpc.EventStream.Operation

/-!
# Interleaved operations

A stream together with the operations under way, at most one for each party. A run is any list of actions; those
that are not possible leave the machine as it is. Main definition: `Machine.run`.
-/

namespace SchemaRpc

/-- A stream and the operations on it that are under way. -/
structure Machine where
  stream : EventStream
  ops : List (Actor × Op) := []

namespace Machine

inductive Action where
  | call (who : Actor) (what : Call)
  | step (who : Actor)
  /-- Drops the operation under way where it waits. -/
  | drop (who : Actor)
  | receive
  | setPing (millis : Nat)

def op? (m : Machine) (who : Actor) : Option Op :=
  m.ops.lookup who

def forget (m : Machine) (who : Actor) : Machine :=
  { m with ops := m.ops.filter fun (actor, _) => actor ≠ who }

def reach (m : Machine) (who : Actor) (op : Op) : Machine :=
  { m with ops := (who, op) :: (m.forget who).ops }

def call (m : Machine) (who : Actor) (what : Call) : Machine :=
  match m.op? who with
  | some _ => m
  | none => m.reach who what.first

inductive Advance where
  /-- There is no operation, or it cannot go on yet. -/
  | stuck
  | moved (m : Machine)
  | returned (result : Except StreamError Unit) (m : Machine)

def advance (m : Machine) (who : Actor) : Advance :=
  match m.op? who with
  | none => .stuck
  | some op =>
    match op.step who m.stream with
    | .blocked => .stuck
    | .next op stream => .moved ({ m with stream }.reach who op)
    | .finished result stream => .returned result ({ m with stream }.forget who)

/-- Drops the operation of a party where it waits. -/
def drop? (m : Machine) (who : Actor) : Option Machine := do
  let op ← m.op? who
  let stream ← op.dropped? who m.stream
  return { m with stream }.forget who

def receive? (m : Machine) : Option (Frame × Machine) :=
  if !m.stream.receiving then none
  else m.stream.slot.map fun frame => (frame, { m with stream := { m.stream with slot := none } })

def act (m : Machine) : Action → Machine
  | .call who what => m.call who what
  | .step who =>
    match m.advance who with
    | .stuck => m
    | .moved m => m
    | .returned _ m => m
  | .drop who => (m.drop? who).getD m
  | .receive => ((m.receive?).map Prod.snd).getD m
  | .setPing millis => { m with stream := m.stream.setPing millis }

def run (m : Machine) (actions : List Action) : Machine :=
  actions.foldl act m

@[simp]
theorem run_nil (m : Machine) : m.run [] = m := rfl

@[simp]
theorem run_cons (m : Machine) (action : Action) (actions : List Action) :
    m.run (action :: actions) = (m.act action).run actions := rfl

theorem run_append (m : Machine) (first second : List Action) :
    m.run (first ++ second) = (m.run first).run second :=
  List.foldl_append

end Machine

end SchemaRpc
