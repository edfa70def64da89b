import SchemaRpc.EventStream.Script
import SchemaRpc.Proofs.Session.Kept

/-!
# The length of a run

A handler that ends after finitely many moves has a rank that falls with each of them (`EventSource.Ends`). The weight of a
viewing (`Viewing.weight`) then falls with every turn (`Viewing.Happens.weight`): a run can only go on as long as time
passes, which wakes the pinger (`Viewing.length_run`).
-/

namespace SchemaRpc

/-- Each move of the handler lowers its rank, or is its last. -/
def EventSource.Ends {β μ : Type} (source : EventSource β μ) (rank : β → Nat) : Prop :=
  ∀ state reply state' move, source.next state reply = (state', move) →
    rank state' < rank state ∨ ∃ ending, move = .finish ending

/-- A script ends with its last instruction. -/
theorem Script.ends {μ : Type} (encode : Value → Except CodecError String) :
    EventSource.Ends (⟨Script.next, encode⟩ : EventSource Script μ) fun script => script.rest.length := by
  intro script reply script' move next
  have advances (advanced : script.advance = (script', move)) :
      script'.rest.length < script.rest.length ∨ ∃ ending, move = .finish ending := by
    unfold Script.advance at advanced
    split at advanced
    · next finished =>
      cases advanced
      exact .inr ⟨.returned (), rfl⟩
    · next instruction rest more =>
      cases advanced
      rw [more]
      exact .inl (Nat.lt_succ_self _)
  change Script.next script reply = (script', move) at next
  unfold Script.next at next
  split at next
  · split at next
    · exact advances next
    · cases next
      exact .inr ⟨_, rfl⟩
  · exact advances next

/-- One of the parties of a session, not another holder of the controller. -/
def Actor.IsParty : Actor → Prop
  | other _ => False
  | _ => True

namespace Machine

/-- How many steps the operation of a party can still make. -/
def rankOf (m : Machine) (who : Actor) : Nat :=
  (m.op? who).elim 0 Op.rank

def ranks (m : Machine) : Nat :=
  m.rankOf .handler + m.rankOf .dispatcher + m.rankOf .watcher + m.rankOf .pinger + m.rankOf .body

variable {m : Machine} {who : Actor} {op op' : Op} {stream : EventStream}

@[simp]
theorem stream_reach : (m.reach who op).stream = m.stream :=
  rfl

@[simp]
theorem stream_forget : (m.forget who).stream = m.stream :=
  rfl

theorem rankOf_reach (m : Machine) (who : Actor) (op : Op) (other : Actor) :
    (m.reach who op).rankOf other = if other = who then op.rank else m.rankOf other := by
  by_cases same : other = who
  · rw [if_pos same, same, rankOf, op?_reach_self]
    rfl
  · rw [if_neg same, rankOf, op?_reach_of_ne same]
    rfl

theorem rankOf_forget (m : Machine) (who other : Actor) :
    (m.forget who).rankOf other = if other = who then 0 else m.rankOf other := by
  by_cases same : other = who
  · rw [if_pos same, same, rankOf, op?_forget_self]
    rfl
  · rw [if_neg same, rankOf, op?_forget_of_ne same]
    rfl

/-- Where the rank of one party changes, the sum of all ranks changes by as much. -/
theorem ranks_of_others {m m' : Machine} (party : who.IsParty)
    (others : ∀ other, other ≠ who → m'.rankOf other = m.rankOf other) :
    m'.ranks + m.rankOf who = m.ranks + m'.rankOf who := by
  unfold ranks
  cases who with
  | handler =>
      rw [others .dispatcher nofun, others .watcher nofun, others .pinger nofun, others .body nofun]
      omega
  | dispatcher =>
      rw [others .handler nofun, others .watcher nofun, others .pinger nofun, others .body nofun]
      omega
  | watcher =>
      rw [others .handler nofun, others .dispatcher nofun, others .pinger nofun, others .body nofun]
      omega
  | pinger =>
      rw [others .handler nofun, others .dispatcher nofun, others .watcher nofun, others .body nofun]
      omega
  | body =>
      rw [others .handler nofun, others .dispatcher nofun, others .watcher nofun, others .pinger nofun]
      omega
  | other =>
      exact party.elim

theorem ranks_reach_of_free (free : m.op? who = none) (party : who.IsParty) (op : Op) :
    (m.reach who op).ranks = m.ranks + op.rank := by
  have ranks := @ranks_of_others who m (m.reach who op) party fun other different => by
    rw [rankOf_reach, if_neg different]
  have before : m.rankOf who = 0 := by
    rw [rankOf, free]
    rfl
  rw [rankOf_reach, if_pos rfl] at ranks
  omega

theorem ranks_reach (under : m.op? who = some op) (party : who.IsParty) :
    ({ m with stream }.reach who op').ranks + op.rank = m.ranks + op'.rank := by
  have ranks := @ranks_of_others who m ({ m with stream }.reach who op') party fun other different => by
    rw [rankOf_reach, if_neg different]
    rfl
  have before : m.rankOf who = op.rank := by
    rw [rankOf, under]
    rfl
  rw [rankOf_reach, if_pos rfl] at ranks
  omega

theorem ranks_forget (under : m.op? who = some op) (party : who.IsParty) :
    ({ m with stream }.forget who).ranks + op.rank = m.ranks := by
  have ranks := @ranks_of_others who m ({ m with stream }.forget who) party fun other different => by
    rw [rankOf_forget, if_neg different]
    rfl
  have before : m.rankOf who = op.rank := by
    rw [rankOf, under]
    rfl
  rw [rankOf_forget, if_pos rfl] at ranks
  omega

end Machine

/-! ## Weights -/

def HandlerState.weight {β μ : Type} (rank : β → Nat) : HandlerState β μ → Nat
  | moving state _ => 20 * rank state + 2
  | pushing state | closing state | sleeping state | awaiting state | receiving state _ => 20 * rank state + 3
  | ended _ => 0

def DispatcherState.weight : DispatcherState → Nat
  | waiting => 40
  | abandoning _ => 1
  | closing => 10
  | streaming | refused _ | leaving | gone => 0

def WatcherState.weight : WatcherState → Nat
  | waiting => 20
  | closing => 1
  | absent | finished => 0

def BodyState.weight : BodyState → Nat
  | present => 8
  | leaving => 1
  | absent | gone => 0

/-- A pinger whose time has come is about to write. -/
def PingerState.weight (timers : List (Nat × Actor)) : PingerState → Nat
  | absent => 2
  | sleeping => if timers.any fun (_, actor) => actor = .pinger then 1 else 12
  | writing => 2
  | stopped => 0

theorem PingerState.weight_sleeping (timers : List (Nat × Actor)) :
    sleeping.weight timers = 1 ∨ sleeping.weight timers = 12 := by
  by_cases asleep : timers.any fun (_, actor) => actor = .pinger
  · exact .inl (if_pos asleep)
  · exact .inr (if_neg asleep)

theorem PingerState.weight_append_of_ne {deadline : Nat} {who : Actor} (different : who ≠ .pinger) (pinger : PingerState)
    (timers : List (Nat × Actor)) : pinger.weight (timers ++ [(deadline, who)]) = pinger.weight timers := by
  have same : (timers ++ [(deadline, who)]).any (fun (_, actor) => actor = .pinger) =
      timers.any fun (_, actor) => actor = .pinger := by
    rw [List.any_append]
    simp [different]
  cases pinger with
  | sleeping =>
      rw [weight, same, weight]
  | _ =>
      rfl

namespace Viewing

variable {β μ : Type} {source : EventSource β μ} {rank : β → Nat} {v v' : Viewing β μ}

/-- More than the number of turns until time has to pass. -/
def weight (rank : β → Nat) (v : Viewing β μ) : Nat :=
  v.handler.weight rank + v.dispatcher.weight + v.watcher.weight + v.body.weight + v.pinger.weight v.timers +
    v.machine.stream.load + v.machine.ranks

theorem isParty_of_asks {s : Session β μ} {who : Actor} {call : Call} (asks : s.Asks who call) : who.IsParty := by
  cases who with
  | other number =>
      exact asks
  | _ =>
      trivial

theorem rank_lt_of_ends (ends : source.Ends rank) {state state' : β} {reply : Reply μ} {move : Move}
    (next : source.next state reply = (state', move)) (goesOn : ∀ ending, move ≠ .finish ending) :
    rank state' < rank state := by
  rcases ends state reply state' move next with falls | ⟨ending, last⟩
  · exact falls
  · exact absurd last (goesOn ending)

/-- Every turn makes a viewing lighter. -/
theorem Happens.weight (happens : v.Happens source v') (manned : v.Manned) (ends : source.Ends rank) :
    v'.weight rank < v.weight rank := by
  have party {who : Actor} {op : Op} (under : v.machine.op? who = some op) : who.IsParty := by
    obtain ⟨call, asks, -⟩ := manned.serves who op under
    exact isParty_of_asks asks
  unfold Viewing.weight
  cases happens with
  | works who op op' s under stepped =>
      have ranks := @Machine.ranks_reach _ _ _ op' s under (party under)
      have falls : op'.rank + s.load < op.rank + v.machine.stream.load := Op.rank_of_next stepped
      simp only [Machine.stream_reach]
      omega
  | pushes state state' reply event free moving next =>
      have ranks := Machine.ranks_reach_of_free free trivial (Call.push (source.encode event)).first
      have small := Op.rank_first_le (.push (source.encode event))
      have falls := rank_lt_of_ends ends next nofun
      simp only [Machine.stream_reach, ranks, moving, HandlerState.weight]
      omega
  | closes state state' reply notify free moving next =>
      have ranks := Machine.ranks_reach_of_free free trivial (Call.close notify).first
      have small := Op.rank_first_le (.close notify)
      have falls := rank_lt_of_ends ends next nofun
      simp only [Machine.stream_reach, ranks, moving, HandlerState.weight]
      omega
  | setsPing state state' reply millis moving next =>
      have falls := rank_lt_of_ends ends next nofun
      have load : (v.stream.setPing millis).load = v.machine.stream.load := rfl
      have ranks : ({ v.machine with stream := v.stream.setPing millis } : Machine).ranks = v.machine.ranks := rfl
      simp only [moving, HandlerState.weight, load, ranks]
      omega
  | sleeps state state' reply millis moving next =>
      have falls := rank_lt_of_ends ends next nofun
      have pinger := @PingerState.weight_append_of_ne (v.clock + millis) .handler nofun v.pinger v.timers
      simp only [moving, HandlerState.weight, pinger]
      omega
  | awaits state state' reply move waiting moving next waits =>
      have falls : rank state' < rank state := by
        apply rank_lt_of_ends ends next
        rcases waits with ⟨-, rfl⟩ | ⟨untilDone, -, rfl⟩ <;> nofun
      have after : waiting.weight rank = 20 * rank state' + 3 := by
        rcases waits with ⟨rfl, -⟩ | ⟨untilDone, rfl, -⟩ <;> rfl
      simp only [after]
      simp only [moving, HandlerState.weight]
      omega
  | passes state state' reply reply' move moving next short =>
      have falls : rank state' < rank state := by
        apply rank_lt_of_ends ends next
        rcases short with rfl | rfl <;> nofun
      simp only [moving, HandlerState.weight]
      omega
  | finishes state state' reply ending moving next =>
      simp only [moving, HandlerState.weight]
      omega
  | replied state reply op result s waits under stepped =>
      have ranks := @Machine.ranks_forget _ _ _ s under trivial
      have load : s.load < op.rank + v.machine.stream.load := Op.load_of_finished stepped
      have before : v.handler.weight rank = 20 * rank state + 3 := by
        rcases waits with pushing | closing
        · rw [pushing]
          rfl
        · rw [closing]
          rfl
      have after : HandlerState.weight rank (.moving state reply) = 20 * rank state + 2 := rfl
      simp only [Machine.stream_forget, before, after]
      omega
  | wakes state reply mailbox waits =>
      have before : v.handler.weight rank = 20 * rank state + 3 := by
        rcases waits with asleep | awaiting | ⟨untilDone, receiving⟩
        · rw [asleep]
          rfl
        · rw [awaiting]
          rfl
        · rw [receiving]
          rfl
      have after : HandlerState.weight rank (.moving state reply) = 20 * rank state + 2 := rfl
      simp only [before, after]
      omega
  | streams waits announced =>
      simp only [waits, DispatcherState.weight, WatcherState.weight, BodyState.weight]
      omega
  | abandons ending error free waits =>
      have ranks := Machine.ranks_reach_of_free free trivial Call.abandon.first
      have small := Op.rank_first_le .abandon
      simp only [Machine.stream_reach, ranks, waits, DispatcherState.weight]
      omega
  | settles ending free waits =>
      have ranks := Machine.ranks_reach_of_free free trivial (Call.close false).first
      have small := Op.rank_first_le (.close false)
      simp only [Machine.stream_reach, ranks, waits, DispatcherState.weight]
      omega
  | refuses error op result s abandoning under stepped =>
      have ranks := @Machine.ranks_forget _ _ _ s under trivial
      have load : s.load < op.rank + v.machine.stream.load := Op.load_of_finished stepped
      have empty : ({ s with receiving := false, slot := none } : EventStream).load = 0 := rfl
      have same : Machine.ranks ⟨{ s with receiving := false, slot := none },
          ({ v.machine with stream := s }.forget .dispatcher).ops⟩ =
            ({ v.machine with stream := s }.forget .dispatcher).ranks := rfl
      simp only [empty, same, abandoning, DispatcherState.weight]
      omega
  | answers op result s closing under stepped =>
      have ranks := @Machine.ranks_forget _ _ _ s under trivial
      have load : s.load < op.rank + v.machine.stream.load := Op.load_of_finished stepped
      simp only [Machine.stream_forget, closing, DispatcherState.weight, BodyState.weight]
      omega
  | reports ending free waits =>
      have ranks := Machine.ranks_reach_of_free free trivial (Call.close false).first
      have small := Op.rank_first_le (.close false)
      simp only [Machine.stream_reach, ranks, waits, WatcherState.weight]
      omega
  | watched op result s closing under stepped =>
      have ranks := @Machine.ranks_forget _ _ _ s under trivial
      have load : s.load < op.rank + v.machine.stream.load := Op.load_of_finished stepped
      simp only [Machine.stream_forget, closing, WatcherState.weight]
      omega
  | rests absent =>
      have asleep : (v.timers ++ [(v.clock + v.stream.pingMillis, Actor.pinger)]).any (fun (_, actor) => actor = .pinger) =
          true := by
        simp
      simp only [absent, PingerState.weight, asleep, if_pos]
      omega
  | stops sleeping =>
      have before : 0 < v.pinger.weight v.timers := by
        rw [sleeping]
        rcases PingerState.weight_sleeping v.timers with one | twelve <;> omega
      have after : PingerState.stopped.weight (v.timers.filter fun (_, actor) => actor ≠ .pinger) = 0 := rfl
      simp only [after]
      omega
  | pings free sleeping awake =>
      have ranks := Machine.ranks_reach_of_free free trivial Call.ping.first
      have nine : Call.ping.first.rank = 9 := rfl
      have before : v.pinger.weight v.timers = 12 := by
        rw [Session.isAsleep] at awake
        rw [sleeping, PingerState.weight, awake, if_neg Bool.false_ne_true]
      have after : PingerState.writing.weight v.timers = 2 := rfl
      simp only [Machine.stream_reach, ranks, nine, before, after]
      omega
  | pinged op s writing under stepped =>
      have ranks := @Machine.ranks_forget _ _ _ s under trivial
      have load : s.load < op.rank + v.machine.stream.load := Op.load_of_finished stepped
      have asleep : (v.timers ++ [(v.clock + s.pingMillis, Actor.pinger)]).any (fun (_, actor) => actor = .pinger) =
          true := by
        simp
      simp only [Machine.stream_forget, writing, PingerState.weight, asleep, if_pos]
      omega
  | quits op error s writing under stepped =>
      have ranks := @Machine.ranks_forget _ _ _ s under trivial
      have load : s.load < op.rank + v.machine.stream.load := Op.load_of_finished stepped
      simp only [Machine.stream_forget, writing, PingerState.weight]
      omega
  | left op result s leaving under stepped =>
      have ranks := @Machine.ranks_forget _ _ _ s under trivial
      have load : s.load < op.rank + v.machine.stream.load := Op.load_of_finished stepped
      simp only [Machine.stream_forget, leaving, BodyState.weight]
      omega
  | receives frame present receiving slot =>
      have before : v.machine.stream.load = 1 := by
        change v.stream.slot.toList.length = 1
        rw [slot]
        rfl
      have after : ({ v.stream with slot := none } : EventStream).load = 0 := rfl
      have ranks : Machine.ranks ⟨{ v.stream with slot := none }, v.machine.ops⟩ = v.machine.ranks := rfl
      simp only [before, after, ranks]
      omega
  | leaves free present =>
      have ranks := Machine.ranks_reach_of_free free trivial Call.leave.first
      have six : Call.leave.first.rank = 6 := rfl
      simp only [Machine.stream_reach, ranks, six, present, BodyState.weight]
      omega

/-- Time that passes can wake the pinger. -/
theorem weight_elapse (v : Viewing β μ) (millis : Nat) :
    weight rank { v with toSession := v.elapse millis } ≤ v.weight rank + 11 := by
  have pinger (timers timers' : List (Nat × Actor)) : v.pinger.weight timers' ≤ v.pinger.weight timers + 11 := by
    cases v.pinger with
    | sleeping =>
        rcases PingerState.weight_sleeping timers with one | twelve <;>
          rcases PingerState.weight_sleeping timers' with one' | twelve' <;> omega
    | _ =>
        exact Nat.le_add_right _ _
  have wakes := pinger v.timers (v.elapse millis).timers
  change _ + _ + _ + _ + v.pinger.weight (v.elapse millis).timers + _ + _ ≤ _
  unfold weight
  have same : (v.elapse millis).handler = v.handler ∧ (v.elapse millis).dispatcher = v.dispatcher ∧
      (v.elapse millis).watcher = v.watcher ∧ (v.elapse millis).body = v.body ∧
      (v.elapse millis).machine = v.machine := ⟨rfl, rfl, rfl, rfl, rfl⟩
  obtain ⟨handler, dispatcher, watcher, body, machine⟩ := same
  simp only [handler, dispatcher, watcher, body, machine]
  omega

end Viewing

namespace Turn

/-- Time passes. -/
def isPass : Turn → Bool
  | pass _ => true
  | _ => false

end Turn

namespace Viewing

variable {β μ : Type} {source : EventSource β μ} {rank : β → Nat} {v v' : Viewing β μ}

/-- A run goes on only as long as time passes. -/
theorem length_run (kept : v.Kept) (ends : source.Ends rank) {turns : List Turn}
    (ran : v.run? source turns = some v') :
    turns.length + v'.weight rank ≤ v.weight rank + 12 * turns.countP Turn.isPass := by
  induction turns generalizing v with
  | nil =>
      cases ran
      simp
  | cons turn turns inductionHypothesis =>
      obtain ⟨next, taken, ran⟩ := Option.bind_eq_some_iff.mp ran
      have rest := inductionHypothesis (kept.act taken) ran
      rw [List.length_cons, List.countP_cons]
      rcases happens_of_act? kept.manned taken with happens | ⟨millis, rfl, rfl⟩
      · have falls := happens.weight kept.manned ends
        omega
      · have wakes := @weight_elapse _ _ rank v millis
        have counted : (if (Turn.pass millis).isPass = true then 1 else 0) = 1 := rfl
        omega

end Viewing

end SchemaRpc
