import SchemaRpc.Shape.Introspection

/-!
# Reasoning about walks

A walk over the table ends in a result or a refusal, and in a table. `Keeps` says that an invariant of the table
survives, also when the walk is refused, and what holds of the result; `runs_bind` takes a walk that succeeded apart.
-/

namespace SchemaRpc.Introspection

variable {α β : Type} {defs defs' : Definitions}

/-- A walk from one table succeeds with a result in another. -/
def Runs (walk : Walk α) (defs : Definitions) (a : α) (defs' : Definitions) : Prop :=
  walk.run.run defs = (.ok a, defs')

theorem run_bind (walk : Walk α) (next : α → Walk β) (defs : Definitions) :
    (walk >>= next).run.run defs =
      match walk.run.run defs with
      | (.ok a, defs') => (next a).run.run defs'
      | (.error error, defs') => (.error error, defs') := by
  show (ExceptT.bindCont next (walk.run.run defs).1).run (walk.run.run defs).2 = _
  cases walk.run.run defs with
  | mk result defs' =>
      cases result <;> rfl

theorem runs_pure {a b : α} : Runs (pure a) defs b defs' ↔ a = b ∧ defs = defs' := by
  show ((Except.ok a, defs) : Except RegistrationError α × Definitions) = (.ok b, defs') ↔ _
  simp

theorem runs_bind {walk : Walk α} {next : α → Walk β} {b : β} :
    Runs (walk >>= next) defs b defs' ↔
      ∃ a between, Runs walk defs a between ∧ Runs (next a) between b defs' := by
  unfold Runs
  rw [run_bind]
  cases walk.run.run defs with
  | mk result between =>
      constructor
      · intro ran
        cases result with
        | ok a =>
            exact ⟨a, between, rfl, ran⟩
        | error error =>
            cases ran
      · rintro ⟨a, between', first, rest⟩
        cases first
        exact rest

theorem not_runs_throw {error : RegistrationError} {a : α} : ¬ Runs (throw error) defs a defs' := by
  intro runs
  cases runs

theorem runs_lift {result : Except ModelError α} {a : α} :
    Runs (lift result) defs a defs' ↔ result = .ok a ∧ defs = defs' := by
  cases result with
  | ok b =>
      show Runs (pure b) defs a defs' ↔ _
      rw [runs_pure, Except.ok.injEq]
  | error error =>
      simp only [lift, reduceCtorEq, false_and, iff_false]
      exact not_runs_throw

theorem run_onTable (operation : Definitions → Except ModelError Definitions) (defs : Definitions) :
    (onTable operation).run.run defs =
      match operation defs with
      | .ok next => (.ok (), next)
      | .error error => (.error (.model error), defs) := by
  have got : (get : Walk Definitions).run.run defs = (.ok defs, defs) := rfl
  rw [onTable, run_bind, got]
  dsimp only
  cases operation defs <;> rfl

theorem runs_onTable {operation : Definitions → Except ModelError Definitions} {a : Unit} :
    Runs (onTable operation) defs a defs' ↔ operation defs = .ok defs' := by
  unfold Runs
  rw [run_onTable]
  cases operation defs with
  | ok next =>
      show ((Except.ok (), next) : Except RegistrationError Unit × Definitions) = (.ok a, defs') ↔ _
      simp
  | error error =>
      simp only [reduceCtorEq, iff_false]
      intro ran
      cases ran

theorem runs_get {a : Definitions} : Runs get defs a defs' ↔ a = defs ∧ defs = defs' := by
  show ((Except.ok defs, defs) : Except RegistrationError Definitions × Definitions) = (.ok a, defs') ↔ _
  simp [eq_comm]

/-! ## Invariants -/

/-- The walk keeps the invariant, also when it is refused, and what it gives is as stated. -/
def Keeps (invariant : Definitions → Prop) (walk : Walk α) (given : α → Prop) : Prop :=
  ∀ defs, invariant defs → invariant (walk.run.run defs).2 ∧ ∀ a defs', Runs walk defs a defs' → given a

namespace Keeps

variable {invariant : Definitions → Prop} {given : α → Prop}

theorem pure {a : α} (holds : given a) : Keeps invariant (Pure.pure a) given := by
  intro defs kept
  refine ⟨kept, fun b defs' ran => ?_⟩
  obtain ⟨rfl, _⟩ := runs_pure.1 ran
  exact holds

theorem throw {error : RegistrationError} : Keeps invariant (MonadExcept.throw error : Walk α) given := by
  intro defs kept
  exact ⟨kept, fun a defs' ran => absurd ran not_runs_throw⟩

theorem get : Keeps invariant (MonadState.get : Walk Definitions) invariant := by
  intro defs kept
  refine ⟨kept, fun a defs' ran => ?_⟩
  obtain ⟨rfl, _⟩ := runs_get.1 ran
  exact kept

theorem bind {walk : Walk α} {next : α → Walk β} {after : β → Prop} (first : Keeps invariant walk given)
    (rest : ∀ a, given a → Keeps invariant (next a) after) : Keeps invariant (walk >>= next) after := by
  intro defs kept
  obtain ⟨keptFirst, givenFirst⟩ := first defs kept
  constructor
  · rw [run_bind]
    cases ran : walk.run.run defs with
    | mk result between =>
        rw [ran] at keptFirst
        cases result with
        | ok a =>
            exact (rest a (givenFirst a between ran) between keptFirst).1
        | error error =>
            exact keptFirst
  · intro b defs' ran
    obtain ⟨a, between, ranFirst, ranRest⟩ := runs_bind.1 ran
    have keptBetween : invariant between := by
      rw [ranFirst] at keptFirst
      exact keptFirst
    exact (rest a (givenFirst a between ranFirst) between keptBetween).2 b defs' ranRest

theorem mono {walk : Walk α} {given' : α → Prop} (keeps : Keeps invariant walk given)
    (weaker : ∀ a, given a → given' a) : Keeps invariant walk given' :=
  fun defs kept => ⟨(keeps defs kept).1, fun a defs' ran => weaker a ((keeps defs kept).2 a defs' ran)⟩

theorem lift {result : Except ModelError α} (holds : ∀ a, result = .ok a → given a) :
    Keeps invariant (Introspection.lift result) given := by
  cases result with
  | ok a =>
      exact pure (holds a rfl)
  | error error =>
      exact throw

theorem onTable {operation : Definitions → Except ModelError Definitions}
    (preserved : ∀ defs defs', invariant defs → operation defs = .ok defs' → invariant defs') :
    Keeps invariant (Introspection.onTable operation) fun _ => True := by
  intro defs kept
  refine ⟨?_, fun _ _ _ => trivial⟩
  rw [run_onTable]
  cases done : operation defs with
  | ok defs' =>
      exact preserved defs defs' kept done
  | error error =>
      exact kept

end Keeps

end SchemaRpc.Introspection
