import SchemaRpc.Proofs.Dispatch.Unary

/-!
# Requests that are told apart by nobody

Two ways to know an exchange without looking at its params. A request that fails on the way to its params is answered by
its error, whatever the handler is (`Dispatcher.dispatch_of_failed`). And two requests whose runs agree step by step
(`Pipeline.Agree`) are answered alike.
-/

namespace SchemaRpc

namespace Dispatcher

variable {γ ω β : Type} {d : Dispatcher γ ω β} {request : Http.Request}

/-- The stages before the handler, which are those of event streams as well. -/
def admissionStages (d : Dispatcher γ ω β) : List (Stage γ) :=
  .route :: .context :: .request :: .method ::
    (d.hooks.middleware.zipIdx.map (fun (hook, index) => .middleware index hook) ++ [.params])

theorem Course.uncalled {s : Situation γ ω β} {events : List (ExchangeEvent γ)} {outcome : Outcome γ ω β}
    (course : d.Course request d.admissionStages s events outcome) : ∀ event ∈ events, event.isHandlerCall = false := by
  have none : d.admissionStages.countP Stage.isHandler = 0 := by
    rw [List.countP_eq_zero]
    intro stage member
    simp only [admissionStages, List.mem_cons, List.mem_append, List.mem_map, List.not_mem_nil, or_false] at member
    rcases member with rfl | rfl | rfl | rfl | ⟨entry, -, rfl⟩ | rfl <;> nofun
  have calls := course.countP_isHandlerCall_le
  rw [none, Nat.le_zero, List.countP_eq_zero] at calls
  exact fun event listed => Bool.not_eq_true _ ▸ calls event listed

/-- Neither the body nor the query takes part before the params are decoded, and no handler after such an end. -/
theorem dispatch_of_failed {state : ω} {events : List (ExchangeEvent γ)} {stage : Stage γ} {error : RpcError}
    {s : Situation γ ω β} (course : d.Course request d.admissionStages { state } events (.failed stage error s)) :
    d.dispatch request state =
      let procedure := (d.route? request.path).map fun route => route.procedure.name
      { procedure
        events := events ++ [d.failure request procedure s.context error]
        answer := .response (.ofError error)
        state := s.state } := by
  have taken := @follows_accept γ ω β d request [] state
  cases taken with
  | completed events' extra t a course' ran related =>
      nomatch (course.unique course').2
  | escaped events' t course' ran =>
      nomatch (course.unique course').2
  | failed events' stage' error' t course' ran =>
      obtain ⟨rfl, same⟩ := course.unique course'
      cases same
      have ended := Pipeline.run_bind_of_error (f := d.answer request) ran
      dsimp only [dispatch]
      rw [ended]
      rfl

end Dispatcher

namespace Pipeline

variable {γ ω α δ : Type}

/-- Two runs come to the same state, with related values or with the same error. -/
inductive EndAlike (rel : α → α → Prop) :
    Except (Halt γ) α × Passage γ ω → Except (Halt γ) α × Passage γ ω → Prop
  | ok (a b : α) (x y : Passage γ ω) (related : rel a b) (state : x.state = y.state) :
      EndAlike rel (.ok a, x) (.ok b, y)
  | failed (context context' : Option γ) (error : RpcError) (x y : Passage γ ω) (state : x.state = y.state) :
      EndAlike rel (.error (.failed context error), x) (.error (.failed context' error), y)
  | escaped (x y : Passage γ ω) (state : x.state = y.state) :
      EndAlike rel (.error .escaped, x) (.error .escaped, y)

/-- Two programs that end alike wherever they are started in the same state. -/
def Agree (rel : α → α → Prop) (p q : Pipeline γ ω α) : Prop :=
  ∀ x y : Passage γ ω, x.state = y.state → EndAlike rel (p.run.run x) (q.run.run y)

namespace Agree

variable {p q : Pipeline γ ω α} {rel : α → α → Prop} {rel' : δ → δ → Prop}

theorem pure {a b : α} (related : rel a b) : Agree rel (pure a : Pipeline γ ω α) (pure b) :=
  fun x y state => .ok a b x y related state

theorem throw (context context' : Option γ) (error : RpcError) :
    Agree rel (throw (.failed context error) : Pipeline γ ω α) (throw (.failed context' error)) :=
  fun x y state => .failed context context' error x y state

theorem bind {f g : α → Pipeline γ ω δ} (first : Agree rel p q) (next : ∀ a b, rel a b → Agree rel' (f a) (g b)) :
    Agree rel' (p >>= f) (q >>= g) := by
  intro x y state
  have ends := first x y state
  generalize ran : p.run.run x = left at ends
  generalize ran' : q.run.run y = right at ends
  cases ends with
  | ok a b x' y' related state' =>
      rw [run_bind_of_ok ran, run_bind_of_ok ran']
      exact next a b related x' y' state'
  | failed context context' error x' y' state' =>
      rw [run_bind_of_error ran, run_bind_of_error ran']
      exact .failed context context' error x' y' state'
  | escaped x' y' state' =>
      rw [run_bind_of_error ran, run_bind_of_error ran']
      exact .escaped x' y' state'

theorem note (event event' : ExchangeEvent γ) : Agree (ω := ω) Eq (note event) (note event') :=
  fun _ _ state => .ok () () _ _ rfl state

theorem orFail (context context' : Option γ) (result : Except RpcError α) :
    Agree (ω := ω) Eq (orFail context result) (orFail context' result) := by
  cases result with
  | ok value => exact pure rfl
  | error error => exact throw context context' error

theorem enter (context context' : γ) (params : Value) (call : ω → Entry α × ω) :
    Agree Eq (Dispatcher.enter context params call) (Dispatcher.enter context' params call) := by
  rintro ⟨before, state⟩ ⟨before', _⟩ rfl
  rw [Dispatcher.run_enter, Dispatcher.run_enter]
  rcases call state with ⟨error | _ | value, after⟩
  · exact .ok _ _ _ _ rfl rfl
  · exact .escaped _ _ rfl
  · exact .ok _ _ _ _ rfl rfl

end Agree

end Pipeline

namespace Dispatcher

variable {γ ω β : Type} {d : Dispatcher γ ω β} {request other : Http.Request}

theorem dispatch_of_agree
    (agree : Pipeline.Agree Eq (do d.answer request (← d.accept request)) (do d.answer other (← d.accept other)))
    (state : ω) :
    (d.dispatch request state).answer = (d.dispatch other state).answer ∧
      (d.dispatch request state).state = (d.dispatch other state).state := by
  have ends := agree { state } { state } rfl
  unfold dispatch
  dsimp only
  generalize (do d.answer request (← d.accept request) : Pipeline γ ω _).run.run { state } = left at ends
  generalize (do d.answer other (← d.accept other) : Pipeline γ ω _).run.run { state } = right at ends
  cases ends with
  | ok a b x y related state => exact ⟨related, state⟩
  | failed context context' error x y state => exact ⟨rfl, state⟩
  | escaped x y state => exact ⟨rfl, state⟩

end Dispatcher

end SchemaRpc
