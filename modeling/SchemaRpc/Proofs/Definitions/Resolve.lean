import SchemaRpc.Proofs.TypeDef.Nodes

/-!
# Chains of references

A `Chain` goes from a definition along references, each to a body, and `LeadsTo` is one that ends at a definition that is
no reference. `resolve` gives up after as many definitions as the table has names and one more; no chain that comes to a
stop is longer, since its names are different (`Chain.count_le_size`, `resolve_eq_ok_iff`).
-/

namespace SchemaRpc.Definitions

variable {defs : Definitions}

/-- The body that a reference leads to at once. -/
def next? (defs : Definitions) (t : TypeDef) : Option TypeDef :=
  t.refName?.bind defs.get?

theorem next?_eq_some_iff {t next : TypeDef} :
    defs.next? t = some next ↔ ∃ name, t.refName? = some name ∧ defs.get? name = some next :=
  Option.bind_eq_some_iff

/-- There is no next body after a definition that is no reference, and after one to a name without a body. -/
theorem next?_eq_none_iff {t : TypeDef} :
    defs.next? t = none ↔ t.refName? = none ∨ ∃ name, t.refName? = some name ∧ defs.get? name = none := by
  unfold next?
  cases t.refName? with
  | none =>
      simp
  | some name =>
      simp

/-- One definition comes so many references after another, each to a body. -/
inductive Chain (defs : Definitions) : Nat → TypeDef → TypeDef → Prop
  | here (t : TypeDef) : Chain defs 0 t t
  | step {count : Nat} {t next last : TypeDef} :
      defs.next? t = some next →
      Chain defs count next last →
      Chain defs (count + 1) t last

namespace Chain

variable {count count' : Nat} {t last last' : TypeDef}

/-- No chain goes on from where one stops. -/
theorem le_of_stops (chain : Chain defs count t last) (stops : defs.next? last = none)
    (chain' : Chain defs count' t last') : count' ≤ count := by
  induction chain generalizing count' with
  | here t =>
      cases chain' with
      | here _ =>
          exact Nat.le_refl 0
      | step found _ =>
          rw [stops] at found
          cases found
  | step found _ inductionHypothesis =>
      cases chain' with
      | here _ =>
          exact Nat.zero_le _
      | step found' rest' =>
          rw [found] at found'
          cases found'
          exact Nat.succ_le_succ (inductionHypothesis stops rest')

/-- The names on a chain that stops are different names of the table: each of them has fewer references to come than the
one before. -/
theorem exists_names (chain : Chain defs count t last) (stops : defs.next? last = none) :
    ∃ names : List String, names.length = count ∧ names.Nodup ∧
      ∀ name ∈ names, ∃ steps < count, ∃ body, defs.get? name = some body ∧ Chain defs steps body last := by
  induction chain with
  | here t =>
      exact ⟨[], rfl, List.nodup_nil, List.forall_mem_nil _⟩
  | @step count t next last found rest inductionHypothesis =>
      obtain ⟨names, length, nodup, lead⟩ := inductionHypothesis stops
      obtain ⟨name, -, stored⟩ := next?_eq_some_iff.1 found
      have fresh : name ∉ names := by
        intro member
        obtain ⟨steps, fewer, body, stored', chain'⟩ := lead name member
        rw [stored] at stored'
        cases stored'
        -- a name met twice would have two different numbers of references to come
        exact absurd (chain'.le_of_stops stops rest) (Nat.not_le_of_lt fewer)
      refine ⟨name :: names, congrArg (· + 1) length, List.nodup_cons.2 ⟨fresh, nodup⟩, ?_⟩
      intro other member
      rcases List.mem_cons.1 member with rfl | member
      · exact ⟨count, Nat.lt_succ_self count, next, stored, rest⟩
      · obtain ⟨steps, fewer, body, stored', chain'⟩ := lead other member
        exact ⟨steps, Nat.lt_succ_of_lt fewer, body, stored', chain'⟩

theorem count_le_size (chain : Chain defs count t last) (stops : defs.next? last = none) : count ≤ defs.size := by
  obtain ⟨names, length, nodup, lead⟩ := chain.exists_names stops
  have named : names ⊆ defs.entries.map Prod.fst := by
    intro name member
    obtain ⟨_, _, body, stored, _⟩ := lead name member
    obtain ⟨entry, present, _⟩ := Option.bind_eq_some_iff.1 stored
    exact List.mem_map.2 ⟨(name, entry), Entries.mem_of_find? present, rfl⟩
  have bounded := nodup.length_le_of_subset named
  rw [List.length_map, length] at bounded
  exact bounded

end Chain

/-- A definition leads in so many steps along references to one that is no reference. -/
inductive LeadsTo (defs : Definitions) : Nat → TypeDef → TypeDef → Prop
  | here {t : TypeDef} :
      t.refName? = none →
      LeadsTo defs 0 t t
  | step {count : Nat} {t next target : TypeDef} {name : String} :
      t.refName? = some name →
      defs.get? name = some next →
      LeadsTo defs count next target →
      LeadsTo defs (count + 1) t target

theorem leadsTo_iff {count : Nat} {t target : TypeDef} :
    LeadsTo defs count t target ↔ Chain defs count t target ∧ target.refName? = none := by
  constructor
  · intro leads
    induction leads with
    | here final =>
        exact ⟨.here _, final⟩
    | step isRef found _ inductionHypothesis =>
        exact ⟨.step (next?_eq_some_iff.2 ⟨_, isRef, found⟩) inductionHypothesis.1, inductionHypothesis.2⟩
  · rintro ⟨chain, final⟩
    induction chain with
    | here t =>
        exact .here final
    | step found _ inductionHypothesis =>
        obtain ⟨name, isRef, stored⟩ := next?_eq_some_iff.1 found
        exact .step isRef stored (inductionHypothesis final)

theorem LeadsTo.target_refName? {count : Nat} {t target : TypeDef} (leads : LeadsTo defs count t target) :
    target.refName? = none :=
  (leadsTo_iff.1 leads).2

/-! ## Following with a bound -/

theorem leadsTo_of_follow {start t target : TypeDef} {fuel : Nat}
    (followed : defs.follow start fuel t = .ok target) :
    ∃ count, LeadsTo defs count t target := by
  induction fuel generalizing t with
  | zero =>
      cases followed
  | succ fuel inductionHypothesis =>
      unfold follow at followed
      cases isRef : t.refName? with
      | none =>
          simp only [isRef, Except.ok.injEq] at followed
          exact followed ▸ ⟨0, .here isRef⟩
      | some name =>
          cases found : defs.get? name with
          | none =>
              simp [isRef, found] at followed
          | some next =>
              simp only [isRef, found] at followed
              obtain ⟨count, leads⟩ := inductionHypothesis followed
              exact ⟨count + 1, .step isRef found leads⟩

theorem follow_of_next? {start t next : TypeDef} (found : defs.next? t = some next) (fuel : Nat) :
    defs.follow start (fuel + 1) t = defs.follow start fuel next := by
  obtain ⟨name, isRef, stored⟩ := next?_eq_some_iff.1 found
  simp only [follow, isRef, stored]

/-- Each reference of a chain takes one definition off the bound. -/
theorem Chain.follow_eq {t last : TypeDef} {count : Nat} (chain : Chain defs count t last) (start : TypeDef)
    (fuel : Nat) : defs.follow start (count + fuel) t = defs.follow start fuel last := by
  induction chain with
  | here t =>
      rw [Nat.zero_add]
  | step found _ inductionHypothesis =>
      rw [Nat.add_right_comm, follow_of_next? found, inductionHypothesis]

/-- The bound of `resolve` is enough for every chain that stops. -/
theorem Chain.exists_resolve_eq {t last : TypeDef} {count : Nat} (chain : Chain defs count t last)
    (stops : defs.next? last = none) : ∃ fuel, defs.resolve t = defs.follow t (fuel + 1) last := by
  obtain ⟨fuel, size⟩ := Nat.exists_eq_add_of_le (chain.count_le_size stops)
  refine ⟨fuel, ?_⟩
  rw [resolve, size, Nat.add_assoc, chain.follow_eq]

/-- The bound of `resolve` never cuts off a chain that ends. -/
theorem resolve_eq_ok_iff {t target : TypeDef} :
    defs.resolve t = .ok target ↔ ∃ count, LeadsTo defs count t target := by
  constructor
  · exact leadsTo_of_follow
  · rintro ⟨count, leads⟩
    obtain ⟨chain, final⟩ := leadsTo_iff.1 leads
    obtain ⟨fuel, resolved⟩ := chain.exists_resolve_eq (next?_eq_none_iff.2 (.inl final))
    rw [resolved, follow, final]

theorem resolve_of_refName?_eq_none {t : TypeDef} (final : t.refName? = none) :
    defs.resolve t = .ok t :=
  resolve_eq_ok_iff.2 ⟨0, .here final⟩

theorem resolve_of_ref {t next : TypeDef} {name : String} (isRef : t.refName? = some name)
    (found : defs.get? name = some next) {target : TypeDef} :
    defs.resolve t = .ok target ↔ defs.resolve next = .ok target := by
  rw [resolve_eq_ok_iff, resolve_eq_ok_iff]
  constructor
  · rintro ⟨count, leads⟩
    cases leads with
    | here final =>
        rw [final] at isRef
        cases isRef
    | step isRef' found' rest =>
        rw [isRef] at isRef'
        cases isRef'
        rw [found] at found'
        cases found'
        exact ⟨_, rest⟩
  · rintro ⟨count, leads⟩
    exact ⟨count + 1, .step isRef found leads⟩

/-- What goes wrong on the way is a name without a body, or one that is met too often. -/
theorem exists_of_follow_error {start t : TypeDef} {fuel : Nat} {error : ModelError}
    (failed : defs.follow start fuel t = .error error) : ∃ name, error = .unresolvedRef name := by
  induction fuel generalizing t with
  | zero =>
      cases failed
      exact ⟨_, rfl⟩
  | succ fuel inductionHypothesis =>
      rw [follow] at failed
      split at failed
      · cases failed
      · split at failed
        · exact inductionHypothesis failed
        · cases failed
          exact ⟨_, rfl⟩

theorem refName?_of_resolve {t target : TypeDef} (resolved : defs.resolve t = .ok target) :
    target.refName? = none := by
  obtain ⟨_, leads⟩ := resolve_eq_ok_iff.1 resolved
  exact leads.target_refName?

/-- What holds of a definition and of every body holds of the target of the definition. -/
theorem resolve_induct {P : TypeDef → Prop} {t target : TypeDef}
    (resolved : defs.resolve t = .ok target) (here : P t)
    (bodies : ∀ name body, defs.get? name = some body → P body) : P target := by
  obtain ⟨_, leads⟩ := resolve_eq_ok_iff.1 resolved
  induction leads with
  | here _ =>
      exact here
  | step _ found rest inductionHypothesis =>
      exact inductionHypothesis (resolve_eq_ok_iff.2 ⟨_, rest⟩) (bodies _ _ found)

end SchemaRpc.Definitions
