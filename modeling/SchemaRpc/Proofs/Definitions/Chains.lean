import SchemaRpc.Proofs.Definitions.Resolve

/-!
# Where chains of references come to

Along references one comes to a definition that is no reference, or to a name without a body, or one goes on for ever.
`resolve` tells the three apart (`resolve_exact`), except that a reference to a name without a body is answered like one
that leads back to itself: both leave the name of the reference unresolved (`missing_not_endless`).
-/

namespace SchemaRpc.Definitions

variable {defs : Definitions} {t last : TypeDef} {name own : String} {count : Nat}

/-- The chain from a definition comes to a name without a body, the first one on it. -/
def BreaksOffAt (defs : Definitions) (t : TypeDef) (name : String) : Prop :=
  ∃ count last, Chain defs count t last ∧ last.refName? = some name ∧ defs.get? name = none

/-- The chain from a definition goes on for as many references as one likes. -/
def Endless (defs : Definitions) (t : TypeDef) : Prop :=
  ∀ count, ∃ last, Chain defs count t last

/-- A chain has the length that is asked for, or it stops before. -/
theorem exists_chain_or_stops (defs : Definitions) (count : Nat) (t : TypeDef) :
    (∃ last, Chain defs count t last) ∨ ∃ steps last, Chain defs steps t last ∧ defs.next? last = none := by
  induction count generalizing t with
  | zero =>
      exact .inl ⟨t, .here t⟩
  | succ count inductionHypothesis =>
      cases found : defs.next? t with
      | none =>
          exact .inr ⟨0, t, .here t, found⟩
      | some next =>
          rcases inductionHypothesis next with ⟨last, chain⟩ | ⟨steps, last, chain, stops⟩
          · exact .inl ⟨last, .step found chain⟩
          · exact .inr ⟨steps + 1, last, .step found chain, stops⟩

/-- Every chain comes to one of three ends. -/
theorem leadsTo_or_breaksOffAt_or_endless (defs : Definitions) (t : TypeDef) :
    (∃ count target, LeadsTo defs count t target) ∨ (∃ name, defs.BreaksOffAt t name) ∨ defs.Endless t := by
  by_cases stopping : ∃ steps last, Chain defs steps t last ∧ defs.next? last = none
  · obtain ⟨steps, last, chain, stops⟩ := stopping
    rcases next?_eq_none_iff.1 stops with final | ⟨name, isRef, missing⟩
    · exact .inl ⟨steps, last, leadsTo_iff.2 ⟨chain, final⟩⟩
    · exact .inr (.inl ⟨name, steps, last, chain, isRef, missing⟩)
  · exact .inr (.inr fun count => (exists_chain_or_stops defs count t).resolve_right stopping)

theorem Endless.exists_refName? (endless : defs.Endless t) : ∃ own, t.refName? = some own := by
  obtain ⟨last, chain⟩ := endless 1
  cases chain with
  | step found _ =>
      obtain ⟨own, isRef, -⟩ := next?_eq_some_iff.1 found
      exact ⟨own, isRef⟩

/-- A chain with more references than the table has names comes back to one of them, and never ends. -/
theorem Chain.endless_of_size_lt (chain : Chain defs count t last) (longer : defs.size < count) : defs.Endless t := by
  intro wanted
  refine (exists_chain_or_stops defs wanted t).resolve_right ?_
  rintro ⟨steps, last', chain', stops⟩
  have bounded : count ≤ defs.size := Nat.le_trans (chain'.le_of_stops stops chain) (chain'.count_le_size stops)
  exact absurd bounded (Nat.not_le_of_lt longer)

/-! ## What is answered -/

theorem resolve_of_breaksOffAt (breaks : defs.BreaksOffAt t name) : defs.resolve t = .error (.unresolvedRef name) := by
  obtain ⟨count, last, chain, isRef, missing⟩ := breaks
  obtain ⟨fuel, resolved⟩ := chain.exists_resolve_eq (next?_eq_none_iff.2 (.inr ⟨name, isRef, missing⟩))
  rw [resolved]
  simp only [follow, isRef, missing]

theorem resolve_of_endless (endless : defs.Endless t) (isRef : t.refName? = some own) :
    defs.resolve t = .error (.unresolvedRef own) := by
  obtain ⟨last, chain⟩ := endless (defs.size + 1)
  have runsOut : defs.resolve t = defs.follow t 0 last := chain.follow_eq t 0
  rw [runsOut, follow, isRef]
  rfl

/-- An error names the place where the chain breaks off, or the reference that it starts from if it never ends. -/
theorem exists_of_resolve_error {error : ModelError} (failed : defs.resolve t = .error error) :
    ∃ name, error = .unresolvedRef name ∧ (defs.BreaksOffAt t name ∨ defs.Endless t ∧ t.refName? = some name) := by
  rcases leadsTo_or_breaksOffAt_or_endless defs t with ⟨count, target, leads⟩ | ⟨name, breaks⟩ | endless
  · rw [resolve_eq_ok_iff.2 ⟨count, leads⟩] at failed
    cases failed
  · rw [resolve_of_breaksOffAt breaks] at failed
    cases failed
    exact ⟨name, rfl, .inl breaks⟩
  · obtain ⟨own, isRef⟩ := endless.exists_refName?
    rw [resolve_of_endless endless isRef] at failed
    cases failed
    exact ⟨own, rfl, .inr ⟨endless, isRef⟩⟩

/-- In every table `resolve` gives the end of each chain that has one, however long, and names the first name without a
body where a chain breaks off. It names the reference that it starts from exactly if the chain never ends or breaks off at
that very name. There is no other answer, and only endless chains are longer than the table. -/
theorem resolve_exact (defs : Definitions) (t : TypeDef) :
    (∀ target, defs.resolve t = .ok target ↔ ∃ count, LeadsTo defs count t target) ∧
      (∀ name, defs.BreaksOffAt t name → defs.resolve t = .error (.unresolvedRef name)) ∧
      (∀ own, t.refName? = some own →
        (defs.resolve t = .error (.unresolvedRef own) ↔ defs.Endless t ∨ defs.BreaksOffAt t own)) ∧
      (∀ error, defs.resolve t = .error error → ∃ name, error = .unresolvedRef name ∧
        (defs.BreaksOffAt t name ∨ defs.Endless t ∧ t.refName? = some name)) ∧
      ∀ count last, Chain defs count t last → defs.size < count → defs.Endless t := by
  refine ⟨fun target => resolve_eq_ok_iff, fun name => resolve_of_breaksOffAt, fun own isRef => ⟨fun failed => ?_, ?_⟩,
    fun error => exists_of_resolve_error, fun count last => Chain.endless_of_size_lt⟩
  · obtain ⟨name, same, breaks | ⟨endless, -⟩⟩ := exists_of_resolve_error failed
    · cases same
      exact .inr breaks
    · exact .inl endless
  · rintro (endless | breaks)
    · exact resolve_of_endless endless isRef
    · exact resolve_of_breaksOffAt breaks

/-- A chain through every name of the table. -/
def ladder : Definitions where
  entries := [("first", ⟨some (.ref "second"), none⟩), ("second", ⟨some (.ref "third"), none⟩),
    ("third", ⟨some (.object []), none⟩)]

/-- Two names that lead to one another, one that leads out of the table, and one that is reserved only. -/
def tangle : Definitions where
  entries := [("held", ⟨none, some 0⟩), ("loop", ⟨some (.ref "round"), none⟩), ("open", ⟨some (.ref "gone"), none⟩),
    ("round", ⟨some (.ref "loop"), none⟩)]
  owners := [(0, "held")]

theorem resolve_exact_tangle :
    ladder.resolve (.ref "first") = .ok (.object []) ∧
      tangle.resolve (.ref "open") = .error (.unresolvedRef "gone") ∧
      tangle.resolve (.ref "held") = .error (.unresolvedRef "held") ∧
      tangle.Endless (.ref "loop") ∧ tangle.resolve (.ref "loop") = .error (.unresolvedRef "loop") := by
  have throughAll : LeadsTo ladder 3 (.ref "first") (.object []) :=
    .step rfl rfl (.step rfl rfl (.step rfl rfl (.here rfl)))
  have goesRound : Chain tangle 5 (.ref "loop") (.ref "round") :=
    .step rfl (.step rfl (.step rfl (.step rfl (.step rfl (.here _)))))
  obtain ⟨-, -, byName, -, byLength⟩ := resolve_exact tangle (.ref "loop")
  have endless := byLength 5 _ goesRound (by decide)
  exact ⟨((resolve_exact ladder _).1 _).2 ⟨3, throughAll⟩,
    (resolve_exact tangle _).2.1 "gone" ⟨1, .ref "gone", .step rfl (.here _), rfl, rfl⟩,
    (resolve_exact tangle _).2.1 "held" ⟨0, .ref "held", .here _, rfl, rfl⟩,
    endless, (byName "loop" rfl).2 (.inl endless)⟩

/-- A reference into the empty table is answered with its own name, although its chain is over at once. -/
theorem missing_not_endless :
    empty.resolve (.ref "Missing") = .error (.unresolvedRef "Missing") ∧ ¬ empty.Endless (.ref "Missing") := by
  refine ⟨rfl, fun endless => ?_⟩
  obtain ⟨last, chain⟩ := endless 1
  cases chain with
  | step found _ =>
      cases found

end SchemaRpc.Definitions
