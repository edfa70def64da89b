import SchemaRpc.Proofs.Introspection.Correct

/-!
# Refused walks leave a coherent table

A walk that succeeds leaves a coherent table, and so does one that is refused: what was entered before the refusal describes
its types, and the reservations that were under way stay without a body.
-/

namespace SchemaRpc.Introspection

open Catalog

variable {α β : Type} {defs defs' : Definitions} {error : RegistrationError}

/-- A walk is refused in its first part, or in the rest after a first part that succeeded. -/
theorem refused_bind {walk : Walk α} {next : α → Walk β} :
    (walk >>= next).run.run defs = (.error error, defs') ↔
      walk.run.run defs = (.error error, defs') ∨
        ∃ a between, Runs walk defs a between ∧ (next a).run.run between = (.error error, defs') := by
  unfold Runs
  rw [run_bind]
  cases walk.run.run defs with
  | mk result between =>
      cases result with
      | ok a =>
          constructor
          · exact fun refused => .inr ⟨a, between, rfl, refused⟩
          · rintro (refused | ⟨a', between', ran, refused⟩)
            · cases refused
            · cases ran
              exact refused
      | error refusal =>
          constructor
          · rintro ⟨⟩
            exact .inl rfl
          · rintro (⟨⟨⟩⟩ | ⟨a', between', ran, _⟩)
            · rfl
            · cases ran

/-- An operation that is refused leaves the table as it is. -/
theorem eq_of_refused_onTable {operation : Definitions → Except ModelError Definitions}
    (refused : (onTable operation).run.run defs = (.error error, defs')) : defs' = defs := by
  rw [run_onTable] at refused
  cases done : operation defs with
  | ok next =>
      rw [done] at refused
      cases refused
  | error refusal =>
      rw [done] at refused
      cases refused
      rfl

variable {n : Nat} {w : Introspection n} {expand : Expansion n} {slot : Fin n} {path : List String}

/-- Each use of a declared type leaves a coherent table, also when it is refused. -/
def StaysCoherent (catalog : Catalog n) (expand : Expansion n) : Prop :=
  ∀ slot path, Keeps (Coherent catalog) (expand slot path) fun _ => True

/-- A type that is refused while it is entered leaves its reservation, and what its members have entered. -/
theorem coherent_of_refused_enter (stays : StaysCoherent w.catalog expand) (isEntered : w.catalog.IsEntered slot)
    (fresh : defs.nameOf? (w.catalog.id slot) = none) (coherent : Coherent w.catalog defs)
    (refused : (w.enter expand path (w.catalog.get slot).info (w.catalog.get slot).members).run.run defs =
      (.error error, defs')) :
    Coherent w.catalog defs' := by
  rcases refused_bind.1 refused with refused | ⟨_, opened, ranReserve, refused⟩
  · rw [eq_of_refused_onTable refused]
    exact coherent
  have coherentOpened : Coherent w.catalog opened := by
    rcases Definitions.reserve_eq_ok_iff.1 (runs_onTable.1 ranReserve) with ⟨_, _, _, rfl⟩ | ⟨free, rfl⟩
    · exact coherent
    · exact (coherent_add coherent isEntered fresh free).1
  have coherentWalked := (keeps_walkMembers TypeDef.closed_true stays (w.catalog.get slot).members path opened
    coherentOpened).1
  rcases refused_bind.1 refused with refused | ⟨body, walked, ranMembers, refused⟩
  · rw [refused] at coherentWalked
    exact coherentWalked
  rcases refused_bind.1 refused with refused | ⟨_, _, _, refused⟩
  · rw [ranMembers] at coherentWalked
    rw [eq_of_refused_onTable refused]
    exact coherentWalked
  · cases refused

theorem staysCoherent_visit (types : w.catalog.OneTypeEach) (correct : Correct w.catalog expand)
    (stays : StaysCoherent w.catalog expand) : StaysCoherent w.catalog (w.visit expand) := by
  intro slot path
  cases isEnum : (w.catalog.get slot).members.isEnumeration with
  | true =>
      obtain ⟨listed, members⟩ := Members.eq_enumeration isEnum
      rw [visit_enumeration members]
      exact (Keeps.lift fun _ _ => trivial).bind fun _ (_ : True) => .pure trivial
  | false =>
      refine fun defs coherent => ⟨?_, fun _ _ _ => trivial⟩
      cases named : defs.nameOf? (w.catalog.get slot).info.id with
      | some name =>
          rw [run_visit_named isEnum named]
          exact coherent
      | none =>
          rw [run_visit_fresh isEnum named]
          cases ran : (w.enter expand path (w.catalog.get slot).info (w.catalog.get slot).members).run.run defs with
          | mk result after =>
            cases result with
            | ok t =>
                exact (runs_enter types correct isEnum named coherent ran).1.coherent
            | error error =>
                exact coherent_of_refused_enter stays isEnum named coherent ran

theorem staysCoherent_expand (types : w.catalog.OneTypeEach) (fuel : Nat) :
    StaysCoherent w.catalog (w.expand fuel) := by
  induction fuel with
  | zero =>
      exact fun slot path => .throw
  | succ fuel inductionHypothesis =>
      exact staysCoherent_visit types (correct_expand types fuel) inductionHypothesis

/-- The walk of a root keeps the table coherent, however it ends. -/
theorem keeps_coherent_root (types : w.catalog.OneTypeEach) (shape : Shape n) :
    Keeps (Coherent w.catalog) (w.root shape) fun _ => True :=
  keeps_rootBy (staysCoherent_expand types (n + 1)) shape

/-- The root of a walk that succeeds on a declared type has a name. -/
theorem exists_name_of_root (types : w.catalog.OneTypeEach) {result : Option String}
    (coherent : Coherent w.catalog defs) (ran : Runs (w.root (.declared slot)) defs result defs') :
    ∃ name, result = some name := by
  unfold root rootBy at ran
  dsimp only at ran
  split at ran
  · exact absurd ran not_runs_throw
  · next notEnum =>
    obtain ⟨held, between, ranGet, rest⟩ := runs_bind.1 ran
    obtain ⟨rfl, rfl⟩ := runs_get.1 ranGet
    split at rest
    · obtain ⟨_, _, thrown, _⟩ := runs_bind.1 rest
      exact absurd thrown not_runs_throw
    · obtain ⟨t, after, ranExpand, done⟩ := runs_bind.1 rest
      obtain ⟨rfl, rfl⟩ := runs_pure.1 done
      cases (correct_expand types _ slot [] _ t _ coherent ranExpand).2 with
      | enumeration isEnum =>
          exact absurd isEnum (notEnum _)
      | named _ _ =>
          exact ⟨_, rfl⟩

end SchemaRpc.Introspection
